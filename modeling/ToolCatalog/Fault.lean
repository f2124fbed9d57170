import ToolCatalog.Value.Basic

/-!
# What can go wrong

A fault says why a reference, a schema, an operation or a document could not be used.  The first
group is told to the user in words, which `Fault.message?` has in one place.  The second group
arises where a document holds a value of a kind that a rule cannot work with; it names the need
that the value did not meet.
-/

namespace ToolCatalog

/-- A cause of failure. -/
inductive Fault where
  /-- The reference points outside the document. -/
  | unsupportedReference (ref : String)
  /-- The reference cannot be followed past the given segment. -/
  | invalidReferencePath (ref segment : String)
  /-- The reference is being resolved already. -/
  | circularReference (ref : String)
  /-- The operation has no identifier to name its tool after. -/
  | missingOperationId (method path : String)
  | rootNotMapping
  | unsupportedVersion (declared : Option String)
  | neitherJsonNorYaml
  | unreadableFile
  /-- The text of a file is not in its encoding. -/
  | undecodable
  /-- A field was looked up in something that is not a mapping. -/
  | notMapping
  /-- A key of a schema is not a text. -/
  | keyNotText
  /-- Items were asked of something that has none. -/
  | notCollection
  /-- Membership or an entry was asked of something that cannot answer. -/
  | notSearchable
  /-- A collection was used as a key. -/
  | notKey
  /-- A text was needed. -/
  | notText
  /-- Two values without an order had to be sorted. -/
  | notOrdered
  /-- An entry was taken from a mapping that does not have it. -/
  | missingEntry
  /-- Something other than two items was used as an entry of a mapping. -/
  | notEntry
  /-- A field of a settings record or of a tool has a value of the wrong type. -/
  | rejectedField
  /-- A tagged scalar is not a value of its type, or a date is not in the calendar. -/
  | impossibleScalar
  /-- An escaped character code has more than 31 bits. -/
  | excessiveCode
  /-- A tagged truth value is none of the words for one. -/
  | unlistedWord
  /-- A tagged number has no digits at all. -/
  | emptyNumber
  /-- A tagged timestamp does not have the form of one. -/
  | formlessTimestamp
  /-- A tagged timestamp is a mapping. -/
  | structuredTimestamp
  /-- A digit of a number to the base sixty counts for more than any floating point number. -/
  | excessivePlace
  /-- An integer has too many digits to be written. -/
  | excessiveDigits
  /-- Data in a schema is nested too deeply, or without end. -/
  | excessiveDepth
  /-- A catalog was to be written where there is a directory. -/
  | outputIsDirectory
deriving DecidableEq, Inhabited

namespace Fault

/-- The words for a fault of the first group. -/
def message? : Fault → Option String
  | unsupportedReference ref => some ("Only local references are supported: " ++ ref)
  | invalidReferencePath ref segment =>
    some ("Invalid reference path: " ++ ref ++ " (at '" ++ segment ++ "')")
  | circularReference ref => some ("Circular reference detected: " ++ ref)
  | missingOperationId method path =>
    some ("Operation ID is required for tool parsing: " ++ method ++ " " ++ path)
  | rootNotMapping => some "Document root must be a mapping"
  | unsupportedVersion declared =>
    some ("Unsupported document version: " ++ declared.getD "unknown"
      ++ " (expected OpenAPI 3.x)")
  | neitherJsonNorYaml => some "Document is neither valid JSON nor YAML"
  | unreadableFile => some "Error loading document from file"
  | _ => none

/-- A fault of any kind in words. -/
def describe : Fault → String
  | undecodable => "Text is not UTF-8"
  | notMapping => "Expected a mapping"
  | keyNotText => "Expected a text as key"
  | notCollection => "Expected a collection"
  | notSearchable => "Expected something to search in"
  | notKey => "A collection cannot be a key"
  | notText => "Expected a text"
  | notOrdered => "Expected values that can be sorted"
  | missingEntry => "Expected an entry that is missing"
  | notEntry => "Expected a pair of key and value"
  | rejectedField => "A field is missing or has the wrong type"
  | impossibleScalar => "A scalar is not a value of its type"
  | excessiveCode => "A character code is too large"
  | unlistedWord => "A word is not a truth value"
  | emptyNumber => "A number has no digits"
  | formlessTimestamp => "A timestamp does not have the form of one"
  | structuredTimestamp => "A timestamp is a mapping"
  | excessivePlace => "A digit of a number is too far to the left"
  | excessiveDigits => "An integer has too many digits"
  | excessiveDepth => "Data is nested too deeply"
  | outputIsDirectory => "The output is a directory"
  | f => f.message?.getD ""

/-- Whether a fault says that a document could not be loaded. -/
def isLoad : Fault → Bool
  | rootNotMapping | unsupportedVersion _ | neitherJsonNorYaml | unreadableFile => true
  | _ => false

/-- Whether a fault is one of those told in words. -/
def isOwn (f : Fault) : Bool := f.message?.isSome

/-- Whether a value met an operation that its kind does not have. -/
def isKindMismatch : Fault → Bool
  | notCollection | notSearchable | notKey | notText | notOrdered => true
  | _ => false

/-- Whether a declared parameter with this fault is left out and its operation goes on: the
references of the parameter lead nowhere, or its schema mixes up kinds of values. -/
def skipsParameter (f : Fault) : Bool :=
  f.isOwn || f.isKindMismatch || f == missingEntry

/-- Whether an operation with this fault is left out and the others go on.  Numbers and character codes
that cannot be read, and a place that cannot be written to, are no matter of one operation. -/
def skipsOperation : Fault → Bool
  | excessiveCode | emptyNumber | excessivePlace | outputIsDirectory => false
  | _ => true

end Fault

end ToolCatalog
