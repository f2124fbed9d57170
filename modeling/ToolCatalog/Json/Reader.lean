import ToolCatalog.Number.Decimal
import ToolCatalog.Text.Hex
import ToolCatalog.Value.Basic

/-!
# Reading JSON

The grammar is the strict one, with three additions: the words `NaN`, `Infinity` and `-Infinity`
are numbers.  A number with a fraction or an exponent is a floating point number and any other an
integer.  Objects keep the order of their members; a repeated name keeps its first place and takes
its last value.
-/

namespace ToolCatalog.Json

/-- Drop white space. -/
def skipBlanks : List Char → List Char
  | [] => []
  | c :: rest => if c = ' ' ∨ c = '\n' ∨ c = '\r' ∨ c = '\t' then skipBlanks rest else c :: rest

/-- The first and the second unit of those that make up a character in pairs. -/
def isHighUnit (n : Nat) : Bool := 0xD800 ≤ n && n < 0xDC00

def isLowUnit (n : Nat) : Bool := 0xDC00 ≤ n && n < 0xE000

/-- The character of a pair of units. -/
def pairChar (high low : Nat) : Char :=
  Char.ofNat (0x10000 + (high - 0xD800) * 0x400 + (low - 0xDC00))

/-- The character of one unit.  One that needs a partner is no character and reads as the
replacement character. -/
def unitChar (n : Nat) : Char :=
  if isHighUnit n || isLowUnit n then '\uFFFD' else Char.ofNat n

/-- The character that an escape letter stands for. -/
def simpleEscape? : Char → Option Char
  | '"' => some '"'
  | '\\' => some '\\'
  | '/' => some '/'
  | 'b' => some '\x08'
  | 'f' => some '\x0c'
  | 'n' => some '\n'
  | 'r' => some '\r'
  | 't' => some '\t'
  | _ => none

/-- The characters of code points and units, with the units of a pair joined. -/
def joinPairs : List Nat → List Char
  | [] => []
  | [n] => [unitChar n]
  | n :: m :: rest =>
    if isHighUnit n && isLowUnit m then pairChar n m :: joinPairs rest
    else unitChar n :: joinPairs (m :: rest)

/-- Read the code points and units of a string after its opening quotation mark.  `done` holds
those read so far, last one first. -/
def readUnits? (done : List Nat) : List Char → Option (List Nat × List Char)
  | [] => none
  | '"' :: rest => some (done.reverse, rest)
  | '\\' :: 'u' :: a :: b :: c :: d :: rest =>
    match Text.hexNumber? [a, b, c, d] with
    | some unit => readUnits? (unit :: done) rest
    | none => none
  | '\\' :: c :: rest =>
    match simpleEscape? c with
    | some c => readUnits? (c.toNat :: done) rest
    | none => none
  | c :: rest =>
    if c.toNat < 0x20 || c == '\\' then none else readUnits? (c.toNat :: done) rest

/-- Read the rest of a string after its opening quotation mark. -/
def readString? (cs : List Char) : Option (String × List Char) := do
  let (units, rest) ← readUnits? [] cs
  return (String.ofList (joinPairs units), rest)

/-- Read a number: an integer part without needless zeros, a fraction and an exponent. -/
def readNumber? (cs : List Char) : Option (Value × List Char) :=
  let (isNegative, body) := match cs with
    | '-' :: rest => (true, rest)
    | _ => (false, cs)
  let (whole, rest) := match body with
    | '0' :: rest => ([0], rest)
    | _ => Numeral.spanDigits body
  if whole.isEmpty then none
  else
    let (fraction, rest) := match rest with
      | '.' :: rest' =>
        match Numeral.spanDigits rest' with
        | ([], _) => ([], rest)
        | (ds, rest'') => (ds, rest'')
      | _ => ([], rest)
    match Numeral.spanExponent? rest with
    | some (e, rest') =>
      some (.scalar (.float (DecimalParts.toBinary64 isNegative ⟨whole, fraction, e⟩)), rest')
    | none =>
      if fraction.isEmpty then
        if Numeral.maxDecimalDigits < whole.length then none
        else
          let n := Numeral.ofDigits 10 whole
          some (.int (if isNegative then -(n : Int) else n), rest)
      else some (.scalar (.float (DecimalParts.toBinary64 isNegative ⟨whole, fraction, 0⟩)), rest)

/-- The words that are values, each with its value. -/
def words : List (List Char × Value) :=
  [("null".toList, .null), ("true".toList, .bool true), ("false".toList, .bool false),
   ("NaN".toList, .scalar (.float .nan)), ("Infinity".toList, .scalar (.float (.infinity false))),
   ("-Infinity".toList, .scalar (.float (.infinity true)))]

/-- A word that is a value. -/
def readWord? (cs : List Char) : Option (Value × List Char) :=
  (words.find? fun w => w.1.isPrefixOf cs).map fun w => (w.2, cs.drop w.1.length)

mutual

/-- Read a value. -/
def readValue? : Nat → List Char → Option (Value × List Char)
  | 0, _ => none
  | fuel + 1, cs =>
    match cs with
    | '"' :: rest => do
      let (s, rest') ← readString? rest
      return (.text s, rest')
    | '[' :: rest =>
      match skipBlanks rest with
      | ']' :: rest' => some (.list [], rest')
      | rest' => do
        let (vs, rest'') ← readItems? fuel [] rest'
        return (.list vs, rest'')
    | '{' :: rest =>
      match skipBlanks rest with
      | '}' :: rest' => some (.map [], rest')
      | rest' => do
        let (es, rest'') ← readMembers? fuel [] rest'
        return (.map es, rest'')
    | _ => (readWord? cs).or (readNumber? cs)

/-- Read the items of an array up to its end; those read so far are in `done`, last one first. -/
def readItems? : Nat → List Value → List Char → Option (List Value × List Char)
  | 0, _, _ => none
  | fuel + 1, done, cs => do
    let (v, rest) ← readValue? fuel cs
    match skipBlanks rest with
    | ',' :: rest' => readItems? fuel (v :: done) (skipBlanks rest')
    | ']' :: rest' => return ((v :: done).reverse, rest')
    | _ => none

/-- Read the members of an object up to its end, writing them into `done` one by one. -/
def readMembers? : Nat → Keyed Value → List Char → Option (Keyed Value × List Char)
  | 0, _, _ => none
  | fuel + 1, done, cs =>
    match cs with
    | '"' :: rest => do
      let (name, rest') ← readString? rest
      match skipBlanks rest' with
      | ':' :: rest'' => do
        let (v, rest) ← readValue? fuel (skipBlanks rest'')
        let done' := Keyed.put done (.text name) v
        match skipBlanks rest with
        | ',' :: rest' => readMembers? fuel done' (skipBlanks rest')
        | '}' :: rest' => return (done', rest')
        | _ => none
      | _ => none
    | _ => none

end

/-- **Read a JSON text**: one value with white space around it and nothing else.  Every step of
the reader takes a character, so the length of the text bounds their number. -/
def read? (text : String) : Option Value := do
  let cs := text.toList
  let (v, rest) ← readValue? (cs.length + 1) (skipBlanks cs)
  if (skipBlanks rest).isEmpty then return v else none

end ToolCatalog.Json
