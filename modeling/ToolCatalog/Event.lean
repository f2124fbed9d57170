import ToolCatalog.Value.Display
import ToolCatalog.Fault

/-!
# Events

What a compilation reports while it runs.  Each event has a level, a format in which `%s` stands
for an argument, and its arguments as values.
-/

namespace ToolCatalog

/-- How much an event matters. -/
inductive Level where
  | debug
  | info
  | warning
deriving DecidableEq, Inhabited

def Level.name : Level → String
  | debug => "DEBUG"
  | info => "INFO"
  | warning => "WARNING"

/-- An argument of an event: a value or the fault that caused it. -/
inductive Argument where
  | value (v : Value)
  | fault (f : Fault)
deriving Inhabited

/-- Something worth reporting. -/
inductive Event where
  | propertyDropped (name : Scalar)
  | deprecatedReferenceDropped (name : Scalar)
  | pathsIgnored (kind : String)
  | operationSkipped (method : String) (path : Scalar) (fault : Fault)
  | operationReplaced (name method : String) (path : Scalar)
  | catalogCompiled (tools paths : Nat)
  | operationStarted (name method : String) (path : Scalar)
  | parameterSkipped (name : Value) (operation : String) (fault : Fault)
  | bodyIgnored (operation : String)
  | parameterUnresolved (operation : String) (fault : Fault)
  | parameterMalformed (operation : String) (parameter : Value)
  | parameterExcluded (name operation : String)
  | mediaUnsupported (types : List Value)
deriving Inhabited

namespace Event

def level : Event → Level
  | pathsIgnored _ | operationSkipped _ _ _ | operationReplaced _ _ _ | parameterSkipped _ _ _
  | parameterUnresolved _ _ | parameterMalformed _ _ => .warning
  | catalogCompiled _ _ => .info
  | propertyDropped _ | deprecatedReferenceDropped _ | operationStarted _ _ _ | bodyIgnored _
  | parameterExcluded _ _ | mediaUnsupported _ => .debug

def format : Event → String
  | propertyDropped _ => "Dropping property %s"
  | deprecatedReferenceDropped _ => "Dropping property %s (deprecated reference)"
  | pathsIgnored _ => "Ignoring 'paths': expected a mapping, got %s"
  | operationSkipped _ _ _ => "Skipping operation %s %s: %s"
  | operationReplaced _ _ _ =>
    "Duplicate operationId '%s' at %s %s replaces an earlier operation"
  | catalogCompiled _ _ => "Compiled %d tools from %d paths"
  | operationStarted _ _ _ => "Compiling %s (%s %s)"
  | parameterSkipped _ _ _ => "Skipping parameter %r of %s: %s"
  | bodyIgnored _ => "Ignoring non-object request body of %s"
  | parameterUnresolved _ _ => "Skipping parameter of %s: %s"
  | parameterMalformed _ _ => "Skipping malformed parameter of %s: %r"
  | parameterExcluded _ _ => "Excluding parameter %s of %s"
  | mediaUnsupported _ => "No supported request body media type in %s"

def arguments : Event → List Argument
  | propertyDropped name | deprecatedReferenceDropped name => [.value (.scalar name)]
  | pathsIgnored kind => [.value (.text kind)]
  | operationSkipped method path fault =>
    [.value (.text method), .value (.scalar path), .fault fault]
  | operationReplaced name method path =>
    [.value (.text name), .value (.text method), .value (.scalar path)]
  | catalogCompiled tools paths => [.value (.int tools), .value (.int paths)]
  | operationStarted name method path =>
    [.value (.text name), .value (.text method), .value (.scalar path)]
  | parameterSkipped name operation fault =>
    [.value name, .value (.text operation), .fault fault]
  | bodyIgnored operation => [.value (.text operation)]
  | parameterUnresolved operation fault => [.value (.text operation), .fault fault]
  | parameterMalformed operation parameter => [.value (.text operation), .value parameter]
  | parameterExcluded name operation => [.value (.text name), .value (.text operation)]
  | mediaUnsupported types => [.value (.list types)]

/-- An argument in place of its mark in a format: quoted for `%r`, else on its own. -/
def shownArgument (mark : Char) : Argument → String
  | .value v => if mark = 'r' then v.quoted else v.shown
  | .fault f => f.describe

/-- A format with its arguments in place of their marks. -/
def fill : List Char → List Argument → List Char
  | '%' :: mark :: rest, a :: as => (shownArgument mark a).toList ++ fill rest as
  | c :: rest, as => c :: fill rest as
  | [], _ => []

/-- An event in words. -/
def text (e : Event) : String := String.ofList (fill e.format.toList e.arguments)

end Event

end ToolCatalog
