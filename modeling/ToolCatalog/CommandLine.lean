import ToolCatalog.Catalog
import ToolCatalog.CommandLine.Path
import ToolCatalog.Document.File
import ToolCatalog.Json.Printer
import ToolCatalog.Text.Terminal
import ToolCatalog.Tool.Wire

/-!
# The command line

Two commands work on a document in a file: `compile` writes the catalog as JSON, to the standard
output or to a file, and `list` writes a line for each tool.  Arguments are read in one pass;
options may stand before and after the document, and `--` ends them.
-/

namespace ToolCatalog.CommandLine

/-- What a command works on and how. -/
structure Request where
  document : String
  baseUrl : Option String := none
  excluded : List String := []
  /-- The file the catalog is written to. -/
  output : Option String := none
deriving DecidableEq

/-- A command. -/
inductive Command where
  | compile (r : Request)
  | list (r : Request)
deriving DecidableEq

/-- What the arguments ask for. -/
structure Invocation where
  verbose : Bool
  command : Command
deriving DecidableEq

/-- An option of a command that takes a value. -/
inductive ValueOption where
  | output
  | baseUrl
  | exclude
deriving DecidableEq

/-- The arguments of a command read so far: positional ones and option values, in order. -/
structure Collected where
  positional : List String := []
  values : List (ValueOption × String) := []

/-- The long options of a command; only `compile` writes to a file. -/
def longOption? (writes : Bool) : String → Option ValueOption
  | "--output" => if writes then some .output else none
  | "--base-url" => some .baseUrl
  | "--exclude" => some .exclude
  | _ => none

/-- Cut an argument at its first equals sign. -/
def cutAtEquals (cs : List Char) : List Char × Option (List Char) :=
  match cs with
  | [] => ([], none)
  | c :: rest =>
    if c = '=' then ([], some rest)
    else
      let (name, value) := cutAtEquals rest
      (c :: name, value)

/-- What a single argument of a command is. -/
inductive Token where
  | positional
  /-- An option together with its value. -/
  | given (option : ValueOption) (value : String)
  /-- An option whose value is the next argument. -/
  | awaiting (option : ValueOption)
  /-- The mark after which no argument is an option. -/
  | endOfOptions
  | unknown
deriving DecidableEq

/-- Classify an argument: long options may bring their value after an equals sign, and the short
one right behind its letter. -/
def Token.of (writes : Bool) (arg : String) : Token :=
  match arg.toList with
  | ['-', '-'] => endOfOptions
  | '-' :: '-' :: _ =>
    let (name, value) := cutAtEquals arg.toList
    match longOption? writes (String.ofList name), value with
    | some option, some value => given option (String.ofList value)
    | some option, none => awaiting option
    | none, _ => unknown
  | ['-', letter] => if letter = 'o' ∧ writes then awaiting .output else unknown
  | '-' :: letter :: attached =>
    if letter = 'o' ∧ writes then given .output (String.ofList attached) else unknown
  | _ => positional

/-- Read the arguments of a command.  Arguments that cannot be read give nothing. -/
def collect? (writes : Bool) (found : Collected) : List String → Option Collected
  | [] => some found
  | arg :: rest =>
    match Token.of writes arg with
    | .positional =>
      collect? writes { found with positional := found.positional ++ [arg] } rest
    | .given option value =>
      collect? writes { found with values := found.values ++ [(option, value)] } rest
    | .awaiting option =>
      match rest with
      | [] => none
      | value :: rest' =>
        collect? writes { found with values := found.values ++ [(option, value)] } rest'
    | .endOfOptions => some { found with positional := found.positional ++ rest }
    | .unknown => none

/-- The last value given to an option. -/
def Collected.last? (c : Collected) (option : ValueOption) : Option String :=
  ((c.values.filter (·.1 == option)).getLast?).map (·.2)

/-- The request of a command that has read exactly one document. -/
def Collected.request? (c : Collected) : Option Request :=
  match c.positional with
  | [document] => some {
      document
      baseUrl := c.last? .baseUrl
      excluded := ((c.values.filter (·.1 == .exclude)).map (·.2)).eraseDups
      output := (c.last? .output).map Path.tidy }
  | _ => none

/-- Read a command with its arguments. -/
def command? (name : String) (args : List String) : Option Command :=
  match name with
  | "compile" => (collect? true {} args).bind fun c => c.request?.map .compile
  | "list" => (collect? false {} args).bind fun c => c.request?.map .list
  | _ => none

/-- **Read the arguments.**  The one option that stands before the command asks for more
reports. -/
def parse? (verbose : Bool) : List String → Option Invocation
  | [] => none
  | arg :: rest =>
    if arg = "--verbose" then parse? true rest
    else match arg.toList with
      | '-' :: 'v' :: more =>
        if more.all (· == 'v') then parse? true rest else none
      | ['-', '-'] =>
        match rest with
        | name :: args => (command? name args).map (⟨verbose, ·⟩)
        | [] => none
      | '-' :: _ :: _ => none
      | _ => (command? arg rest).map (⟨verbose, ·⟩)

/-- What a run of the program does. -/
structure Report where
  exitCode : Nat := 0
  output : String := ""
  errors : String := ""
  /-- A file that is written, with its text. -/
  file : Option (String × String) := none
  /-- The fault that ended the run without a word to the user. -/
  crash : Option Fault := none
  verbose : Bool := false
  events : List Event := []

/-- The lines that tell of the events of a run and of the fault that ended it: warnings always,
other events if they are asked for. -/
def Report.diagnostics (r : Report) : List String :=
  (r.events.filter fun e => r.verbose || e.level == .warning).map
      (fun e => e.level.name ++ ": " ++ e.text)
    ++ (r.crash.map Fault.describe).toList

/-- The run that ends with a wrong use of the arguments. -/
def Report.misuse : Report := { exitCode := 2 }

/-- The run that ends with a fault: one of loading is told to the user. -/
def Report.ofFault (f : Fault) : Report :=
  match f.isLoad, f.message? with
  | true, some message => { exitCode := 1, errors := "Error: " ++ message ++ "\n" }
  | _, _ => { exitCode := 1, crash := some f }

/-- Compile the document of a request. -/
def compileDocument (file : Document.File) (r : Request) : Outcome Catalog := do
  let document ← Document.loadFile file
  let c ← Compiler.create document { baseUrl := r.baseUrl, removed := r.excluded }
  Catalog.compile c

/-- The line of a tool in a list: its method in seven columns, its address and its name. -/
def listLine (name : String) (t : Tool) : String :=
  t.recipe.method ++ String.ofList (List.replicate (7 - t.recipe.method.length) ' ')
    ++ " " ++ t.recipe.url ++ " " ++ name ++ "\n"

/-- What `list` does with a catalog. -/
def listed (catalog : Catalog) : Report :=
  { output := String.join (catalog.map fun e => listLine e.1 e.2)
    errors := "Found " ++ toString catalog.length ++ " tools.\n" }

/-- What `compile` does with a catalog. -/
def written (output : Option String) (catalog : Catalog) : Except Fault Report := do
  let tools := Value.record (← catalog.mapM fun e => return (e.1, ← e.2.publish))
  if !tools.isModerate [] then throw .excessiveDigits
  let text := Json.pretty tools ++ "\n"
  match output with
  | none => return { output := text }
  | some path =>
    if Path.namesFile path then return {
      file := some (path, text)
      errors := "Compiled " ++ toString catalog.length ++ " tools to " ++ path ++ "\n" }
    else throw .outputIsDirectory

/-- Carry out a command on a file. -/
def Command.run (command : Command) (file : Document.File) : Outcome Report :=
  match command with
  | .compile r => do written r.output (← compileDocument file r)
  | .list r => do return listed (← compileDocument file r)

/-- The document a command works on. -/
def Command.document : Command → String
  | .compile r | .list r => r.document

/-- **A run of the program.**  `files` tells what is found at a path. -/
def run (files : String → Document.File) (args : List String) : Report :=
  match parse? false args with
  | none => .misuse
  | some invocation =>
    match files invocation.command.document with
    | .missing | .directory => .misuse
    | file =>
      let outcome := invocation.command.run file
      let report := match outcome.result with
        | .ok r => r
        | .error f => .ofFault f
      { report with
        output := Text.readable report.output
        errors := Text.readable report.errors
        verbose := invocation.verbose
        events := outcome.events }

end ToolCatalog.CommandLine
