import Simultaneous.Report.Text
import Simultaneous.Settings.Json

/-!
The command line: what its arguments ask for, and the answer. Files are read through a function in
any monad, so that answers can be computed without a file system.
-/

namespace Simultaneous.CommandLine

open Text

inductive UsageError where
  | unknownOption (argument : String)
  | repeatedOption (name : String)
  | missingValue (name : String)
  | superfluousValue (name : String)
  | invalidValue (name value : String)
  | secondScript (argument : String)
  | missingScript
deriving Repr, DecidableEq

namespace UsageError

def message : UsageError → String
  | unknownOption argument => "unexpected argument '" ++ argument ++ "'"
  | repeatedOption name => "the option '" ++ name ++ "' is given twice"
  | missingValue name => "the option '" ++ name ++ "' needs a value"
  | superfluousValue name => "the option '" ++ name ++ "' takes no value"
  | invalidValue name value => "invalid value '" ++ value ++ "' for '" ++ name ++ "'"
  | secondScript argument => "unexpected argument '" ++ argument ++ "'"
  | missingScript => "a script is required"

end UsageError

structure Options where
  degrees : Bool
  verbose : Bool
  timeout? : Option Decimal.Numeral
  method? : Option Method
  /-- the file with settings -/
  settings? : Option String
  /-- the file with properties of substances -/
  properties? : Option String
  /-- the file with the script -/
  script? : Option String
deriving Repr, DecidableEq

def Options.none : Options := ⟨false, false, .none, .none, .none, .none, .none⟩

inductive Request where
  | run (options : Options) (script : String)
  | help
  | version
deriving Repr, DecidableEq

inductive Valued where
  | timeout
  | method
  | settings
  | properties
deriving Repr, DecidableEq

namespace Valued

def name : Valued → String
  | timeout => "--timeout"
  | method => "--method"
  | settings => "--config"
  | properties => "--properties"

def ofName? (name : String) : Option Valued :=
  [timeout, method, settings, properties].find? (·.name = name)

/-- Values of a timeout may start with a hyphen, all others may not unless they are one. -/
def accepts (v : Valued) (value : String) : Bool :=
  v = timeout || value.toList.head? != some '-' || value = "-"

def once {β : Type} (v : Valued) (old : Option β) (new : Option β) (value : String) :
    Except UsageError (Option β) :=
  if old.isSome then .error (.repeatedOption v.name)
  else match new with
    | none => .error (.invalidValue v.name value)
    | some x => .ok (some x)

def path? (value : String) : Option String := if value.isEmpty then none else some value

def set (v : Valued) (value : String) (o : Options) : Except UsageError Options :=
  match v with
  | timeout =>
    (v.once o.timeout? (Decimal.Numeral.read? value.toList) value).map fun x =>
      { o with timeout? := x }
  | method =>
    (v.once o.method? (Method.ofUser value).toOption value).map fun x => { o with method? := x }
  | settings => (v.once o.settings? (path? value) value).map fun x => { o with settings? := x }
  | properties =>
    (v.once o.properties? (path? value) value).map fun x => { o with properties? := x }

end Valued

def splitLong (argument : String) : String × Option String :=
  match cutAt? '=' argument.toList with
  | none => (argument, none)
  | some (name, value) => (String.ofList name, some (String.ofList value))

def readLetters (argument : String) : List Char → Options → Except UsageError (Options ⊕ Request)
  | [], o => .ok (.inl o)
  | 'h' :: _, _ => .ok (.inr .help)
  | 'V' :: _, _ => .ok (.inr .version)
  | 'v' :: rest, o =>
    if o.verbose then .error (.repeatedOption "-v")
    else readLetters argument rest { o with verbose := true }
  | _ :: _, _ => .error (.unknownOption argument)

def setScript (argument : String) (o : Options) : Except UsageError Options :=
  if o.script?.isSome then .error (.secondScript argument)
  else if argument.isEmpty then .error .missingScript
  else .ok { o with script? := some argument }

def readPlain : List String → Options → Except UsageError Options
  | [], o => .ok o
  | argument :: rest, o => (setScript argument o).bind (readPlain rest)

def setFlag (name : String) (o : Options) : Except UsageError (Options ⊕ Request) :=
  if name = "--help" then .ok (.inr .help)
  else if name = "--version" then .ok (.inr .version)
  else if name = "--degrees" then
    if o.degrees then .error (.repeatedOption name) else .ok (.inl { o with degrees := true })
  else if name = "--verbose" then
    if o.verbose then .error (.repeatedOption name) else .ok (.inl { o with verbose := true })
  else .error (.unknownOption name)

def finish (o : Options) : Except UsageError Request :=
  match o.script? with
  | none => .error .missingScript
  | some script => .ok (.run o script)

def readArguments : List String → Options → Except UsageError Request
  | [], o => finish o
  | argument :: rest, o =>
    let more : Except UsageError (Options ⊕ Request) → Except UsageError Request
      | .error e => .error e
      | .ok (.inr request) => .ok request
      | .ok (.inl o) => readArguments rest o
    match argument.toList with
    | ['-', '-'] => (readPlain rest o).bind finish
    | '-' :: '-' :: _ =>
      let (name, value?) := splitLong argument
      match Valued.ofName? name, value? with
      | some v, some value => more ((v.set value o).map .inl)
      | some v, none =>
        match rest with
        | [] => .error (.missingValue name)
        | value :: rest =>
          if v.accepts value then
            match v.set value o with
            | .error e => .error e
            | .ok o => readArguments rest o
          else .error (.missingValue name)
      | none, some _ =>
        more ((setFlag name o).bind fun _ => .error (.superfluousValue name))
      | none, none => more (setFlag name o)
    | '-' :: letter :: letters => more (readLetters argument (letter :: letters) o)
    | _ => more ((setScript argument o).map .inl)

def request (arguments : List String) : Except UsageError Request :=
  readArguments arguments .none

inductive InputError where
  | unreadable (path : String)
  | settings (path : String)
  | properties (path : String)
  | script (e : ScriptError)
deriving Repr, DecidableEq

namespace InputError

def message : InputError → String
  | unreadable path => "cannot read '" ++ path ++ "'"
  | settings path => "invalid settings in '" ++ path ++ "'"
  | properties path => "invalid properties in '" ++ path ++ "'"
  | script e => e.message

end InputError

def Options.change (o : Options) (s : Settings Float) : Settings Float :=
  { s with
    angleMode := if o.degrees then .degrees else s.angleMode
    timeout := (o.timeout?.map Decimal.Numeral.toFloat).getD s.timeout
    singleMethod := o.method?.getD s.singleMethod
    multiMethod := o.method?.getD s.multiMethod }

section Files

variable {m : Type → Type} [Monad m] (read : String → m (Option String))
variable (worker : List Nat → Worker)

def load {β : Type} (path : String) (parse : String → Except InputError β) :
    ExceptT InputError m β := do
  match ← read path with
  | none => throw (.unreadable path)
  | some text => ExceptT.mk (pure (parse text))

def loadSettings (o : Options) : ExceptT InputError m (Settings Float) :=
  match o.settings? with
  | none => pure (o.change Settings.standard)
  | some path => load read path fun text =>
    match Settings.read? text with
    | none => .error (.settings path)
    | some s => .ok (o.change s)

def loadProperties (o : Options) : ExceptT InputError m (Option PropertyTable) :=
  match o.properties? with
  | none => pure none
  | some path => load read path fun text =>
    match PropertyTable.read? text with
    | none => .error (.properties path)
    | some t => .ok (some t)

def loadScript (path : String) : ExceptT InputError m Script :=
  load read path fun text => (Script.ofText text).mapError .script

/-- The report on a script; its files are read in a fixed order, and the first fault ends it. -/
def report (o : Options) (script : String) : ExceptT InputError m (Report Float) := do
  let settings ← loadSettings read o
  let table? ← loadProperties read o
  let s ← loadScript read script
  return s.run ⟨settings, .direct, none, ⟨Settings.nanoseconds?, worker⟩⟩ table? .empty

end Files

structure Answer where
  exitCode : UInt32
  output : String
  /-- text for the error stream -/
  complaint : String
deriving Repr, DecidableEq

def usage : String := "Usage: eqsolve [OPTIONS] <DOCUMENT>\n"

def helpText : String :=
  "Solve a document of engineering equations\n\n" ++ usage ++
    "\nArguments:\n" ++
    "  <DOCUMENT>  Equation document\n" ++
    "\nOptions:\n" ++
    "      --degrees                  Interpret trigonometric arguments in degrees\n" ++
    "      --timeout <TIMEOUT>        Per-block timeout in seconds; negative disables it\n" ++
    "      --method <METHOD>          Kernel for every block: newton, dogleg or lm\n" ++
    "      --config <CONFIG>          Solver configuration as JSON\n" ++
    "      --properties <PROPERTIES>  Substance property table as JSON\n" ++
    "  -v, --verbose                  Log block decisions\n" ++
    "  -h, --help                     Print help\n" ++
    "  -V, --version                  Print version\n"

def versionText : String := "eqsolve 0.1.0\n"

def answer {m : Type → Type} [Monad m] (read : String → m (Option String))
    (worker : List Nat → Worker) (color : Bool) (arguments : List String) : m Answer :=
  match request arguments with
  | .error e => pure ⟨2, "", Report.errorMark color ++ " " ++ e.message ++ "\n" ++ usage⟩
  | .ok .help => pure ⟨0, helpText, ""⟩
  | .ok .version => pure ⟨0, versionText, ""⟩
  | .ok (.run o script) => do
    match ← (report read worker o script).run with
    | .error e => pure ⟨1, "", Report.errorMark color ++ " " ++ e.message ++ "\n"⟩
    | .ok r => pure ⟨if r.failed then 1 else 0, r.text color, ""⟩

end Simultaneous.CommandLine
