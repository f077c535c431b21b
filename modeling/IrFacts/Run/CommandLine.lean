import IrFacts.Run.Basic
import IrFacts.Run.Load

/-!
# The command line

Arguments are read from left to right, and the first one that is wrong or asks
for help or for the version decides. The value of an option follows behind an
equals sign or as the next argument, which must not look like an option. After
`--` there are no options.
-/

set_option autoImplicit false

namespace IrFacts.CommandLine

inductive LogLevel where
  | trace
  | debug
  | info
  | warn
  | error
deriving DecidableEq, Repr, Inhabited

structure Options where
  input : Option Path := none
  invocationTrap : Option Path := none
  trapDir : Option Path := none
  sourceArchiveDir : Option Path := none
  checkTrapIdentical : Bool := false
  exitAfterExtraction : Bool := false
  compilationStartMs : Option Nat := none
  diagnosticLimit : Option Nat := none
  logLevel : Option LogLevel := none
  logJson : Bool := false
deriving DecidableEq, Repr, Inhabited

inductive UsageError where
  | unknownOption (name : String)
  | unexpectedArgument (text : String)
  | missingValue (option : String)
  | unneededValue (option : String)
  | invalidValue (option value : String)
  | repeated (option : String)
  | missingInput
deriving DecidableEq, Repr

def UsageError.message : UsageError → String
  | .unknownOption name => "unknown option " ++ name
  | .unexpectedArgument text => "unexpected argument " ++ text
  | .missingValue option => "a value is required for " ++ option
  | .unneededValue option => "no value is expected for " ++ option
  | .invalidValue option value => "invalid value for " ++ option ++ ": " ++ value
  | .repeated option => option ++ " is given more than once"
  | .missingInput => "no document is given"

inductive Request where
  | help
  | version
  | extract (input : Path) (options : Options)
deriving DecidableEq, Repr

def Options.overrides (o : Options) : Overrides :=
  { invocationTrap := o.invocationTrap
    trapDir := o.trapDir
    sourceArchiveDir := o.sourceArchiveDir
    checkTrapIdentical := o.checkTrapIdentical
    exitAfterExtraction := o.exitAfterExtraction
    compilationStartMs := o.compilationStartMs
    diagnosticLimit := o.diagnosticLimit }

/-! ## Values -/

def readPath (value : String) : Option Path :=
  if value = "" then none else some ⟨value⟩

def readStart (value : String) : Option Nat := Text.readNatural UInt64.size value.toList

/-- A limit may have a sign, even zero a negative one. -/
def readLimit (value : String) : Option Nat :=
  match value.toList with
  | '-' :: digits =>
    if digits.head? = some '+' then none else (Text.readNatural 1 digits)
  | text => Text.readNatural UInt32.size text

def readLevel : String → Option LogLevel
  | "trace" => some .trace
  | "debug" => some .debug
  | "info" => some .info
  | "warn" => some .warn
  | "error" => some .error
  | _ => none

/-! ## Options -/

inductive Action where
  /-- Sets a flag. -/
  | flag (isSet : Options → Bool) (set : Options → Options)
  /-- Takes a value, and fails if there is something wrong with it. -/
  | value (isSet : Options → Bool) (set : String → Options → Option Options)
  | ask (request : Request)

def taking {α : Type} (read : String → Option α) (kept : Options → Option α)
    (keep : α → Options → Options) : Action :=
  .value (fun o => (kept o).isSome) fun value o => (read value).map (keep · o)

def actionOf? : String → Option Action
  | "help" => some (.ask .help)
  | "version" => some (.ask .version)
  | "check-trap-identical" =>
    some (.flag (·.checkTrapIdentical) fun o => { o with checkTrapIdentical := true })
  | "exit-after-extraction" =>
    some (.flag (·.exitAfterExtraction) fun o => { o with exitAfterExtraction := true })
  | "log-json" => some (.flag (·.logJson) fun o => { o with logJson := true })
  | "invocation-trap-file" =>
    some (taking readPath (·.invocationTrap) fun path o => { o with invocationTrap := some path })
  | "trap-dir" => some (taking readPath (·.trapDir) fun path o => { o with trapDir := some path })
  | "source-archive-dir" =>
    some (taking readPath (·.sourceArchiveDir) fun path o =>
      { o with sourceArchiveDir := some path })
  | "compilation-start-ms" =>
    some (taking readStart (·.compilationStartMs) fun n o =>
      { o with compilationStartMs := some n })
  | "diagnostic-limit" =>
    some (taking readLimit (·.diagnosticLimit) fun n o => { o with diagnosticLimit := some n })
  | "log-level" =>
    some (taking readLevel (·.logLevel) fun level o => { o with logLevel := some level })
  | _ => none

inductive Step where
  | done (options : Options)
  /-- The option `name` waits for its value. -/
  | waiting (name : String) (set : String → Options → Option Options) (options : Options)
  | asked (request : Request)

/-- Reads an option without its dashes. -/
def readOption (name : String) (value : Option String) (o : Options) : Except UsageError Step :=
  match actionOf? name, value with
  | none, _ => .error (.unknownOption name)
  | some (.ask _), some _ => .error (.unneededValue name)
  | some (.ask request), none => .ok (.asked request)
  | some (.flag _ _), some _ => .error (.unneededValue name)
  | some (.flag isSet set), none =>
    if isSet o then .error (.repeated name) else .ok (.done (set o))
  | some (.value isSet set), some value =>
    match set value o with
    | some next => if isSet o then .error (.repeated name) else .ok (.done next)
    | none => .error (.invalidValue name value)
  | some (.value isSet set), none =>
    if isSet o then .error (.repeated name) else .ok (.waiting name set o)

def readInput (text : String) (o : Options) : Except UsageError Options :=
  match o.input, readPath text with
  | some _, _ => .error (.unexpectedArgument text)
  | none, none => .error (.invalidValue "the document" text)
  | none, some path => .ok { o with input := some path }

inductive Argument where
  | separator
  | long (name : String) (value : Option String)
  /-- Letters behind one dash. -/
  | short (letters : List Char)
  | plain (text : String)
deriving DecidableEq, Repr

/-- A name and, behind the first equals sign, a value. -/
def splitAtEquals (text : List Char) : String × Option String :=
  let name := String.ofList (text.takeWhile (· ≠ '='))
  match text.dropWhile (· ≠ '=') with
  | [] => (name, none)
  | _ :: value => (name, some (String.ofList value))

def Argument.ofText (text : String) : Argument :=
  match text.toList with
  | ['-'] => .plain text
  | ['-', '-'] => .separator
  | '-' :: '-' :: rest =>
    let (name, value) := splitAtEquals rest
    .long name value
  | '-' :: letters => .short letters
  | _ => .plain text

/-- Reads letters behind a dash, the first of which decides. -/
def readLetters : List Char → Except UsageError Request
  | 'h' :: _ => .ok .help
  | 'V' :: _ => .ok .version
  | letters => .error (.unknownOption (String.ofList letters))

def close (o : Options) : Except UsageError Request :=
  match o.input with
  | some input => .ok (.extract input o)
  | none => .error .missingInput

def parseFrom : List String → Options → Except UsageError Request
  | [], o => close o
  | text :: rest, o =>
    match Argument.ofText text with
    | .separator => (rest.foldlM (fun o text => readInput text o) o).bind close
    | .short letters => readLetters letters
    | .plain text => (readInput text o).bind (parseFrom rest)
    | .long name value =>
      match readOption name value o with
      | .error error => .error error
      | .ok (.asked request) => .ok request
      | .ok (.done o) => parseFrom rest o
      | .ok (.waiting name set o) =>
        match rest with
        | [] => .error (.missingValue name)
        | value :: rest =>
          match Argument.ofText value with
          | .plain value =>
            match set value o with
            | some o => parseFrom rest o
            | none => .error (.invalidValue name value)
          | _ => .error (.missingValue name)

def parse (args : List String) : Except UsageError Request := parseFrom args {}

/-! ## Execution -/

def program : String := "trapgen"

/-- Text for the two outputs and the exit code of a command. -/
structure Outcome where
  output : String := ""
  complaint : String := ""
  exitCode : UInt32 := 0
deriving DecidableEq, Repr, Inhabited

def helpText : String :=
  "Relational fact extractor for typed compiler IR\n\n" ++
  "Usage: trapgen [OPTIONS] <INPUT>\n\n" ++
  "Options:\n" ++
  "      --invocation-trap-file <PATH>\n" ++
  "      --trap-dir <PATH>\n" ++
  "      --source-archive-dir <PATH>\n" ++
  "      --check-trap-identical\n" ++
  "      --exit-after-extraction\n" ++
  "      --compilation-start-ms <MILLISECONDS>\n" ++
  "      --diagnostic-limit <COUNT>\n" ++
  "      --log-level <trace|debug|info|warn|error>\n" ++
  "      --log-json\n" ++
  "  -h, --help\n" ++
  "  -V, --version\n"

/-- What is said of an error. The program speaks under its name, unless it was
stopped where it stood. -/
def complaintOf : RunError → String
  | .extraction (.stopped reason) => "stopped: " ++ (ExtractError.stopped reason).message ++ "\n"
  | error => program ++ ": " ++ error.message ++ "\n"

variable {m : Type → Type} {Handle : Type} [Monad m] [Files m Handle]

/-- Settles the configuration, loads the program, and runs the extraction. -/
def extract (lookup : String → Option String) (now : m Nat) (input : Path) (o : Options) :
    m (Except RunError RunSummary) := do
  match Config.resolve o.overrides lookup with
  | .error error => return .error (.config error)
  | .ok config =>
    match ← Program.load input with
    | .error error => return .error error
    | .ok p => config.run p now

/-- Executes a command line, `lookup` giving the variables of the environment. -/
def execute (lookup : String → Option String) (now : m Nat) (args : List String) : m Outcome := do
  match parse args with
  | .error error => return { complaint := "error: " ++ error.message ++ "\n", exitCode := 2 }
  | .ok .help => return { output := helpText }
  | .ok .version => return { output := program ++ " " ++ Trap.Writer.version ++ "\n" }
  | .ok (.extract input options) =>
    match ← extract lookup now input options with
    | .ok _ => return {}
    | .error error => return { complaint := complaintOf error, exitCode := error.exitCode }

end IrFacts.CommandLine
