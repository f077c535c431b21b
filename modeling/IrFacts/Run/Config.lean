import IrFacts.Text.Blank
import IrFacts.Text.Natural
import IrFacts.Text.Path

/-!
# Configuration

What a run is told: values of the command line come first, then those of the
environment, then defaults. An empty variable counts as unset.
-/

set_option autoImplicit false

namespace IrFacts

structure Config where
  /-- The trap that facts about the run itself are appended to. -/
  invocationTrap : Path
  trapDir : Path
  sourceArchiveDir : Path
  /-- Compare traps with those that exist, instead of leaving files with a
  trap alone. -/
  checkTrapIdentical : Bool
  exitAfterExtraction : Bool
  /-- When the compilation started, in milliseconds since the epoch. -/
  compilationStartMs : Option Nat
  diagnosticLimit : Nat
deriving DecidableEq, Repr

structure Overrides where
  invocationTrap : Option Path := none
  trapDir : Option Path := none
  sourceArchiveDir : Option Path := none
  checkTrapIdentical : Bool := false
  exitAfterExtraction : Bool := false
  compilationStartMs : Option Nat := none
  diagnosticLimit : Option Nat := none
deriving DecidableEq, Repr, Inhabited

inductive ConfigError where
  | missingInvocationTrap
  | invalid (message : String)
deriving DecidableEq, Repr

def ConfigError.message : ConfigError → String
  | .missingInvocationTrap => "no invocation trap file specified"
  | .invalid message => "invalid configuration: " ++ message

namespace Config

def trapDirVariable : String := "CODEQL_EXTRACTOR_JAVA_TRAP_DIR"

def sourceArchiveDirVariable : String := "CODEQL_EXTRACTOR_JAVA_SOURCE_ARCHIVE_DIR"

def diagnosticLimitVariable : String := "CODEQL_EXTRACTOR_KOTLIN_DIAGNOSTIC_LIMIT"

def defaultTrapDir : Path := ⟨"kotlin-extractor/trap"⟩

def defaultSourceArchiveDir : Path := ⟨"kotlin-extractor/src"⟩

def defaultDiagnosticLimit : Nat := 100

def readLimit (value : String) : Except ConfigError Nat :=
  match Text.readNatural UInt32.size (Text.trim value.toList) with
  | some limit => .ok limit
  | none => .error (.invalid (diagnosticLimitVariable ++ " is not a number: " ++ value))

/-- Settles a configuration, `lookup` giving the variables that are set. -/
def resolve (overrides : Overrides) (lookup : String → Option String) :
    Except ConfigError Config := do
  let setting? (name : String) : Option String := (lookup name).filter (· ≠ "")
  let some invocationTrap := overrides.invocationTrap | throw .missingInvocationTrap
  let trapDir := (overrides.trapDir <|> (setting? trapDirVariable).map Path.mk).getD defaultTrapDir
  let sourceArchiveDir :=
    (overrides.sourceArchiveDir <|> (setting? sourceArchiveDirVariable).map Path.mk).getD
      defaultSourceArchiveDir
  let diagnosticLimit ← match overrides.diagnosticLimit, setting? diagnosticLimitVariable with
    | some limit, _ => pure limit
    | none, some value => readLimit value
    | none, none => pure defaultDiagnosticLimit
  return {
    invocationTrap
    trapDir
    sourceArchiveDir
    checkTrapIdentical := overrides.checkTrapIdentical
    exitAfterExtraction := overrides.exitAfterExtraction
    compilationStartMs := overrides.compilationStartMs
    diagnosticLimit }

end Config

end IrFacts
