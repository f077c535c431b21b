import IrFacts.Output.Task
import IrFacts.Run.Config

/-!
# Errors of a run

What ends a run, and the exit code that tells of it: 2 for the configuration,
3 for the document, 4 for files, 10 for anything else in an extraction.
-/

set_option autoImplicit false

namespace IrFacts

inductive RunError where
  | config (error : ConfigError)
  /-- The document at `path` is no program. -/
  | input (path : Path) (error : ExtractError)
  | io (path : Path) (error : FileError)
  | extraction (error : ExtractError)
deriving DecidableEq, Repr

namespace RunError

def message : RunError → String
  | .config error => error.message
  | .input path error => "failed to load IR from " ++ path.text ++ ": " ++ error.message
  | .io path error => "I/O error on " ++ path.text ++ ": " ++ error.message
  | .extraction error => error.message

def exitCode : RunError → UInt32
  | .config _ => 2
  | .input _ _ => 3
  | .io _ _ => 4
  | .extraction (.io _ _) => 4
  | .extraction (.stopped .noLines) => 101
  | .extraction _ => 10

end RunError

end IrFacts
