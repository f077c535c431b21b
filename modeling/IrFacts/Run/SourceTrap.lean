import IrFacts.Output.Drain
import IrFacts.Run.Config
import IrFacts.Trap.Equivalence

/-!
# The trap of a source file

A source file is copied into the archive and extracted into a temporary file,
the external classes that it refers to are extracted into traps of their own,
and then the temporary file takes its place. A trap that stands there already
is never touched: it is left alone, or compared with the new one, which is
kept beside it if it differs.
-/

set_option autoImplicit false

namespace IrFacts

inductive TrapOutcome where
  | written
  /-- There was a trap, and it was left alone. -/
  | kept
  /-- There was an equivalent trap. -/
  | identical
  /-- There was another trap. The new one is at `path`. -/
  | different (path : Path)
deriving DecidableEq, Repr

namespace Config

def destination (config : Config) : Destination :=
  ⟨config.trapDir, config.invocationTrap.text⟩

def sourceTrap (config : Config) (source : String) : Path :=
  (config.trapDir.join (Path.relativeToRoot source)).withSuffix ".trap"

def archived (config : Config) (source : String) : Path :=
  config.sourceArchiveDir.join (Path.relativeToRoot source)

end Config

namespace SourceTrap

variable {m : Type → Type} {Handle : Type} [Monad m] [Files m Handle]

/-- Works on a temporary file beside `path`, whose name starts with its. -/
def withTemporaryBeside {α : Type} (path : Path) (back : String) (work : Path → Task m α) :
    Task m α :=
  Task.withTemporary path.directory (path.fileName?.getD "" ++ ".") back work

/-- Copies a source file into the archive, if it can be read. -/
def archive (config : Config) (source : String) : Task m Unit := do
  match ← Task.ask (Files.read ⟨source⟩) with
  | .error _ => pure ()
  | .ok contents =>
    let target := config.archived source
    Task.io target.directory (Files.makeFolders target.directory)
    withTemporaryBeside target ".tmp" fun temporary => do
      Task.io temporary (Files.write temporary contents)
      Task.io target (Files.rename temporary target)

def extract (config : Config) (p : Program) (file : FileId) (entry : FileEntry)
    (temporary : Path) : Task m Unit := do
  let writer := (Trap.Writer.ofSink .unbounded).header config.invocationTrap.text
  let s ← Task.extracting p (Trap.FileWriter.source writer entry.path entry.lines) none
    (p.walk.extractFile file)
  Task.writeText temporary s.file.writer.text

def compare (temporary trap : Path) : Task m Bool := do
  let a ← Task.io trap (Files.read temporary)
  let b ← Task.io trap (Files.read trap)
  match Trap.equivalent a.toList b.toList with
  | .ok same => return same
  | .error .invalidText => throw (.io trap .notText)

/-- Moves a finished trap to its place or, if there is one already, compares
the two. -/
def settle (config : Config) (temporary trap : Path) : Task m TrapOutcome := do
  if config.checkTrapIdentical && (← Task.ask (Files.present trap)) then
    if ← compare temporary trap then
      Task.tryIo (Files.remove temporary)
      return .identical
    else
      let different ← Task.io trap.directory
        (Files.makeTemporary trap.directory (trap.fileName?.getD "" ++ ".") ".trap.different")
      Task.io different (Files.rename temporary different)
      return .different different
  else
    Task.io trap (Files.rename temporary trap)
    return .written

/-- Extracts a source file and the external classes that it refers to. -/
def make (config : Config) (p : Program) (file : FileId) (entry : FileEntry) :
    Task m (TrapOutcome × DrainSummary) := do
  archive config entry.path
  let trap := config.sourceTrap entry.path
  if !config.checkTrapIdentical && (← Task.ask (Files.present trap)) then
    return (.kept, {})
  else
    Task.io trap.directory (Files.makeFolders trap.directory)
    withTemporaryBeside trap ".trap.tmp" fun temporary => do
      extract config p file entry temporary
      let drained ← config.destination.drain p
      let _ ← config.destination.writeSet entry.path
      return (← settle config temporary trap, drained)

end SourceTrap

end IrFacts
