import IrFacts.Run.Error
import IrFacts.Run.SourceTrap

/-!
# Runs

A run extracts every source file of a program, one after the other. Facts
about the run itself, and what became of each file, are appended to the
invocation trap. A file that fails does not keep the others from being
extracted; only the invocation trap can make a run fail.
-/

set_option autoImplicit false

namespace IrFacts

inductive FileResult where
  | ok
  /-- The trap was written, and errors were reported in it. -/
  | recoverableErrors
  | failed
deriving DecidableEq, Repr

def FileResult.code : FileResult → Nat
  | .ok => 0
  | .recoverableErrors => 1
  | .failed => 2

structure FileReport where
  path : String
  result : FileResult
  /-- What became of the trap, unless the file failed. -/
  outcome : Option TrapOutcome
  external : DrainSummary
deriving DecidableEq, Repr

/-- The reports of a run, one for each source file, in their order. -/
structure RunSummary where
  files : List FileReport
deriving DecidableEq, Repr

def RunSummary.failedFiles (s : RunSummary) : Nat :=
  (s.files.filter fun report => report.result = .failed).length

structure Run where
  /-- The lines for the invocation trap. -/
  writer : Trap.Writer
  counter : Counter
  /-- The reports, the latest first. -/
  reports : List FileReport := []
deriving Inhabited

namespace Run

def compilation : Label := .named "compilation"

def noTime : Float := -1.0

def start (config : Config) : Run :=
  let writer := (Trap.Writer.ofSink .unbounded).header config.invocationTrap.text
  { writer := writer.fact (.compilationStarted compilation)
    counter := { limit := config.diagnosticLimit } }

def beginFile (r : Run) (index : Nat) (path : String) : Run :=
  let (label, writer) := r.writer.sourceFile path
  { r with writer := writer.fact (.compilationCompilingFiles compilation index label) }

def endFile (r : Run) (index : Nat) (report : FileReport) : Run :=
  { r with
    writer := r.writer.fact
      (.compilationCompilingFilesCompleted compilation index report.result.code)
    reports := report :: r.reports }

/-- The report on a file, when so many errors had been counted before it. -/
def report (path : String) (errorsBefore errorsAfter : Nat) :
    Except ExtractError (TrapOutcome × DrainSummary) → FileReport
  | .ok (outcome, external) =>
    { path, external, outcome := some outcome
      result := if errorsBefore < errorsAfter then .recoverableErrors else .ok }
  | .error _ => { path, result := .failed, outcome := none, external := {} }

/-- Writes how long the run took and which diagnostics were left out. -/
def finish (r : Run) (elapsed : Float) : Trap.Writer :=
  let writer := r.writer.fact (.compilationCompilerTimes compilation noTime elapsed)
  (r.counter.summarize writer).fact (.compilationFinished compilation noTime elapsed)

def nanosPerSecond : Nat := 1000000000

def nanosPerMilli : Nat := 1000000

def seconds (nanos : Nat) : Float :=
  Float.ofNat (nanos / nanosPerSecond) + Float.ofNat (nanos % nanosPerSecond) / 1e9

/-- The seconds until `now` from the start of the compilation or, if that is
not known, of the run. A start in the future is as good as one now. -/
def elapsed (config : Config) (begun now : Nat) : Float :=
  match config.compilationStartMs with
  | some start => seconds (now - start * nanosPerMilli)
  | none => seconds (now - begun)

variable {m : Type → Type} {Handle : Type} [Monad m] [Files m Handle]

def file (config : Config) (p : Program) (index : Nat) (id : FileId) (entry : FileEntry)
    (r : Run) : m (Option Stop × Run) := do
  let r := r.beginFile index entry.path
  let (outcome, progress) ← (SourceTrap.make config p id entry).run.run { counter := r.counter }
  match outcome with
  | .error (.stopped stop) => return (some stop, r)
  | outcome =>
    let done := report entry.path r.counter.errors progress.counter.errors outcome
    return (none, { r with counter := progress.counter }.endFile index done)

/-- Extracts files, until one stops the run. -/
def files (config : Config) (p : Program) : List (Nat × FileId) → Run → m (Option Stop × Run)
  | [], r => return (none, r)
  | (index, id) :: rest, r => do
    match p.file? id with
    | none => files config p rest r
    | some entry =>
      match ← file config p index id entry r with
      | (some stop, r) => return (some stop, r)
      | (none, r) => files config p rest r

end Run

variable {m : Type → Type} {Handle : Type} [Monad m] [Files m Handle]

/-- Runs an extraction. `now` tells the time in nanoseconds since the epoch. -/
def Config.run (config : Config) (p : Program) (now : m Nat) : m (Except RunError RunSummary) := do
  let begun ← now
  match ← Files.openAppend config.invocationTrap with
  | .error error => return .error (.io config.invocationTrap error)
  | .ok handle =>
    let indexed := (List.range p.fileIds.length).zip p.fileIds
    match ← Run.files config p indexed (Run.start config) with
    | (some stop, r) =>
      let _ ← Files.append handle r.writer.text.toUTF8
      return .error (.extraction (.stopped stop))
    | (none, r) =>
      let writer := r.finish (Run.elapsed config begun (← now))
      match ← Files.append handle writer.text.toUTF8 with
      | .error error => return .error (.io config.invocationTrap error)
      | .ok () => return .ok ⟨r.reports.reverse⟩

end IrFacts
