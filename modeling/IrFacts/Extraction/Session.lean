import IrFacts.Diagnostics.Counter
import IrFacts.Diagnostics.Problem
import IrFacts.Extraction.ClassQueue
import IrFacts.Output.ClassPath
import IrFacts.Trap.FileWriter

/-!
# Extraction sessions

A session writes one trap. It holds the writer, the counts of diagnostics, the
queue of external classes, and what is known while code is walked: the open
loops, the current function, and the labels of local variables.

An extraction reads the program and changes the session. It ends early only
when its fuel is used up, or when a place in a file without any line is asked
for; whatever else is wrong with a program becomes a diagnostic.
-/

set_option autoImplicit false

namespace IrFacts

/-- What stops an extraction before its end. -/
inductive Stop where
  | outOfFuel
  | noLines
deriving DecidableEq, Repr

structure Session where
  file : Trap.FileWriter
  counter : Counter
  queue : ClassQueue
  /-- The external classes that this trap refers to, in the order of the first
  reference, if they are asked for. -/
  dependencies : Option (List DeclId) := none
  openLoops : List (LoopId × Label) := []
  currentFunction : Option DeclId := none
  locals : List (DeclId × Label) := []
deriving Inhabited

abbrev Extract := ReaderT Program (StateT Session (Except Stop))

namespace Extract

/-! ## Writing -/

def onFile {α : Type} (f : Trap.FileWriter → α × Trap.FileWriter) : Extract α :=
  modifyGet fun s =>
    let (a, file) := f s.file
    (a, { s with file })

def onWriter {α : Type} (f : Trap.Writer → α × Trap.Writer) : Extract α :=
  onFile fun file =>
    let (a, writer) := f file.writer
    (a, { file with writer })

def write (f : Trap.Fact) : Extract Unit := onWriter fun w => ((), w.fact f)

def labelFor (key : String) : Extract Label := onWriter (·.labelFor key)

/-- The label of a key, if it has one. -/
def find? (key : String) : Extract (Option Label) := return (← get).file.writer.labels.find? key

def fresh : Extract Label := onWriter (·.fresh)

/-- The label of a key. When it is new, `define` writes what is to be said of
it, so that this is said once in a trap. -/
def labelWith (key : String) (define : Label → Extract Unit) : Extract Label := do
  match ← onWriter (·.lookup key) with
  | .existing label => return label
  | .created label =>
    define label
    return label

def writeExpr (id : Label) (kind : Trap.ExprKind) (type richType parent : Label) (index : Int) :
    Extract Unit := do
  write (.exprs id kind type parent index)
  write (.exprsKotlinType id richType)

/-! ## Places -/

def wholeFile : Extract Label := onFile (·.wholeFile)

def unknownLocation : Extract Label := onFile (·.unknownLocation)

def location (span : Span) : Extract Label := do
  let s ← get
  match s.file.location? span with
  | some (label, file) =>
    set { s with file }
    return label
  | none => throw .noLines

def locate (entity : Label) (span : Span) : Extract Unit := do
  write (.hasLocation entity (← location span))

/-- Runs an extraction with places attributed to the file that declares a
class: its source file, or its class file when it is external. -/
def inFileOf {α : Type} (id : DeclId) (populate : Bool) (action : Extract α) : Extract α := do
  let p ← read
  let source := if p.isExternal id then none else (p.fileOf? id).bind p.file?
  let saved ← match source with
    | some entry => onFile (·.retarget entry.path (some entry.lines) true)
    | none => onFile (·.retarget (p.binaryPath id) none populate)
  let result ← action
  onFile fun file => ((), file.restore saved)
  return result

/-! ## Problems -/

def reportAt (problem : Problem) (location : Label) : Extract Unit :=
  modify fun s =>
    let (counter, writer) :=
      s.counter.report s.file.writer problem.site problem.severity problem.message location
    { s with counter, file := { s.file with writer } }

def complain (problem : Problem) : Extract Unit := do
  reportAt problem (← unknownLocation)

def complainAt (problem : Problem) (span : Span) : Extract Unit := do
  reportAt problem (← location span)

/-! ## External classes -/

def schedule (id : DeclId) : Extract Unit :=
  modify fun s =>
    { s with
      dependencies := s.dependencies.map fun ids => if id ∈ ids then ids else ids ++ [id]
      queue := (s.queue.schedule id).2 }

def scheduleIfExternal (id : DeclId) : Extract Unit := do
  if (← read).isExternal id then schedule id

end Extract

end IrFacts
