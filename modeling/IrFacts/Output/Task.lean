import IrFacts.Extraction.Session
import IrFacts.Files.Basic
import IrFacts.Json.Node

/-!
# Tasks

A task extracts something into files. It can fail, and what it has learnt
until then is kept: diagnostics stay counted and classes stay scheduled,
whether or not the trap that they were met in is written.
-/

set_option autoImplicit false

namespace IrFacts

/-- Why a document is not one of the model. -/
inductive DocumentError where
  | fault (fault : Json.Fault)
  /-- The file was opened and could not be read. -/
  | unreadable (error : FileError)
deriving DecidableEq, Repr

inductive ExtractError where
  | io (path : Path) (error : FileError)
  | document (error : DocumentError)
  | program (error : ProgramError)
  | notClass (id : DeclId)
  | stopped (stop : Stop)
deriving DecidableEq, Repr

def DocumentError.message : DocumentError → String
  | .fault .malformed => "the text is not JSON"
  | .fault .mismatched => "the JSON does not fit the model"
  | .fault .truncated => "the text ends too early"
  | .unreadable error => error.message

def ExtractError.message : ExtractError → String
  | .io path error => "I/O error on " ++ path.text ++ ": " ++ error.message
  | .document error => "invalid IR document: " ++ error.message
  | .program error => error.message
  | .notClass id => "invalid IR: " ++ id.render ++ " is not a class"
  | .stopped .outOfFuel => "extraction does not end"
  | .stopped .noLines => "a source file has no lines"

structure Progress where
  counter : Counter := {}
  queue : ClassQueue := .empty
  /-- The class traps that were written since the last set. -/
  created : List Path := []
deriving Inhabited

abbrev Task (m : Type → Type) := ExceptT ExtractError (StateT Progress m)

namespace Task

variable {m : Type → Type} {Handle : Type} [Monad m] [Files m Handle]

def io {α : Type} (path : Path) (operation : m (Except FileError α)) : Task m α :=
  ExceptT.mk fun progress => do
    return ((← operation).mapError (.io path), progress)

/-- A file operation whose failure does not matter. -/
def tryIo (operation : m (Except FileError Unit)) : Task m Unit :=
  ExceptT.mk fun progress => do
    let _ ← operation
    return (.ok (), progress)

def ask {α : Type} (question : m α) : Task m α :=
  ExceptT.mk fun progress => do
    return (.ok (← question), progress)

/-- Makes an empty file in a folder and works on it. The file is removed when
the work fails. -/
def withTemporary {α : Type} (folder : Path) (front back : String) (work : Path → Task m α) :
    Task m α := do
  let temporary ← io folder (Files.makeTemporary folder front back)
  tryCatch (work temporary) fun error => do
    tryIo (Files.remove temporary)
    throw error

def writeText (path : Path) (text : String) : Task m Unit :=
  io path (Files.write path text.toUTF8)

/-- Runs an extraction into a trap of its own, which starts with the header.
The counts and the queue go on from what they are. -/
def extracting (p : Program) (file : Trap.FileWriter) (dependencies : Option (List DeclId))
    (extraction : Extract Unit) : Task m Session :=
  ExceptT.mk fun progress =>
    let start : Session :=
      { file, counter := progress.counter, queue := progress.queue, dependencies }
    match (extraction.run p).run start with
    | .error stop => return (.error (.stopped stop), progress)
    | .ok (_, s) => return (.ok s, { progress with counter := s.counter, queue := s.queue })

end Task

end IrFacts
