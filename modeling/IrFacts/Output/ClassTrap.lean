import IrFacts.Extraction.Declarations
import IrFacts.Output.Fingerprint
import IrFacts.Output.Task
import IrFacts.Text.Blank

/-!
# Class traps

The trap of one class, with two sidecars: the traps that it refers to, and the
fingerprint of the class that it was written for. A trap whose metadata hold
the fingerprint of its class is up to date; one with other metadata is removed
before it is written again. The metadata are written last, so that they do not
vouch for a trap that is not complete.
-/

set_option autoImplicit false

namespace IrFacts

/-- Where the traps of a run go, and the run that their headers name. -/
structure Destination where
  trapDir : Path
  invocation : String
deriving DecidableEq, Repr, Inhabited

structure ClassTrap where
  id : DeclId
  trap : Path
  dependencies : Path
  metadata : Path
  fingerprint : String
  /-- The class file that places in the trap are attributed to. -/
  binaryPath : String
deriving DecidableEq, Repr

inductive ClassPlan where
  | upToDate
  | write (trap : ClassTrap)
deriving DecidableEq, Repr

namespace ClassTrap

/-- The metadata of a trap, without the newline at their end. -/
def metadataOf (fingerprint : String) : String := "fingerprint," ++ fingerprint

/-- Whether metadata hold the fingerprint. Blanks at the end do not count. -/
def vouches (contents fingerprint : String) : Bool :=
  Text.trimEnd contents.toList = (metadataOf fingerprint).toList

def ofClass (d : Destination) (p : Program) (id : DeclId) : Except ExtractError ClassTrap :=
  match p.binaryName? id with
  | none => .error (.notClass id)
  | some name =>
    match p.fingerprint id with
    | .error error => .error (.program error)
    | .ok fingerprint =>
      let trap := d.trapDir.join (ClassPath.ofBinaryName name)
      .ok {
        id, trap, fingerprint
        dependencies := ClassPath.dependencies trap
        metadata := ClassPath.metadata trap
        binaryPath := p.binaryPath id }

/-- The writer of a class trap, which has written what the trap starts with. -/
def writer (t : ClassTrap) (invocation : String) : Trap.FileWriter :=
  Trap.FileWriter.classFile ((Trap.Writer.ofSink .unbounded).header invocation) t.binaryPath

/-- The list of the traps that the classes `ids` have, one on a line. -/
def dependencyLines (t : ClassTrap) (p : Program) (ids : List DeclId) : String :=
  String.join <| ids.filterMap fun id =>
    if id = t.id then none
    else (p.binaryName? id).map fun name => (ClassPath.ofBinaryName name).text ++ "\n"

variable {m : Type → Type} {Handle : Type} [Monad m] [Files m Handle]

/-- The metadata of a trap, if there are any. -/
def readMetadata (t : ClassTrap) : Task m (Option String) := do
  match ← Task.ask (Files.read t.metadata) with
  | .error .notFound => return none
  | .error error => throw (.io t.metadata error)
  | .ok bytes =>
    match String.fromUTF8? bytes with
    | some text => return some text
    | none => throw (.io t.metadata .notText)

def discard (t : ClassTrap) : Task m Unit :=
  [t.trap, t.dependencies, t.metadata].forM fun path =>
    Task.io path (Files.removeIfPresent path)

/-- Finds out whether a class needs a new trap, and removes one that is out of
date. -/
def plan (d : Destination) (p : Program) (id : DeclId) : Task m ClassPlan := do
  let t ← ExceptT.mk (pure (ofClass d p id))
  if ← Task.ask (Files.present t.trap) then
    match ← t.readMetadata with
    | none => return .write t
    | some contents =>
      if vouches contents t.fingerprint then return .upToDate
      else
        t.discard
        return .write t
  else return .write t

/-- Extracts a class into a temporary file and moves it to its place. Tells
which external classes the trap refers to. -/
def extract (t : ClassTrap) (d : Destination) (p : Program) : Task m (List DeclId) := do
  let some folder := t.trap.parent? | throw (.io t.trap .notFolder)
  Task.io folder (Files.makeFolders folder)
  Task.withTemporary folder "." ".trap.gz.tmp" fun temporary => do
    let s ← Task.extracting p (t.writer d.invocation) (some []) do
      let _ ← p.walk.classDeclaration t.id
    Task.writeText temporary s.file.writer.text
    Task.io t.trap (Files.rename temporary t.trap)
    return s.dependencies.getD []

def replaceSidecar (path : Path) (contents : String) : Task m Unit :=
  Task.io path (Files.replace path.directory path "." ".tmp" contents.toUTF8)

def commit (t : ClassTrap) (p : Program) (dependencies : List DeclId) : Task m Unit := do
  replaceSidecar t.dependencies (t.dependencyLines p dependencies)
  replaceSidecar t.metadata (metadataOf t.fingerprint ++ "\n")
  modify fun progress => { progress with created := progress.created ++ [t.trap] }

end ClassTrap

end IrFacts
