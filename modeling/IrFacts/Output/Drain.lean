import IrFacts.Output.ClassTrap

/-!
# Draining the queue

Every class in the queue is extracted into its trap. That may schedule more
classes, which form the next batch, until none is left. A class that fails is
counted and skipped.

A class is accepted by a queue once, and only declarations of the program are
scheduled on the way. So there are at most as many batches as declarations,
after the first one.
-/

set_option autoImplicit false

namespace IrFacts

structure DrainSummary where
  extracted : Nat := 0
  upToDate : Nat := 0
  failed : Nat := 0
  batches : Nat := 0
deriving DecidableEq, Repr, Inhabited

namespace Destination

variable {m : Type → Type} {Handle : Type} [Monad m] [Files m Handle]

/-- Brings the trap of a class up to date. Tells whether it was written. -/
def extractClass (d : Destination) (p : Program) (id : DeclId) : Task m Bool := do
  match ← ClassTrap.plan d p id with
  | .upToDate => return false
  | .write t =>
    let dependencies ← t.extract d p
    t.commit p dependencies
    return true

def drainClass (d : Destination) (p : Program) (s : DrainSummary) (id : DeclId) :
    Task m DrainSummary :=
  tryCatch
    (do
      if ← d.extractClass p id then return { s with extracted := s.extracted + 1 }
      else return { s with upToDate := s.upToDate + 1 })
    fun error => match error with
      | .stopped stop => throw (.stopped stop)
      | _ => return { s with failed := s.failed + 1 }

def takeBatch : Task m (List DeclId) :=
  modifyGet fun progress =>
    let (batch, queue) := progress.queue.takeBatch
    (batch, { progress with queue })

def drainWithin (d : Destination) (p : Program) : Nat → DrainSummary → Task m DrainSummary
  | 0, _ => throw (.stopped .outOfFuel)
  | fuel + 1, s => do
    let batch ← takeBatch
    if batch.isEmpty then return s
    else
      let s ← batch.foldlM (d.drainClass p) { s with batches := s.batches + 1 }
      d.drainWithin p fuel s

/-- Extracts scheduled classes until none is left. -/
def drain (d : Destination) (p : Program) : Task m DrainSummary :=
  d.drainWithin p (p.declarations.size + 2) {}

def setPath (d : Destination) (source : String) : Path :=
  (d.trapDir.join (Path.relativeToRoot source)).withSuffix ".set"

/-- Writes down which class traps were written since the last set. -/
def writeSet (d : Destination) (source : String) : Task m Path := do
  let path := d.setPath source
  let created := (← get).created
  modify fun progress => { progress with created := [] }
  match path.parent? with
  | some folder => Task.io folder (Files.makeFolders folder)
  | none => pure ()
  let contents := String.join (created.map fun trap => trap.text ++ "\n")
  Task.io path (Files.replace path.directory path "." ".tmp" contents.toUTF8)
  return path

end Destination

end IrFacts
