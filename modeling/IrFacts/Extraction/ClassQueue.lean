import IrFacts.Ir.Type

/-!
# The queue of external classes

Classes from outside of the program that wait for an extraction of their own.
A class is accepted once in the life of a queue.
-/

set_option autoImplicit false

namespace IrFacts

structure ClassQueue where
  /-- Every class that was ever accepted, the latest first. -/
  accepted : List DeclId := []
  /-- Those of them that wait, the latest first. -/
  waiting : List DeclId := []
deriving Repr, Inhabited

namespace ClassQueue

def empty : ClassQueue := {}

/-- Accepts a class, unless it was accepted before. -/
def schedule (q : ClassQueue) (id : DeclId) : Bool × ClassQueue :=
  if id ∈ q.accepted then (false, q)
  else (true, { accepted := id :: q.accepted, waiting := id :: q.waiting })

/-- The classes that wait, in the order in which they were accepted. -/
def batch (q : ClassQueue) : List DeclId := q.waiting.reverse

def takeBatch (q : ClassQueue) : List DeclId × ClassQueue := (q.batch, { q with waiting := [] })

def isEmpty (q : ClassQueue) : Bool := q.waiting.isEmpty

def count (q : ClassQueue) : Nat := q.accepted.length

end ClassQueue

end IrFacts
