/-!
# Labels of one fact store

A label names an entity inside one store. Numbers are handed out from
`LabelTable.first` on; a keyed label is bound to its key once and found
again under it, so the table is the store's memory of what it has named.
-/

set_option autoImplicit false

namespace IrFacts

inductive Label where
  | number (n : Nat)
  | named (name : String)
  | star
deriving DecidableEq, Repr, Inhabited

namespace Label

def render : Label → String
  | .number n => "#" ++ toString n
  | .named name => "#" ++ name
  | .star => "*"

/-- What stands in for an entity that could not be resolved. No table hands
it out, because `LabelTable.first` is larger. -/
def placeholder : Label := .number 0

def isPlaceholder (l : Label) : Bool := l = placeholder

def braced (l : Label) : String := "\x7b" ++ l.render ++ "\x7d"

end Label

inductive Lookup where
  /-- The key was bound before. -/
  | existing (label : Label)
  /-- The key is bound to a new label, whose definition is still unwritten. -/
  | created (label : Label)
deriving DecidableEq, Repr

namespace Lookup

def label : Lookup → Label
  | .existing l => l
  | .created l => l

def isCreated : Lookup → Bool
  | .existing _ => false
  | .created _ => true

end Lookup

/-- The labels of one store: the next free number, and the bound keys with
the latest binding first. -/
structure LabelTable where
  next : Nat
  bound : List (String × Label)
deriving Repr

namespace LabelTable

def first : Nat := 100

def empty : LabelTable := { next := first, bound := [] }

instance : Inhabited LabelTable := ⟨empty⟩

def find? (t : LabelTable) (key : String) : Option Label := t.bound.lookup key

def fresh (t : LabelTable) : Label × LabelTable :=
  (.number t.next, { t with next := t.next + 1 })

def lookup (t : LabelTable) (key : String) : Lookup × LabelTable :=
  match t.find? key with
  | some label => (.existing label, t)
  | none =>
    (.created (.number t.next),
      { next := t.next + 1, bound := (key, .number t.next) :: t.bound })

def keyCount (t : LabelTable) : Nat := t.bound.length

theorem find?_lookup (t : LabelTable) (key : String) :
    (t.lookup key).2.find? key = some (t.lookup key).1.label := by
  unfold lookup
  split
  · next label h => simp [Lookup.label, h]
  · simp [find?, Lookup.label]

theorem find?_lookup_of_ne (t : LabelTable) {key other : String} (h : other ≠ key) :
    (t.lookup key).2.find? other = t.find? other := by
  unfold lookup
  split
  · rfl
  · have : (other == key) = false := by simp [h]
    simp [find?, List.lookup_cons, this]

end LabelTable

end IrFacts
