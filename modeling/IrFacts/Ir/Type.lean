/-!
# Types of a program

A type names its classifier, whether it is nullable, and its arguments. The
front end may also hand over a type that it could not make sense of.
-/

set_option autoImplicit false

namespace IrFacts

/-- The number of a declaration in the declaration table. -/
structure DeclId where
  index : UInt32
deriving DecidableEq, Repr, Inhabited

structure FileId where
  index : UInt32
deriving DecidableEq, Repr, Inhabited

/-- Identifies a loop, for the jumps that leave or repeat it. -/
structure LoopId where
  index : UInt32
deriving DecidableEq, Repr, Inhabited

def DeclId.render (id : DeclId) : String := "d" ++ toString id.index.toNat

def FileId.render (id : FileId) : String := "f" ++ toString id.index.toNat

inductive Classifier where
  | ofClass (id : DeclId)
  | ofTypeParameter (id : DeclId)
deriving DecidableEq, Repr, Inhabited

inductive Variance where
  | invariant
  | covariant
  | contravariant
deriving DecidableEq, Repr, Inhabited

mutual

inductive IrType where
  | simple (type : SimpleType)
  | error (description : String)

structure SimpleType where
  classifier : Classifier
  nullable : Bool := false
  arguments : List TypeArgument := []
  /-- The alias that the type was written as. -/
  abbreviation : Option DeclId := none

inductive TypeArgument where
  | star
  | projection (variance : Variance) (type : IrType)

end

instance : Inhabited IrType := ⟨.error ""⟩

namespace IrType

def ofClass (id : DeclId) (arguments : List TypeArgument) : IrType :=
  .simple { classifier := .ofClass id, arguments }

def ofTypeParameter (id : DeclId) : IrType :=
  .simple { classifier := .ofTypeParameter id }

def simple? : IrType → Option SimpleType
  | .simple s => some s
  | .error _ => none

def isNullable : IrType → Bool
  | .simple s => s.nullable
  | .error _ => false

def withNullability (nullable : Bool) : IrType → IrType
  | .simple s => .simple { s with nullable }
  | .error description => .error description

def makeNullable (t : IrType) : IrType := t.withNullability true

def makeNotNull (t : IrType) : IrType := t.withNullability false

def classId? : IrType → Option DeclId
  | .simple s => match s.classifier with
    | .ofClass id => some id
    | .ofTypeParameter _ => none
  | .error _ => none

end IrType

/-! ## Equality -/

mutual

def IrType.same : IrType → IrType → Bool
  | .simple a, .simple b => a.same b
  | .error a, .error b => a = b
  | _, _ => false

def SimpleType.same : SimpleType → SimpleType → Bool
  | ⟨c, n, as, b⟩, ⟨c', n', as', b'⟩ => c = c' && n = n' && TypeArgument.sameAll as as' && b = b'

def TypeArgument.same : TypeArgument → TypeArgument → Bool
  | .star, .star => true
  | .projection v t, .projection v' t' => v = v' && t.same t'
  | _, _ => false

def TypeArgument.sameAll : List TypeArgument → List TypeArgument → Bool
  | [], [] => true
  | a :: as, b :: bs => a.same b && TypeArgument.sameAll as bs
  | _, _ => false

end

mutual

theorem IrType.same_iff : (a b : IrType) → (a.same b = true ↔ a = b)
  | .simple a, .simple b => by simp [IrType.same, SimpleType.same_iff a b]
  | .error a, .error b => by simp [IrType.same]
  | .simple _, .error _ => by simp [IrType.same]
  | .error _, .simple _ => by simp [IrType.same]

theorem SimpleType.same_iff : (a b : SimpleType) → (a.same b = true ↔ a = b)
  | ⟨_, _, as, _⟩, ⟨_, _, bs, _⟩ => by
    simp [SimpleType.same, TypeArgument.sameAll_iff as bs, and_assoc]

theorem TypeArgument.same_iff : (a b : TypeArgument) → (a.same b = true ↔ a = b)
  | .star, .star => by simp [TypeArgument.same]
  | .projection _ t, .projection _ u => by simp [TypeArgument.same, IrType.same_iff t u]
  | .star, .projection _ _ => by simp [TypeArgument.same]
  | .projection _ _, .star => by simp [TypeArgument.same]

theorem TypeArgument.sameAll_iff :
    (as bs : List TypeArgument) → (TypeArgument.sameAll as bs = true ↔ as = bs)
  | [], [] => by simp [TypeArgument.sameAll]
  | a :: as, b :: bs => by
    simp [TypeArgument.sameAll, TypeArgument.same_iff a b, TypeArgument.sameAll_iff as bs]
  | [], _ :: _ => by simp [TypeArgument.sameAll]
  | _ :: _, [] => by simp [TypeArgument.sameAll]

end

instance : DecidableEq IrType := fun a b => decidable_of_iff _ (IrType.same_iff a b)

instance : DecidableEq SimpleType := fun a b => decidable_of_iff _ (SimpleType.same_iff a b)

instance : DecidableEq TypeArgument := fun a b => decidable_of_iff _ (TypeArgument.same_iff a b)

/-! ## Size -/

mutual

def IrType.nodes : IrType → Nat
  | .simple s => s.nodes + 1
  | .error _ => 1

def SimpleType.nodes : SimpleType → Nat
  | ⟨_, _, arguments, _⟩ => TypeArgument.nodesOfAll arguments + 1

def TypeArgument.nodes : TypeArgument → Nat
  | .star => 1
  | .projection _ type => type.nodes + 1

def TypeArgument.nodesOfAll : List TypeArgument → Nat
  | [] => 0
  | a :: rest => a.nodes + TypeArgument.nodesOfAll rest

end

def IrType.nodesOfAll : List IrType → Nat
  | [] => 0
  | t :: rest => t.nodes + IrType.nodesOfAll rest

end IrFacts
