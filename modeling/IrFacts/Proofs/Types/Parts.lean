import IrFacts.Proofs.Program.ClassIndex
import IrFacts.Types.Erasure

/-!
# Parts of types

The parts of a type are the simple types that it is written with, itself
included. What is worked out from a type by taking array levels off or by
erasure has parts that are known beforehand.
-/

set_option autoImplicit false

namespace IrFacts

mutual

def IrType.parts : IrType → List SimpleType
  | .simple s => s.parts
  | .error _ => []

def SimpleType.parts : SimpleType → List SimpleType
  | ⟨classifier, nullable, arguments, abbreviation⟩ =>
    ⟨classifier, nullable, arguments, abbreviation⟩ :: TypeArgument.partsOfAll arguments

def TypeArgument.parts : TypeArgument → List SimpleType
  | .star => []
  | .projection _ type => type.parts

def TypeArgument.partsOfAll : List TypeArgument → List SimpleType
  | [] => []
  | a :: rest => a.parts ++ TypeArgument.partsOfAll rest

end

def IrType.Ground (t : IrType) : Prop := ∀ w ∈ t.parts, ∃ id, w.classifier = .ofClass id

theorem IrType.eq_of_classId? {type : IrType} {id : DeclId} {u : SimpleType}
    (hid : type.classId? = some id) (hu : type.simple? = some u) :
    type = .simple u ∧ u.classifier = .ofClass id := by
  cases type with
  | error description => cases hu
  | simple x =>
    cases hu
    rw [classId?] at hid
    split at hid
    · next he =>
      cases hid
      exact ⟨rfl, he⟩
    · cases hid

/-- The same type, which may be null. -/
def SimpleType.orNull (s : SimpleType) : SimpleType := { s with nullable := true }

theorem SimpleType.orNull_orNull (s : SimpleType) : s.orNull.orNull = s.orNull := rfl

theorem TypeArgument.mem_partsOfAll {arguments : List TypeArgument} {w : SimpleType} :
    w ∈ TypeArgument.partsOfAll arguments ↔ ∃ a ∈ arguments, w ∈ a.parts := by
  induction arguments with
  | nil => simp [TypeArgument.partsOfAll]
  | cons a rest ih => simp [TypeArgument.partsOfAll, ih]

theorem SimpleType.mem_parts {s w : SimpleType} :
    w ∈ s.parts ↔ w = s ∨ ∃ a ∈ s.arguments, w ∈ a.parts := by
  obtain ⟨classifier, nullable, arguments, abbreviation⟩ := s
  simp [SimpleType.parts, TypeArgument.mem_partsOfAll]

theorem SimpleType.self_mem_parts (s : SimpleType) : s ∈ s.parts :=
  SimpleType.mem_parts.mpr (.inl rfl)

theorem SimpleType.parts_orNull {s w : SimpleType} (h : w ∈ s.orNull.parts) :
    w = s.orNull ∨ w ∈ s.parts :=
  (SimpleType.mem_parts.mp h).imp_right fun hw => SimpleType.mem_parts.mpr (.inr hw)

mutual

theorem IrType.parts_trans {v w : SimpleType} :
    (t : IrType) → w ∈ t.parts → v ∈ w.parts → v ∈ t.parts
  | .simple s, hw, hv => SimpleType.parts_trans s hw hv
  | .error _, hw, _ => nomatch hw

theorem SimpleType.parts_trans {v w : SimpleType} :
    (s : SimpleType) → w ∈ s.parts → v ∈ w.parts → v ∈ s.parts
  | ⟨_, _, arguments, _⟩, hw, hv => by
    rcases List.mem_cons.mp hw with rfl | hw
    · exact hv
    · exact List.mem_cons_of_mem _ (TypeArgument.partsOfAll_trans arguments hw hv)

theorem TypeArgument.parts_trans {v w : SimpleType} :
    (a : TypeArgument) → w ∈ a.parts → v ∈ w.parts → v ∈ a.parts
  | .star, hw, _ => nomatch hw
  | .projection _ type, hw, hv => IrType.parts_trans type hw hv

theorem TypeArgument.partsOfAll_trans {v w : SimpleType} :
    (arguments : List TypeArgument) → w ∈ TypeArgument.partsOfAll arguments → v ∈ w.parts →
      v ∈ TypeArgument.partsOfAll arguments
  | [], hw, _ => nomatch hw
  | a :: rest, hw, hv => by
    rcases List.mem_append.mp hw with hw | hw
    · exact List.mem_append_left _ (TypeArgument.parts_trans a hw hv)
    · exact List.mem_append_right _ (TypeArgument.partsOfAll_trans rest hw hv)

end

/-- A property that a type has if the types in its arguments have it. -/
def SimpleType.Inherits (P : SimpleType → Prop) : Prop :=
  ∀ s, (∀ a ∈ s.arguments, ∀ w ∈ a.parts, P w) → P s

mutual

theorem IrType.forall_parts {P : SimpleType → Prop} (h : SimpleType.Inherits P) :
    (t : IrType) → ∀ w ∈ t.parts, P w
  | .simple s => SimpleType.forall_parts h s
  | .error _ => nofun

theorem SimpleType.forall_parts {P : SimpleType → Prop} (h : SimpleType.Inherits P) :
    (s : SimpleType) → ∀ w ∈ s.parts, P w
  | ⟨_, _, arguments, _⟩ => by
    have hall := TypeArgument.forall_partsOfAll h arguments
    refine List.forall_mem_cons.mpr ⟨h _ fun a ha w hw => hall w ?_, hall⟩
    exact TypeArgument.mem_partsOfAll.mpr ⟨a, ha, hw⟩

theorem TypeArgument.forall_parts {P : SimpleType → Prop} (h : SimpleType.Inherits P) :
    (a : TypeArgument) → ∀ w ∈ a.parts, P w
  | .star => nofun
  | .projection _ type => IrType.forall_parts h type

theorem TypeArgument.forall_partsOfAll {P : SimpleType → Prop} (h : SimpleType.Inherits P) :
    (arguments : List TypeArgument) → ∀ w ∈ TypeArgument.partsOfAll arguments, P w
  | [] => nofun
  | a :: rest => List.forall_mem_append.mpr
      ⟨TypeArgument.forall_parts h a, TypeArgument.forall_partsOfAll h rest⟩

end

theorem SimpleType.Inherits.holds {P : SimpleType → Prop} (h : SimpleType.Inherits P)
    (s : SimpleType) : P s :=
  SimpleType.forall_parts h s s s.self_mem_parts

namespace Program

variable {p : Program}

theorem arrayShape?_orNull (s : SimpleType) : p.arrayShape? s.orNull = p.arrayShape? s := rfl

theorem builtinType_cases (p : Program) (name : String) :
    (∃ id, p.builtin? name = some id ∧ p.builtinType name = .simple { classifier := .ofClass id }) ∨
      ∃ description, p.builtinType name = .error description := by
  unfold builtinType
  cases p.builtin? name with
  | none => exact .inr ⟨_, rfl⟩
  | some id => exact .inl ⟨id, rfl, rfl⟩

theorem parts_builtinType {name : String} {w : SimpleType} (h : w ∈ (p.builtinType name).parts) :
    ∃ id, p.builtin? name = some id ∧ w = { classifier := .ofClass id } := by
  obtain ⟨id, hid, htype⟩ | ⟨description, htype⟩ := p.builtinType_cases name <;> rw [htype] at h
  · exact ⟨id, hid, List.mem_singleton.mp h⟩
  · cases h

theorem parts_topType {w : SimpleType} (h : w ∈ p.topType.parts) :
    ∃ id, p.builtin? "Any" = some id ∧ w = { classifier := .ofClass id, nullable := true } := by
  unfold topType at h
  obtain ⟨id, hid, htype⟩ | ⟨description, htype⟩ := p.builtinType_cases "Any" <;> rw [htype] at h
  · exact ⟨id, hid, List.mem_singleton.mp h⟩
  · cases h

theorem ground_topType : p.topType.Ground := by
  intro w hw
  obtain ⟨id, -, rfl⟩ := parts_topType hw
  exact ⟨id, rfl⟩

/-! ## Array levels -/

theorem shapeOfClass?_eq_boxed_iff {id : DeclId} :
    p.shapeOfClass? id = some .boxed ↔ p.fqName? id = some Builtins.boxedArray := by
  unfold shapeOfClass?
  cases p.fqName? id with
  | none => simp
  | some name => by_cases hname : name = Builtins.boxedArray <;> simp [hname]

theorem isSome_arrayShape? {s : SimpleType} (h : p.isArray s = true) :
    (p.arrayShape? s).isSome := by
  rw [isArray] at h
  cases hshape : p.arrayShape? s with
  | none => simp [hshape] at h
  | some shape => rfl

theorem elementOf_of {P : IrType → Prop} {arguments : List TypeArgument}
    (hargument : ∀ variance type, .projection variance type ∈ arguments → P type)
    (htop : P p.topType) : P (p.elementOf arguments) := by
  unfold elementOf
  split
  · exact hargument _ _ (List.mem_cons_self ..)
  · exact htop

theorem arrayElement_of {P : IrType → Prop} {s : SimpleType}
    (hargument : ∀ variance type, .projection variance type ∈ s.arguments → P type)
    (hbuiltin : ∀ element, p.arrayShape? s = some (.primitive element) → P (p.builtinType element))
    (htop : P p.topType) : P (p.arrayElement s) := by
  unfold arrayElement
  split
  · next element hshape => exact hbuiltin element hshape
  · exact elementOf_of hargument htop

theorem arrayCore_of {P : IrType → Prop} {t : IrType} (ht : P t)
    (hargument : ∀ s variance type, P (.simple s) →
      .projection variance type ∈ s.arguments → P type)
    (hbuiltin : ∀ s element, p.arrayShape? s = some (.primitive element) →
      P (p.builtinType element))
    (htop : P p.topType) : P (p.arrayCore t).element := by
  fun_induction p.arrayCore t with
  | case1 description => exact ht
  | case2 classifier nullable arguments abbreviation s hshape => exact ht
  | case3 classifier nullable arguments abbreviation s element hshape =>
    exact hbuiltin s element hshape
  | case4 classifier nullable abbreviation variance type rest _ s hshape ih =>
    exact ih (hargument s variance type ht (List.mem_cons_self ..))
  | case5 classifier nullable arguments abbreviation s hshape hnone => exact htop

theorem arrayCore_of_isArray {P : IrType → Prop} {s : SimpleType} (h : p.isArray s = true)
    (hargument : ∀ variance type, .projection variance type ∈ s.arguments →
      P (p.arrayCore type).element)
    (hbuiltin : ∀ element, p.arrayShape? s = some (.primitive element) → P (p.builtinType element))
    (htop : P p.topType) : P (p.arrayCore (.simple s)).element := by
  obtain ⟨classifier, nullable, arguments, abbreviation⟩ := s
  unfold arrayCore
  dsimp only
  split
  · next hnone =>
    rw [isArray, hnone] at h
    cases h
  · next element hshape => exact hbuiltin element hshape
  · split
    · exact hargument _ _ (List.mem_cons_self ..)
    · exact htop

/-! ## Erasure -/

theorem ground_eraseWithin (steps : Nat) (type : IrType) : (p.eraseWithin steps type).Ground := by
  induction steps generalizing type with
  | zero =>
    cases type with
    | simple s => exact ground_topType
    | error description => exact nofun
  | succ steps ih =>
    cases type with
    | error description => exact nofun
    | simple s =>
      rw [eraseWithin]
      cases hclassifier : s.classifier with
      | ofTypeParameter id =>
        cases hbound : p.firstBound? id with
        | none => simpa only [hbound] using ground_topType
        | some bound => simpa only [hbound] using ih bound
      | ofClass id =>
        intro w hw
        rcases SimpleType.mem_parts.mp hw with rfl | ⟨a, ha, hw⟩
        · exact ⟨id, rfl⟩
        · dsimp only at ha
          split at ha
          · obtain rfl := List.mem_singleton.mp ha
            exact ih _ w hw
          · cases ha

theorem ground_erase (type : IrType) : (p.erase type).Ground := ground_eraseWithin p.walkLimit type

end Program

end IrFacts
