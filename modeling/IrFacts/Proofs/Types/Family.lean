import IrFacts.Extraction.Projection
import IrFacts.Proofs.Types.Parts
import Mathlib.Logic.Basic

/-!
# Families of types

The projection of a type comes to other types: its arguments, the supertypes of
classes, the erased types of functions, and what cloning makes of an array. A
family has all of these with each of its types. Cloning comes to rest after one
step, so every type is in a finite family.
-/

set_option autoImplicit false

namespace IrFacts

namespace Program

variable {p : Program} {s w : SimpleType}

/-! ## Clones -/

def cloneElement (p : Program) : List TypeArgument → IrType
  | .projection _ (.simple inner) :: _ =>
    if (p.arrayShape? inner).isSome then .simple (p.cloneType inner).orNull
    else .simple inner.orNull
  | .projection _ (.error description) :: _ => .error description
  | _ => p.topType

/-- The first of the arguments is as cloning would make it. -/
def Settled (p : Program) (arguments : List TypeArgument) : Prop :=
  arguments = .projection .invariant (p.cloneElement arguments) :: arguments.tail

instance (arguments : List TypeArgument) : Decidable (p.Settled arguments) :=
  inferInstanceAs (Decidable (_ = _))

def broadened (p : Program) (s : SimpleType) : SimpleType :=
  { classifier := s.classifier, nullable := true
    arguments := [.projection .invariant (p.cloneElement s.arguments)] }

theorem cloneType_of_primitive {element : String}
    (h : p.arrayShape? s = some (.primitive element)) :
    p.cloneType s = s := by
  obtain ⟨classifier, nullable, arguments, abbreviation⟩ := s
  unfold cloneType
  simp only [h]

theorem cloneType_eq (h : ∀ element, p.arrayShape? s ≠ some (.primitive element)) :
    p.cloneType s = if p.Settled s.arguments then s else p.broadened s := by
  obtain ⟨classifier, nullable, arguments, abbreviation⟩ := s
  unfold cloneType
  dsimp only
  split
  · next element he => exact absurd he (h element)
  · split
    · refine if_congr ?_ rfl rfl
      rw [Bool.and_eq_true, decide_eq_true_eq, decide_eq_true_eq, and_comm]
      simp only [Settled, cloneElement, List.tail_cons, List.cons.injEq,
        TypeArgument.projection.injEq, and_true]
      exact and_congr_right fun _ => eq_comm
    · simp only [Settled, broadened, cloneElement, List.tail_cons, List.cons.injEq,
        TypeArgument.projection.injEq, and_true]
    · next hsimple herror =>
      have hnot : ¬p.Settled arguments := by
        intro hsettled
        rw [Settled] at hsettled
        cases helement : p.cloneElement arguments with
        | simple inner =>
          rw [helement] at hsettled
          exact hsimple _ _ _ hsettled
        | error description =>
          rw [helement] at hsettled
          exact herror _ _ _ hsettled
      rw [if_neg hnot, broadened, cloneElement]
      · exact hsimple
      · exact herror

theorem cloneType_cases (p : Program) (s : SimpleType) :
    p.cloneType s = s ∨ p.cloneType s = p.broadened s := by
  by_cases h : ∃ element, p.arrayShape? s = some (.primitive element)
  · obtain ⟨element, h⟩ := h
    exact .inl (cloneType_of_primitive h)
  · rw [cloneType_eq (not_exists.mp h)]
    exact ite_eq_or_eq _ _ _

theorem cloneType_orNull (s : SimpleType) :
    p.cloneType s.orNull = s.orNull ∨ p.cloneType s.orNull = p.cloneType s := by
  by_cases h : ∃ element, p.arrayShape? s = some (.primitive element)
  · obtain ⟨element, h⟩ := h
    exact .inl (cloneType_of_primitive h)
  · have hnull := cloneType_eq (s := s.orNull) (not_exists.mp h)
    have hself := cloneType_eq (not_exists.mp h)
    by_cases hsettled : p.Settled s.arguments
    · exact .inl (hnull.trans (if_pos hsettled))
    · exact .inr ((hnull.trans (if_neg hsettled)).trans (hself.trans (if_neg hsettled)).symm)

theorem arrayShape?_cloneType (s : SimpleType) :
    p.arrayShape? (p.cloneType s) = p.arrayShape? s := by
  rcases p.cloneType_cases s with h | h <;> rw [h]
  rfl

theorem topType_cases (hplain : p.BuiltinsPlain) :
    (∃ top, p.topType = .simple top ∧ p.arrayShape? top = none ∧ top.orNull = top) ∨
      ∃ description, p.topType = .error description := by
  unfold topType
  obtain ⟨id, hid, htype⟩ | ⟨description, htype⟩ := p.builtinType_cases "Any" <;> rw [htype]
  · exact .inl ⟨_, rfl, hplain "Any" (List.mem_cons_self ..) id hid, rfl⟩
  · exact .inr ⟨description, rfl⟩

theorem cloneElement_topType (hplain : p.BuiltinsPlain) :
    p.cloneElement [.projection .invariant p.topType] = p.topType := by
  obtain ⟨top, htype, hshape, hnull⟩ | ⟨description, htype⟩ := topType_cases hplain <;> rw [htype]
  · simp [cloneElement, hshape, hnull]
  · rfl

theorem cloneElement_cloneElement (hplain : p.BuiltinsPlain) {arguments : List TypeArgument}
    (h : ∀ a ∈ arguments, ∀ w ∈ a.parts, p.cloneType (p.cloneType w) = p.cloneType w) :
    p.cloneElement [.projection .invariant (p.cloneElement arguments)] =
      p.cloneElement arguments := by
  have htop := cloneElement_topType hplain
  rcases arguments with _ | ⟨_ | ⟨variance, inner | description⟩, rest⟩
  · exact htop
  · exact htop
  · have hinner : p.cloneType (p.cloneType inner) = p.cloneType inner :=
      h _ (List.mem_cons_self ..) inner inner.self_mem_parts
    by_cases hshape : (p.arrayShape? inner).isSome
    · have helement : p.cloneElement (.projection variance (.simple inner) :: rest) =
          .simple (p.cloneType inner).orNull := if_pos hshape
      have hclone :
          (p.cloneType (p.cloneType inner).orNull).orNull = (p.cloneType inner).orNull := by
        rcases cloneType_orNull (p := p) (p.cloneType inner) with he | he <;> rw [he]
        · rfl
        · rw [hinner]
      rw [← arrayShape?_cloneType] at hshape
      rw [helement, cloneElement, arrayShape?_orNull, if_pos hshape, hclone]
    · have helement : p.cloneElement (.projection variance (.simple inner) :: rest) =
          .simple inner.orNull := if_neg hshape
      rw [helement, cloneElement, arrayShape?_orNull, if_neg hshape, SimpleType.orNull_orNull]
  · rfl

theorem cloneType_cloneType (hplain : p.BuiltinsPlain) (s : SimpleType) :
    p.cloneType (p.cloneType s) = p.cloneType s := by
  refine SimpleType.Inherits.holds (P := fun s => p.cloneType (p.cloneType s) = p.cloneType s)
    (fun s ih => ?_) s
  by_cases hshape : ∃ element, p.arrayShape? s = some (.primitive element)
  · obtain ⟨element, hshape⟩ := hshape
    rw [cloneType_of_primitive hshape, cloneType_of_primitive hshape]
  rcases p.cloneType_cases s with h | h
  · rw [h, h]
  · have hsettled : p.Settled (p.broadened s).arguments :=
      congrArg (fun element => [TypeArgument.projection .invariant element])
        (cloneElement_cloneElement hplain ih).symm
    rw [h, cloneType_eq (s := p.broadened s) (not_exists.mp hshape), if_pos hsettled]

def forms (p : Program) (s : SimpleType) : List SimpleType :=
  [s, s.orNull, p.cloneType s, (p.cloneType s).orNull]

theorem self_mem_forms (s : SimpleType) : s ∈ p.forms s := List.mem_cons_self ..

theorem orNull_mem_forms (h : w ∈ p.forms s) : w.orNull ∈ p.forms s := by
  simp only [forms, List.mem_cons, List.not_mem_nil, or_false] at h ⊢
  obtain rfl | rfl | rfl | rfl := h <;> simp [SimpleType.orNull_orNull]

theorem cloneType_mem_forms (hplain : p.BuiltinsPlain) (h : w ∈ p.forms s) :
    p.cloneType w ∈ p.forms s := by
  have hclone := cloneType_cloneType hplain s
  simp only [forms, List.mem_cons, List.not_mem_nil, or_false] at h ⊢
  obtain rfl | rfl | rfl | rfl := h
  · simp
  · rcases cloneType_orNull (p := p) s with h | h <;> rw [h] <;> simp
  · simp [hclone]
  · rcases cloneType_orNull (p := p) (p.cloneType s) with h | h <;> rw [h] <;> simp [hclone]

def Formed (p : Program) (types : List SimpleType) (w : SimpleType) : Prop :=
  w ∈ p.topType.parts ∨ ∃ v ∈ types, w ∈ p.forms v

theorem Formed.mono {types more : List SimpleType} (h : p.Formed types w)
    (hsub : ∀ v ∈ types, v ∈ more) : p.Formed more w :=
  h.imp_right fun ⟨v, hv, hw⟩ => ⟨v, hsub v hv, hw⟩

theorem formed_self {types : List SimpleType} (h : w ∈ types) : p.Formed types w :=
  .inr ⟨w, h, self_mem_forms w⟩

theorem parts_cloneElement {arguments : List TypeArgument}
    (h : ∀ a ∈ arguments, ∀ v ∈ a.parts, ∀ w ∈ (p.cloneType v).parts, p.Formed v.parts w)
    (hw : w ∈ (p.cloneElement arguments).parts) :
    p.Formed (TypeArgument.partsOfAll arguments) w := by
  rcases arguments with _ | ⟨_ | ⟨variance, inner | description⟩, rest⟩
  · exact .inl hw
  · exact .inl hw
  · have hsub : ∀ v ∈ inner.parts,
        v ∈ TypeArgument.partsOfAll (.projection variance (.simple inner) :: rest) :=
      fun v hv => List.mem_append_left _ hv
    refine Formed.mono ?_ hsub
    rw [cloneElement] at hw
    split at hw
    · rcases SimpleType.parts_orNull hw with rfl | hw
      · exact .inr ⟨inner, inner.self_mem_parts, by simp [forms]⟩
      · exact h _ (List.mem_cons_self ..) inner inner.self_mem_parts w hw
    · rcases SimpleType.parts_orNull hw with rfl | hw
      · exact .inr ⟨inner, inner.self_mem_parts, by simp [forms]⟩
      · exact formed_self hw
  · cases hw

theorem parts_cloneType (s : SimpleType) :
    ∀ w ∈ (p.cloneType s).parts, p.Formed s.parts w := by
  refine SimpleType.Inherits.holds (P := fun s => ∀ w ∈ (p.cloneType s).parts, p.Formed s.parts w)
    (fun s ih w hw => ?_) s
  rcases p.cloneType_cases s with h | h
  · rw [h] at hw
    exact formed_self hw
  · rcases SimpleType.mem_parts.mp hw with rfl | ⟨a, ha, hw⟩
    · exact .inr ⟨s, s.self_mem_parts, by simp [forms]⟩
    · rw [h] at ha
      obtain rfl := List.mem_singleton.mp ha
      refine (parts_cloneElement ih hw).mono fun v hv => ?_
      exact SimpleType.mem_parts.mpr (.inr (TypeArgument.mem_partsOfAll.mp hv))

/-! ## Families -/

/-- The types from which the key of a function is made. -/
def signature (p : Program) (f : FunctionDecl) : List IrType :=
  f.returnType :: f.valueParameters.map (Projection.valueType p)

/-- With each of its types a family has all that the projection of it comes to. -/
structure Family (p : Program) (types : List SimpleType) : Prop where
  part : ∀ u ∈ types, ∀ w ∈ u.parts, w ∈ types
  orNull : ∀ u ∈ types, u.orNull ∈ types
  clone : ∀ u ∈ types, p.cloneType u ∈ types
  superType : ∀ {id c}, p.class? id = some c → ∀ type ∈ c.superTypes, ∀ w ∈ type.parts, w ∈ types
  signature : ∀ {id f}, p.function? id = some f → ∀ type ∈ p.signature f,
    ∀ w ∈ (p.erase type).parts, w ∈ types

def brought (p : Program) (d : Declaration) : List SimpleType :=
  match d.kind with
  | .class c => c.superTypes.flatMap IrType.parts
  | .function f => (p.signature f).flatMap fun type => (p.erase type).parts
  | _ => []

def seeds (p : Program) (type : IrType) : List SimpleType :=
  type.parts ++ p.topType.parts ++ p.declarations.toList.flatMap p.brought

def family (p : Program) (type : IrType) : List SimpleType := (p.seeds type).flatMap p.forms

theorem parts_seeds {type : IrType} {v : SimpleType} (hw : w ∈ p.seeds type) (hv : v ∈ w.parts) :
    v ∈ p.seeds type := by
  have htrans {types : List IrType} (hw : w ∈ types.flatMap IrType.parts) :
      v ∈ types.flatMap IrType.parts := by
    obtain ⟨t, ht, hw⟩ := List.mem_flatMap.mp hw
    exact List.mem_flatMap.mpr ⟨t, ht, t.parts_trans hw hv⟩
  rcases List.mem_append.mp hw with hw | hw
  · refine List.mem_append_left _ ?_
    exact (List.mem_append.mp hw).elim
      (fun hw => List.mem_append_left _ (type.parts_trans hw hv))
      fun hw => List.mem_append_right _ (p.topType.parts_trans hw hv)
  · refine List.mem_append_right _ ?_
    obtain ⟨d, hd, hw⟩ := List.mem_flatMap.mp hw
    refine List.mem_flatMap.mpr ⟨d, hd, ?_⟩
    unfold brought at hw ⊢
    split at hw
    · exact htrans hw
    · obtain ⟨t, ht, hw⟩ := List.mem_flatMap.mp hw
      exact List.mem_flatMap.mpr ⟨t, ht, (p.erase t).parts_trans hw hv⟩
    · cases hw

theorem mem_family_of_formed {type : IrType} (h : p.Formed (p.seeds type) w) :
    w ∈ p.family type := by
  rcases h with h | ⟨v, hv, hw⟩
  · exact List.mem_flatMap.mpr ⟨w, by simp [seeds, h], self_mem_forms w⟩
  · exact List.mem_flatMap.mpr ⟨v, hv, hw⟩

theorem mem_family_of_brought {type : IrType} {id : DeclId} {d : Declaration}
    (hd : p.decl? id = some d) (h : w ∈ p.brought d) : w ∈ p.family type := by
  refine mem_family_of_formed (formed_self (List.mem_append_right _ ?_))
  exact List.mem_flatMap.mpr ⟨d, Array.mem_toList_iff.mpr (Array.mem_of_getElem? hd), h⟩

theorem parts_mem_family {type : IrType} (h : w ∈ type.parts) : w ∈ p.family type :=
  mem_family_of_formed (formed_self (by simp [seeds, h]))

theorem family_family (hplain : p.BuiltinsPlain) (type : IrType) : p.Family (p.family type) where
  part u hu w hw := by
    obtain ⟨v, hv, hu⟩ := List.mem_flatMap.mp hu
    have hformed : p.Formed v.parts w := by
      simp only [forms, List.mem_cons, List.not_mem_nil, or_false] at hu
      obtain rfl | rfl | rfl | rfl := hu
      · exact formed_self hw
      · rcases SimpleType.parts_orNull hw with rfl | hw
        · exact .inr ⟨v, v.self_mem_parts, by simp [forms]⟩
        · exact formed_self hw
      · exact parts_cloneType v w hw
      · rcases SimpleType.parts_orNull hw with rfl | hw
        · exact .inr ⟨v, v.self_mem_parts, by simp [forms]⟩
        · exact parts_cloneType v w hw
    exact mem_family_of_formed (hformed.mono fun x hx => parts_seeds hv hx)
  orNull u hu := by
    obtain ⟨v, hv, hu⟩ := List.mem_flatMap.mp hu
    exact List.mem_flatMap.mpr ⟨v, hv, orNull_mem_forms hu⟩
  clone u hu := by
    obtain ⟨v, hv, hu⟩ := List.mem_flatMap.mp hu
    exact List.mem_flatMap.mpr ⟨v, hv, cloneType_mem_forms hplain hu⟩
  superType hc t ht w hw := by
    obtain ⟨d, hd, hk⟩ := decl_of_class? hc
    refine mem_family_of_brought hd ?_
    rw [brought, hk]
    exact List.mem_flatMap.mpr ⟨t, ht, hw⟩
  signature hf t ht w hw := by
    obtain ⟨d, hd, hk⟩ := decl_of_function? hf
    refine mem_family_of_brought hd ?_
    rw [brought, hk]
    exact List.mem_flatMap.mpr ⟨t, ht, hw⟩

end Program

end IrFacts
