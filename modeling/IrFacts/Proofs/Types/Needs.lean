import IrFacts.Proofs.Run.AccountedProjection
import IrFacts.Proofs.Types.Family
import Mathlib.Data.Set.Insert

/-!
# Type parameters that a type needs

The label of a type needs the labels of the type parameters in it. A class with
arguments needs more: with its label goes what the class extends, and so it
needs the type parameters in there, and those that these types need in turn.
-/

set_option autoImplicit false

namespace IrFacts

/-- The type parameters that are written in a type. -/
def IrType.written (t : IrType) : Set DeclId :=
  {id | ∃ w ∈ t.parts, w.classifier = .ofTypeParameter id}

namespace Program

variable (p : Program)

/-- One of the classes that have arguments in the type extends this one. -/
def HasSuper (t super : IrType) : Prop :=
  ∃ w ∈ t.parts, ∃ id c, w.classifier = .ofClass id ∧ w.arguments ≠ [] ∧
    p.class? (p.onHost id) = some c ∧ super ∈ c.superTypes

inductive Needs : IrType → DeclId → Prop
  | written {t : IrType} {id : DeclId} : id ∈ t.written → Needs t id
  | inherited {t super : IrType} {id : DeclId} : p.HasSuper t super → Needs super id → Needs t id

def needs (t : IrType) : Set DeclId := {id | p.Needs t id}

/-- What a type needs for the sake of what its classes extend. -/
def inherits (t : IrType) : Set DeclId := {id | ∃ super, p.HasSuper t super ∧ p.Needs super id}

/-- The type parameters that a part of a type needs are among these. -/
structure Fits (known : Set DeclId) (w : SimpleType) : Prop where
  written : ∀ id, w.classifier = .ofTypeParameter id → id ∈ known
  inherited : ∀ id c, w.classifier = .ofClass id → w.arguments ≠ [] →
    p.class? (p.onHost id) = some c → ∀ super ∈ c.superTypes, p.needs super ⊆ known

/-- No array class extends anything that needs a type parameter. -/
def PlainArrays : Prop :=
  ∀ id, (p.shapeOfClass? id).isSome → ∀ c, p.class? id = some c ∨ p.class? (p.onHost id) = some c →
    ∀ super ∈ c.superTypes, p.needs super = ∅

variable {p} {t super : IrType} {v w s : SimpleType} {known : Set DeclId}

theorem needs_eq (t : IrType) : p.needs t = t.written ∪ p.inherits t := by
  ext id
  refine ⟨fun h => ?_, fun h => ?_⟩
  · cases h with
    | written hid => exact .inl hid
    | inherited hsuper hid => exact .inr ⟨_, hsuper, hid⟩
  · rcases h with hid | ⟨super, hsuper, hid⟩
    · exact .written hid
    · exact .inherited hsuper hid

theorem needs_subset_iff : p.needs t ⊆ known ↔ ∀ w ∈ t.parts, p.Fits known w := by
  refine ⟨fun h w hw => ⟨fun id hid => h (.written ⟨w, hw, hid⟩), ?_⟩, fun h id hid => ?_⟩
  · exact fun id c hid hne hc super hsuper other hother =>
      h (.inherited ⟨w, hw, id, c, hid, hne, hc, hsuper⟩ hother)
  · cases hid with
    | written hid =>
      obtain ⟨w, hw, hid⟩ := hid
      exact (h w hw).written id hid
    | inherited hsuper hid =>
      obtain ⟨w, hw, cid, c, hcid, hne, hc, hsuper⟩ := hsuper
      exact (h w hw).inherited cid c hcid hne hc _ hsuper hid

theorem inherits_subset (h : ∀ id c, p.class? id = some c → ∀ super ∈ c.superTypes,
    super.written ⊆ known) (t : IrType) : p.inherits t ⊆ known := by
  rintro id ⟨super, hsuper, hid⟩
  induction hid generalizing t with
  | written hid =>
    obtain ⟨-, -, cid, c, -, -, hc, hmem⟩ := hsuper
    exact h _ c hc _ hmem hid
  | inherited hnext _ ih => exact ih _ hnext

/-! ## Parts -/

theorem Fits.like (h : p.Fits known w) (hclassifier : v.classifier = w.classifier)
    (harguments : v.arguments = w.arguments) : p.Fits known v := by
  refine ⟨fun id hid => h.written id (hclassifier ▸ hid), fun id c hid hne => ?_⟩
  exact h.inherited id c (hclassifier ▸ hid) (harguments ▸ hne)

theorem fits_bare {id : DeclId} (hid : w.classifier = .ofClass id) (hbare : w.arguments = []) :
    p.Fits known w :=
  ⟨fun _ hother => (nomatch hid.symm.trans hother), fun _ _ _ hne => absurd hbare hne⟩

theorem PlainArrays.fits (hp : p.PlainArrays) {id : DeclId} (hid : w.classifier = .ofClass id)
    (hshape : (p.shapeOfClass? id).isSome) : p.Fits known w := by
  refine ⟨fun _ hother => (nomatch hid.symm.trans hother),
    fun other c hother _ hc super hsuper => ?_⟩
  cases hid.symm.trans hother
  rw [hp id hshape c (.inr hc) super hsuper]
  exact Set.empty_subset known

theorem PlainArrays.fits_of_shape (hp : p.PlainArrays) (h : (p.arrayShape? w).isSome) :
    p.Fits known w := by
  rw [arrayShape?] at h
  split at h
  · next id hid => exact hp.fits hid h
  · cases h

/-- In a program without array classes there is nothing to see to. -/
theorem PlainArrays.of_none (h : ∀ i < p.declarations.size,
    p.shapeOfClass? ⟨UInt32.ofNat i⟩ = none) : p.PlainArrays := by
  intro id hshape
  by_cases hlt : id.index.toNat < p.declarations.size
  · have hnone := h _ hlt
    rw [UInt32.ofNat_toNat] at hnone
    cases hnone ▸ hshape
  · have hnone : p.decl? id = none := Array.getElem?_eq_none (not_lt.mp hlt)
    have hchain : p.classChain? id = none := by
      simp [classChain?, walkLimit, chainWithin, hnone]
    simp [shapeOfClass?, fqName?, hchain] at hshape

theorem fits_topType (h : w ∈ p.topType.parts) : p.Fits known w := by
  obtain ⟨id, -, rfl⟩ := parts_topType h
  exact fits_bare rfl rfl

theorem PlainArrays.fits_cloneElement (hp : p.PlainArrays) {arguments : List TypeArgument}
    (ih : ∀ a ∈ arguments, ∀ v ∈ a.parts, (p.arrayShape? v).isSome →
      (∀ w ∈ v.parts, p.Fits known w) → ∀ w ∈ (p.cloneType v).parts, p.Fits known w)
    (h : ∀ a ∈ arguments, ∀ w ∈ a.parts, p.Fits known w) :
    ∀ w ∈ (p.cloneElement arguments).parts, p.Fits known w := by
  rcases arguments with _ | ⟨_ | ⟨variance, inner | description⟩, rest⟩
  · exact fun w => fits_topType
  · exact fun w => fits_topType
  · have hinner : ∀ w ∈ inner.parts, p.Fits known w := h _ (List.mem_cons_self ..)
    have hself := hinner inner inner.self_mem_parts
    intro w hw
    rw [cloneElement] at hw
    split at hw
    · next hshape =>
      rcases SimpleType.parts_orNull hw with rfl | hw
      · exact hp.fits_of_shape (by rwa [arrayShape?_orNull, arrayShape?_cloneType])
      · exact ih _ (List.mem_cons_self ..) inner inner.self_mem_parts hshape hinner w hw
    · rcases SimpleType.parts_orNull hw with rfl | hw
      · exact hself.like rfl rfl
      · exact hinner w hw
  · exact fun w hw => absurd hw List.not_mem_nil

theorem PlainArrays.fits_cloneType (hp : p.PlainArrays) (s : SimpleType)
    (harray : (p.arrayShape? s).isSome) (h : ∀ w ∈ s.parts, p.Fits known w) :
    ∀ w ∈ (p.cloneType s).parts, p.Fits known w := by
  refine SimpleType.Inherits.holds (P := fun s => (p.arrayShape? s).isSome →
    (∀ w ∈ s.parts, p.Fits known w) → ∀ w ∈ (p.cloneType s).parts, p.Fits known w)
    (fun s ih harray h w hw => ?_) s harray h
  rcases p.cloneType_cases s with hclone | hclone
  · rw [hclone] at hw
    exact h w hw
  · rw [hclone] at hw
    rcases SimpleType.mem_parts.mp hw with rfl | ⟨a, ha, hw⟩
    · -- The class is that of the array, whatever arguments it has now.
      exact hp.fits_of_shape harray
    · obtain rfl := List.mem_singleton.mp ha
      refine hp.fits_cloneElement ih (fun a ha w hw => h w ?_) w hw
      exact SimpleType.mem_parts.mpr (.inr ⟨a, ha, hw⟩)

/-- Classes lose their arguments in an erased type, unless they are arrays. -/
theorem parts_eraseWithin (steps : Nat) (type : IrType) :
    ∀ w ∈ (p.eraseWithin steps type).parts, ∃ id, w.classifier = .ofClass id ∧
      (w.arguments = [] ∨ (p.shapeOfClass? id).isSome) := by
  have top (w : SimpleType) (hw : w ∈ p.topType.parts) : ∃ id, w.classifier = .ofClass id ∧
      (w.arguments = [] ∨ (p.shapeOfClass? id).isSome) := by
    obtain ⟨id, -, rfl⟩ := parts_topType hw
    exact ⟨id, rfl, .inl rfl⟩
  induction steps generalizing type with
  | zero =>
    cases type with
    | simple s => exact top
    | error description => exact nofun
  | succ steps ih =>
    cases type with
    | error description => exact nofun
    | simple s =>
      rw [eraseWithin]
      cases hclassifier : s.classifier with
      | ofTypeParameter id =>
        cases hbound : p.firstBound? id with
        | none => simpa only [hbound] using top
        | some bound => simpa only [hbound] using ih bound
      | ofClass id =>
        intro w hw
        rcases SimpleType.mem_parts.mp hw with rfl | ⟨a, ha, hw⟩
        · refine ⟨id, rfl, ?_⟩
          dsimp only
          split
          · next hshape => exact .inr (by simp [hshape])
          · exact .inl rfl
        · dsimp only at ha
          split at ha
          · obtain rfl := List.mem_singleton.mp ha
            exact ih _ w hw
          · cases ha

theorem PlainArrays.fits_erase (hp : p.PlainArrays) (type : IrType) :
    ∀ w ∈ (p.erase type).parts, p.Fits known w := by
  intro w hw
  obtain ⟨id, hid, hbare | hshape⟩ := parts_eraseWithin p.walkLimit type w hw
  · exact fits_bare hid hbare
  · exact hp.fits hid hshape

end Program

/-! ## A vocabulary -/

/-- The types that need no type parameters but these. -/
def Vocabulary.within {p : Program} (hp : p.PlainArrays) (known : Set DeclId) : Vocabulary p where
  Has t := p.needs t ⊆ known
  Parameter id := id ∈ known
  bare id nullable := by
    refine Program.needs_subset_iff.mpr fun w hw => ?_
    obtain rfl := List.mem_singleton.mp hw
    exact Program.fits_bare rfl rfl
  error description := Program.needs_subset_iff.mpr nofun
  like {s t} h hclassifier harguments := by
    have hs := Program.needs_subset_iff.mp h
    refine Program.needs_subset_iff.mpr fun w hw => ?_
    rcases SimpleType.mem_parts.mp hw with rfl | ⟨a, ha, hw⟩
    · exact (hs s s.self_mem_parts).like hclassifier harguments
    · exact hs w (SimpleType.mem_parts.mpr (.inr ⟨a, harguments ▸ ha, hw⟩))
  argument h hmem := by
    refine Program.needs_subset_iff.mpr fun w hw => Program.needs_subset_iff.mp h w ?_
    exact SimpleType.mem_parts.mpr (.inr ⟨_, hmem, hw⟩)
  clone {s} h harray := by
    have hs := Program.needs_subset_iff.mp h
    exact Program.needs_subset_iff.mpr
      (hp.fits_cloneType s (Program.isSome_arrayShape? harray) hs)
  erase type := Program.needs_subset_iff.mpr (hp.fits_erase type)
  ofInstance {s id c} h hid hne hc super hsuper :=
    (Program.needs_subset_iff.mp h s s.self_mem_parts).inherited id c hid hne hc super hsuper
  ofArray {s id c} h hid harray hc super hsuper := by
    have hshape : (p.shapeOfClass? id).isSome := by
      have hshape := Program.isSome_arrayShape? harray
      rwa [Program.arrayShape?, hid] at hshape
    rw [hp id hshape c (.inl hc) super hsuper]
    exact Set.empty_subset known
  ofTypeParameter {s id} h hid :=
    (Program.needs_subset_iff.mp h s s.self_mem_parts).written id hid

end IrFacts
