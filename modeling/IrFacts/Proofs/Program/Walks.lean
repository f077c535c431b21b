import IrFacts.Program
import Mathlib.Data.List.Perm.Subperm
import Mathlib.Logic.Relation

/-!
# Walks along parent links

A list of declarations without repetition is no longer than the table. So a
walk from function to function ends where no function encloses itself.
-/

set_option autoImplicit false

namespace IrFacts

namespace Program

variable {p : Program} {id other : DeclId}

/-! ## Declared numbers -/

/-- The program has a declaration under this number. -/
def Declares (p : Program) (id : DeclId) : Prop := (p.decl? id).isSome

theorem declares_of_isExternal (h : p.isExternal id = true) : p.Declares id := by
  unfold isExternal at h
  split at h
  · next hd => simp [Declares, hd]
  · cases h

theorem declares_of_isClass (h : p.isClass id = true) : p.Declares id := by
  unfold isClass class? at h
  cases hd : p.decl? id with
  | none =>
    rw [hd] at h
    cases h
  | some d => simp [Declares, hd]

theorem declares_of_parent? {parent : DeclParent} (h : p.parent? id = some parent) :
    p.Declares id := by
  obtain ⟨d, hd, -⟩ := Option.map_eq_some_iff.mp h
  simp [Declares, hd]

theorem length_le_of_declares {ids : List DeclId} (hnodup : ids.Nodup)
    (h : ∀ id ∈ ids, p.Declares id) : ids.length ≤ p.declarations.size := by
  have hinj : (ids.map fun id => id.index.toNat).Nodup := by
    refine List.Pairwise.map _ (fun a b hne he => hne ?_) hnodup
    obtain ⟨a⟩ := a
    obtain ⟨b⟩ := b
    exact congrArg DeclId.mk (UInt32.toNat_inj.mp he)
  have hsub : (ids.map fun id => id.index.toNat) ⊆ List.range p.declarations.size := by
    intro n hn
    obtain ⟨id, hid, rfl⟩ := List.mem_map.mp hn
    obtain ⟨declaration, hdecl⟩ := Option.isSome_iff_exists.mp (h id hid)
    obtain ⟨hlt, -⟩ := Array.getElem?_eq_some_iff.mp hdecl
    exact List.mem_range.mpr hlt
  simpa using (List.subperm_of_subset hinj hsub).length_le

/-! ## Enclosing functions -/

/-- Parent links lead from the first declaration to the second. -/
def Below (p : Program) : DeclId → DeclId → Prop :=
  Relation.TransGen fun id parent => p.parent? id = some (.decl parent)

/-- No function encloses itself. -/
def FunctionsNest (p : Program) : Prop := ∀ f, p.isFunction f = true → ¬p.Below f f

def EndsWithin (p : Program) : Nat → DeclId → Prop
  | 0, _ => False
  | steps + 1, id => ∀ parent, p.parent? id = some (.decl parent) → p.isFunction parent = true →
      p.EndsWithin steps parent

/-- A walk has met what lies below its declaration, none of it twice, so the
table is large enough for its steps. -/
theorem endsWithin_of_met (h : p.FunctionsNest) {steps : Nat} {met : List DeclId}
    (hnodup : (id :: met).Nodup) (hdeclared : ∀ f ∈ met, p.Declares f)
    (hbelow : ∀ f ∈ met, p.Below f id) (hsteps : p.declarations.size < steps + met.length) :
    p.EndsWithin steps id := by
  induction steps generalizing id met with
  | zero =>
    have hlength := length_le_of_declares hnodup.of_cons hdeclared
    omega
  | succ steps ih =>
    intro parent hparent hfunction
    have hbelow' : ∀ f ∈ id :: met, p.Below f parent := by
      intro f hf
      rcases List.mem_cons.mp hf with rfl | hf
      · exact .single hparent
      · exact (hbelow f hf).tail hparent
    refine ih (List.nodup_cons.mpr ⟨?_, hnodup⟩) ?_ hbelow' ?_
    · exact fun hmet => h parent hfunction (hbelow' parent hmet)
    · exact List.forall_mem_cons.mpr ⟨declares_of_parent? hparent, hdeclared⟩
    · rw [List.length_cons]
      omega

theorem endsWithin_walkLimit (h : p.FunctionsNest) (id : DeclId) : p.EndsWithin p.walkLimit id :=
  by
  refine endsWithin_of_met h (List.nodup_cons.mpr ⟨List.not_mem_nil, .nil⟩) nofun nofun ?_
  exact Nat.lt_succ_self p.declarations.size

def parentsFirst (p : Program) : Bool :=
  p.declarations.toList.zipIdx.all fun (d, index) =>
    match d.parent with
    | .decl parent => parent.index.toNat < index
    | _ => true

theorem parent?_lt (h : p.parentsFirst = true) (hparent : p.parent? id = some (.decl other)) :
    other.index.toNat < id.index.toNat := by
  obtain ⟨d, hd, hdecl⟩ := Option.map_eq_some_iff.mp hparent
  have hmem : (d, id.index.toNat) ∈ p.declarations.toList.zipIdx :=
    List.mem_zipIdx_iff_getElem?.mpr (by simpa [decl?] using hd)
  have hlt := List.all_eq_true.mp h _ hmem
  simpa [hdecl] using hlt

theorem functionsNest_of_parentsFirst (h : p.parentsFirst = true) : p.FunctionsNest := by
  have hlt {a b : DeclId} (hbelow : p.Below a b) : b.index.toNat < a.index.toNat := by
    induction hbelow with
    | single hparent => exact parent?_lt h hparent
    | tail _ hparent ih => exact Nat.lt_trans (parent?_lt h hparent) ih
  exact fun f _ hself => Nat.lt_irrefl _ (hlt hself)

end Program

end IrFacts
