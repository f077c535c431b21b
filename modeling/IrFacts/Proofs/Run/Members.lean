import IrFacts.Proofs.Run.Projection

/-!
# Members and variables keep to a scope
-/

set_option autoImplicit false

namespace IrFacts

namespace Scope

open Extract

variable {σ : Scope} {p : Program} {s t : Session} {π : Projection}

/-- A member that is not declared has the placeholder for a label, and nothing is reported. -/
theorem does_member? (hπ : σ.Covers p π) (hp : σ.Allows p) {kind : String}
    (hk : '\x7b' ∉ kind.toList) (id : DeclId) :
    σ.Does p s (π.member kind id) fun l t =>
      σ.Knows t l ∨ l = .placeholder ∧ p.decl? id = none := by
  apply does_read
  split
  · next hnone => exact does_pure (.inr ⟨rfl, hnone⟩)
  · next d hd =>
    apply does_bind (hπ.parent s d.parent (hp.parent hd))
    intro parent t _ hparent
    have hname : σ.Letters (d.kind.name?.getD "") := by
      cases hn : d.kind.name? with
      | none => exact letters_of_plain (by simp)
      | some name => exact hp.name hd name hn
    have hstart := (spells_of_plain (σ := σ) (s := t) hk).append
      (spells_of_plain (a := ";") (by decide))
    have hnested := (hstart.append (spells_braced hparent)).append
      (spells_of_plain (a := ";") (by decide))
    exact (does_labelFor (hnested.append hname.spells)).imp fun _ _ _ hl => .inl hl

/-- The member is declared, or the placeholder is known anyway. -/
def Declares (σ : Scope) (p : Program) (id : DeclId) : Prop :=
  σ.errors = 0 ∨ (p.decl? id).isSome

theorem does_member (hπ : σ.Covers p π) (hp : σ.Allows p) {kind : String}
    (hk : '\x7b' ∉ kind.toList) {id : DeclId} (hid : σ.Declares p id) :
    σ.Does p s (π.member kind id) fun l t => σ.Knows t l :=
  (does_member? hπ hp hk id).imp fun _ _ _ hl =>
    hl.elim (fun hl => hl) fun hnone => hnone.1 ▸ knows_missing hid hnone.2

theorem does_field (hπ : σ.Covers p π) (hp : σ.Allows p) {id : DeclId} (hid : σ.Declares p id) :
    σ.Does p s (π.field id) fun l t => σ.Knows t l := does_member hπ hp (by decide) hid

theorem does_property (hπ : σ.Covers p π) (hp : σ.Allows p) {id : DeclId}
    (hid : σ.Declares p id) : σ.Does p s (π.property id) fun l t => σ.Knows t l :=
  does_member hπ hp (by decide) hid

theorem does_enumEntry (hπ : σ.Covers p π) (hp : σ.Allows p) {id : DeclId}
    (hid : σ.Declares p id) : σ.Does p s (π.enumEntry id) fun l t => σ.Knows t l :=
  does_member hπ hp (by decide) hid

theorem does_typeAlias (hπ : σ.Covers p π) (hp : σ.Allows p) {id : DeclId}
    (hid : σ.Declares p id) : σ.Does p s (π.typeAlias id) fun l t => σ.Knows t l :=
  does_member hπ hp (by decide) hid

theorem does_valueParameter (hπ : σ.Covers p π) (hp : σ.Allows p) (id : DeclId) :
    σ.Does p s (π.valueParameter id) fun l t => σ.Knows t l := by
  apply does_read
  split
  · next parent _ span v hd =>
    apply does_when_bind (fun _ => does_complainAt _ _)
    intro t _
    apply does_bind (hπ.parent t parent (hp.parent hd))
    intro parent u _ hparent
    have hstart := (spells_of_plain (σ := σ) (a := "params;") (by decide)).append
      (spells_braced hparent)
    exact does_labelFor ((hstart.append (spells_of_plain (by decide))).append
      (letters_int v.index.toInt).spells)
  · exact does_unresolved _

theorem Sound.knows_local (h : σ.Sound s) {id : DeclId} {l : Label}
    (hl : s.locals.lookup id = some l) : σ.Knows s l := by
  obtain ⟨l₁, l₂, hs, -⟩ := List.lookup_eq_some_iff.mp hl
  exact h.locals (id, l) (by simp [hs])

/-- A local variable that is met first gets a label of its own. -/
theorem ends_localVariable {id : DeclId} {l : Label} :
    Ends p s (Projection.localVariable id) l t ↔
      (s.locals.lookup id = some l ∧ t = s) ∨
      (s.locals.lookup id = none ∧ l = .number s.table.next ∧
        t = Event.run [.fresh, .named id (.number s.table.next)] s) := by
  unfold Projection.localVariable
  rw [ends_get_bind]
  cases hl : s.locals.lookup id with
  | some m =>
    simp only [ends_pure, Option.some.injEq, reduceCtorEq, false_and, or_false]
    exact and_congr_left fun _ => eq_comm
  | none =>
    simp only [ends_bind, ends_fresh, ends_modify, ends_pure, reduceCtorEq, false_and, false_or,
      true_and]
    constructor
    · rintro ⟨_, _, ⟨rfl, rfl⟩, _, _, rfl, rfl, rfl⟩
      exact ⟨rfl, rfl⟩
    · rintro ⟨rfl, rfl⟩
      exact ⟨_, _, ⟨rfl, rfl⟩, (), _, rfl, rfl, rfl⟩

theorem does_localVariable (id : DeclId) :
    σ.Does p s (Projection.localVariable id) fun l t => σ.Knows t l := by
  intro hs l s' he
  rcases ends_localVariable.mp he with ⟨hl, rfl⟩ | ⟨hl, rfl, rfl⟩
  · exact ⟨.refl, hs.knows_local hl⟩
  · have hnew : σ.Knows (Event.fresh.step s) (.number s.table.next) := by
      refine Or.inr ⟨_, rfl, hs.base, ?_⟩
      rw [Event.step_table]
      exact Nat.lt_succ_self _
    have hfresh : σ.Leads p s (Event.fresh.step s) := leads_single trivial nofun nofun nofun
    have hnamed : σ.Leads p (Event.fresh.step s)
        ((Event.named id (.number s.table.next)).step (Event.fresh.step s)) :=
      leads_single ⟨hnew, hl⟩ nofun nofun nofun
    exact ⟨hfresh.trans hnamed, hnamed.knows hnew⟩

theorem does_value (hπ : σ.Covers p π) (hp : σ.Allows p) (id : DeclId) :
    σ.Does p s (π.value id) fun l t => σ.Knows t l := by
  apply does_read
  split
  · exact does_valueParameter hπ hp id
  · exact does_localVariable id
  · exact does_unresolved _

theorem does_companionField? (hπ : σ.Covers p π) (hp : σ.Allows p) (id : DeclId) :
    σ.Does p s (π.companionField? id) fun found t => ∀ field ∈ found, σ.Knows t field.1 := by
  apply does_read
  split
  · exact does_pure nofun
  · next c hc =>
    split
    · apply does_bind (hπ.classInstance s _ [])
      intro outer t _ houter
      have hstart := (spells_of_plain (σ := σ) (a := "field;") (by decide)).append
        (spells_braced houter)
      apply does_bind (does_labelFor ((hstart.append (spells_of_plain (by decide))).append
        (hp.class hc).spells))
      intro l u _ hl
      apply does_pure
      intro field hf
      cases hf
      exact hl
    · exact does_bind (does_complain _) fun _ _ _ _ => does_pure nofun

theorem does_objectField (hπ : σ.Covers p π) (id : DeclId) :
    σ.Does p s (π.objectField id) fun field t => σ.Knows t field.1 := by
  refine does_read (does_when_bind (fun _ => does_complain _) fun t _ => ?_)
  apply does_bind (hπ.classInstance t id [])
  intro host u _ hhost
  have hstart := (spells_of_plain (σ := σ) (a := "field;") (by decide)).append
    (spells_braced hhost)
  exact does_bind (does_labelFor (hstart.append (spells_of_plain (by decide))))
    fun l v _ hl => does_pure hl

end Scope

end IrFacts
