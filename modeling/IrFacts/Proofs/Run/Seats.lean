import IrFacts.Extraction.Code
import IrFacts.Proofs.Run.Places

/-!
# Slots outside of a scope

Code is attached to a slot, and all that is ever said of the parent of the slot is
said by the row that stands in it. So an action may keep to a scope that does not
know the parent, but for that one row. Where the parent is known after all, the
action keeps to the scope altogether.
-/

set_option autoImplicit false

namespace IrFacts

/-- The facts that are rows in a slot. -/
inductive Slot.Holds (slot : Slot) : Trap.Fact → Prop
  | stmt (id : Label) (kind : Trap.StmtKind) (callable : Label) :
      slot.Holds (.stmts id kind slot.parent slot.index callable)
  | expr (id : Label) (kind : Trap.ExprKind) (type : Label) :
      slot.Holds (.exprs id kind type slot.parent slot.index)

theorem Slot.Holds.mem_codeRelations {slot : Slot} {f : Trap.Fact} (h : slot.Holds f) :
    f.relation ∈ Trap.codeRelations := by
  cases h with
  | stmt id kind callable => exact List.mem_cons_self
  | expr id kind type => exact List.mem_cons_of_mem _ List.mem_cons_self

namespace Scope

open Extract

/-- The session `s'` comes out of `s` by events that the scope admits, but for one row
in the slot, which it admits too if it knows the parent of the slot. -/
inductive Seated (σ : Scope) (p : Program) (slot : Slot) (s s' : Session) : Prop
  | empty (h : σ.Leads p s s')
  | row (t : Session) (f : Trap.Fact) (before : σ.Leads p s t) (holds : slot.Holds f)
      (admits : σ.Knows t slot.parent → σ.Admits t (.fact f))
      (after : σ.Leads p ((Event.fact f).step t) s')

/-- Every completed run of the action keeps to the scope but for one row in the slot, and
`Q` holds after it. -/
def Seats (σ : Scope) (p : Program) (slot : Slot) {α : Type} (s : Session) (m : Extract α)
    (Q : α → Session → Prop) : Prop :=
  σ.Sound s → ∀ a s', Ends p s m a s' → σ.Seated p slot s s' ∧ Q a s'

variable {σ : Scope} {p : Program} {slot : Slot} {s t u : Session} {α β : Type}

/-! ## Sessions with a row in the slot -/

theorem fact_next (f : Trap.Fact) (s : Session) :
    ((Event.fact f).step s).table.next = s.table.next := by
  rw [Event.step_table]
  rfl

theorem Sound.fact (h : σ.Sound s) (f : Trap.Fact) : σ.Sound ((Event.fact f).step s) := by
  have hnext := fact_next f s
  have keep {l : Label} (hl : σ.Knows s l) : σ.Knows ((Event.fact f).step s) l :=
    hl.later (Event.step_before _ s)
  refine ⟨hnext ▸ h.base, h.errors, fun e he => keep (h.bound e ?_), keep h.target,
    fun e he => keep (h.locals e he), fun e he => keep (h.loops e he)⟩
  rwa [Event.step_table] at he

theorem Seated.refl : σ.Seated p slot s s := .empty .refl

theorem Seated.before (h : σ.Seated p slot s t) : s.Before t := by
  cases h with
  | empty h => exact h.before
  | row t f before _ _ after =>
    exact before.before.trans ((Event.step_before _ t).trans after.before)

theorem Seated.sound (h : σ.Seated p slot s t) (hs : σ.Sound s) : σ.Sound t := by
  cases h with
  | empty h => exact h.sound hs
  | row _ f before _ _ after => exact after.sound ((before.sound hs).fact f)

theorem Seated.knows {l : Label} (h : σ.Seated p slot s t) (hl : σ.Knows s l) : σ.Knows t l :=
  hl.later h.before

theorem Seated.then (h : σ.Seated p slot s t) (k : σ.Leads p t u) : σ.Seated p slot s u := by
  cases h with
  | empty h => exact .empty (h.trans k)
  | row t f before holds admits after => exact .row t f before holds admits (after.trans k)

theorem Seated.after (h : σ.Leads p s t) (k : σ.Seated p slot t u) : σ.Seated p slot s u := by
  cases k with
  | empty k => exact .empty (h.trans k)
  | row t f before holds admits after => exact .row t f (h.trans before) holds admits after

theorem Seated.leads (h : σ.Seated p slot s t) (hslot : σ.Knows s slot.parent) :
    σ.Leads p s t := by
  cases h with
  | empty h => exact h
  | row t f before _ admits after =>
    exact (before.trans (leads_single (admits (before.knows hslot)) nofun nofun nofun)).trans after

/-! ## Actions that write a row into the slot -/

theorem Does.seats {m : Extract α} {Q : α → Session → Prop} (h : σ.Does p s m Q) :
    σ.Seats p slot s m Q := fun hs a s' he =>
  ⟨.empty (h hs a s' he).1, (h hs a s' he).2⟩

theorem Seats.does {m : Extract α} {Q : α → Session → Prop} (h : σ.Seats p slot s m Q)
    (hslot : σ.Knows s slot.parent) : σ.Does p s m Q := fun hs a s' he =>
  ⟨(h hs a s' he).1.leads hslot, (h hs a s' he).2⟩

theorem Seats.imp {m : Extract α} {Q R : α → Session → Prop} (h : σ.Seats p slot s m Q)
    (hi : ∀ a t, σ.Seated p slot s t → Q a t → R a t) : σ.Seats p slot s m R := by
  intro hs a s' he
  obtain ⟨hst, hq⟩ := h hs a s' he
  exact ⟨hst, hi a s' hst hq⟩

theorem seats_bind {m : Extract α} {f : α → Extract β} {Q : α → Session → Prop}
    {R : β → Session → Prop} (hm : σ.Seats p slot s m Q)
    (hf : ∀ a t, σ.Seated p slot s t → Q a t → σ.Does p t (f a) R) :
    σ.Seats p slot s (m >>= f) R := by
  intro hs b s' he
  obtain ⟨a, t, ha, hb⟩ := ends_bind.mp he
  obtain ⟨hst, hq⟩ := hm hs a t ha
  obtain ⟨hts, hr⟩ := hf a t hst hq (hst.sound hs) b s' hb
  exact ⟨hst.then hts, hr⟩

theorem does_bind_seats {m : Extract α} {f : α → Extract β} {Q : α → Session → Prop}
    {R : β → Session → Prop} (hm : σ.Does p s m Q)
    (hf : ∀ a t, σ.Leads p s t → Q a t → σ.Seats p slot t (f a) R) :
    σ.Seats p slot s (m >>= f) R := by
  intro hs b s' he
  obtain ⟨a, t, ha, hb⟩ := ends_bind.mp he
  obtain ⟨hst, hq⟩ := hm hs a t ha
  obtain ⟨hts, hr⟩ := hf a t hst hq (hst.sound hs) b s' hb
  exact ⟨.after hst hts, hr⟩

theorem seats_read {f : Program → Extract β} {R : β → Session → Prop}
    (h : σ.Seats p slot s (f p) R) : σ.Seats p slot s (read >>= f) R := by
  intro hs b s' he
  exact h hs b s' (ends_read_bind.mp he)

theorem seats_get {f : Session → Extract β} {R : β → Session → Prop}
    (h : σ.Seats p slot s (f s) R) : σ.Seats p slot s (get >>= f) R := by
  intro hs b s' he
  exact h hs b s' (ends_get_bind.mp he)

theorem seats_ite {c : Prop} [Decidable c] {m n : Extract α} {Q : α → Session → Prop}
    (hm : c → σ.Seats p slot s m Q) (hn : ¬ c → σ.Seats p slot s n Q) :
    σ.Seats p slot s (if c then m else n) Q := by
  split
  · next h => exact hm h
  · next h => exact hn h

theorem seats_write {f : Trap.Fact} (hf : slot.Holds f)
    (ha : σ.Knows s slot.parent → σ.Admits s (.fact f)) :
    σ.Seats p slot s (write f) Any := by
  intro _ u s' he
  obtain rfl := ends_write.mp he
  exact ⟨.row s f .refl hf ha .refl, trivial⟩

end Scope

end IrFacts
