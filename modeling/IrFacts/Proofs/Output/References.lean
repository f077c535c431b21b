import IrFacts.Output.Drain
import IrFacts.Proofs.Output.TrapOfClass
import IrFacts.Proofs.Program.Walks
import IrFacts.Proofs.Queue.FirstAsked

/-!
# What the extraction of a class schedules

The classes that are scheduled while a class is extracted do not depend on the
queue, and all of them are declarations of the program. So the queue of a drain
cannot grow forever.
-/

set_option autoImplicit false

namespace IrFacts

/-! ## Growing queues -/

namespace ClassQueue

variable {declared : DeclId → Prop} {q r s : ClassQueue}

/-- `r` comes out of `q` by scheduling: what is new was not accepted before. -/
def Extends (declared : DeclId → Prop) (q r : ClassQueue) : Prop :=
  ∃ new, r.accepted = new ++ q.accepted ∧ r.waiting = new ++ q.waiting ∧ new.Nodup ∧
    ∀ id ∈ new, id ∉ q.accepted ∧ declared id

theorem Extends.refl (declared : DeclId → Prop) (q : ClassQueue) : Extends declared q q :=
  ⟨[], rfl, rfl, .nil, by simp⟩

theorem Extends.trans (h : Extends declared q r) (h' : Extends declared r s) :
    Extends declared q s := by
  obtain ⟨new, haccepted, hwaiting, hnodup, hnew⟩ := h
  obtain ⟨more, haccepted', hwaiting', hnodup', hmore⟩ := h'
  refine ⟨more ++ new, ?_, ?_, ?_, ?_⟩
  · rw [haccepted', haccepted, List.append_assoc]
  · rw [hwaiting', hwaiting, List.append_assoc]
  · refine List.nodup_append.mpr ⟨hnodup', hnodup, ?_⟩
    rintro a ha b hb rfl
    exact (hmore a ha).1 (haccepted ▸ List.mem_append_left _ hb)
  · intro id hid
    rcases List.mem_append.mp hid with hid | hid
    · exact ⟨fun hq => (hmore id hid).1 (haccepted ▸ List.mem_append_right _ hq), (hmore id hid).2⟩
    · exact hnew id hid

theorem Extends.subset (h : Extends declared q r) : q.accepted ⊆ r.accepted := by
  obtain ⟨new, haccepted, -⟩ := h
  exact haccepted ▸ List.subset_append_right _ _

theorem Extends.mono {more : DeclId → Prop} (h : Extends declared q r)
    (hmore : ∀ id, declared id → more id) : Extends more q r := by
  obtain ⟨new, haccepted, hwaiting, hnodup, hnew⟩ := h
  exact ⟨new, haccepted, hwaiting, hnodup,
    fun id hid => ⟨(hnew id hid).1, hmore id (hnew id hid).2⟩⟩

theorem extends_schedule {id : DeclId} (h : declared id) :
    Extends declared q (q.schedule id).2 := by
  unfold schedule
  split
  · exact .refl declared q
  · next hid => exact ⟨[id], rfl, rfl, by simp, by simpa using ⟨hid, h⟩⟩

end ClassQueue

namespace Program

theorem declares_of_ownerWithin {p : Program} {steps : Nat} {id owner : DeclId}
    (h : p.ownerWithin steps id = some owner) : p.Declares owner := by
  induction steps generalizing id with
  | zero => cases h
  | succ steps ih =>
    simp only [ownerWithin] at h
    split at h
    · split at h
      · next hclass =>
        cases h
        exact declares_of_isClass hclass
      · split at h
        · exact ih h
        · cases h
    · cases h

/-- A class from outside: it is marked so, or a function that is marked so belongs to it. -/
def FromOutside (p : Program) (id : DeclId) : Prop :=
  p.isExternal id = true ∨ ∃ f, p.isExternal f = true ∧ p.owner? f = some id

theorem declares_of_fromOutside {p : Program} {id : DeclId} (h : p.FromOutside id) :
    p.Declares id := by
  rcases h with hexternal | ⟨f, -, howner⟩
  · exact declares_of_isExternal hexternal
  · exact declares_of_ownerWithin howner

end Program

namespace Event

theorem run_extends {declared : DeclId → Prop} {es : List Event} (s : Session)
    (h : ∀ id f, .schedule id f ∈ es → declared id) :
    s.queue.Extends declared (run es s).queue := by
  induction es generalizing s with
  | nil => exact .refl declared _
  | cons e es ih =>
    have hrest := ih (e.step s) fun id f hm => h id f (List.mem_cons_of_mem _ hm)
    cases e with
    | schedule id f =>
      exact (ClassQueue.extends_schedule (h id f (List.mem_cons_self ..))).trans hrest
    | _ => exact hrest

end Event

/-! ## References of a class -/

namespace Session

/-- Alike as far as an extraction can tell, and in what they refer to. -/
structure SameReferences (s t : Session) : Prop extends s.Resembles t where
  dependencies : s.dependencies = t.dependencies

theorem sameReferences_blind : Blind SameReferences where
  resembles h := h.toResembles
  step e h :=
    { toResembles := e.resembles_step h.toResembles
      dependencies := e.dependencies_step h.dependencies }

end Session

/-- An action that ends does so wherever it has the same to look at. -/
theorem Extract.Oblivious.ends {α : Type} {p : Program} {m : Extract α} (h : Oblivious p m)
    {s t s' : Session} {a : α} (hst : s.SameReferences t) (he : Ends p s m a s') :
    ∃ t', Ends p t m a t' := by
  have hends := h _ Session.sameReferences_blind s t hst
  rw [show m p s = .ok (a, s') from he] at hends
  generalize hr : m p t = r at hends
  cases hends with
  | @ended _ _ t' _ => exact ⟨t', hr⟩

namespace ClassTrap

open Extract

variable {t : ClassTrap} {d : Destination} {p : Program}

theorem extends_of_extraction {s s' : Session} (h : Ends p s (t.extraction p) () s') :
    s.queue.Extends p.FromOutside s'.queue := by
  obtain ⟨label, u, hclass, hpure⟩ := ends_bind.mp h
  obtain ⟨-, rfl⟩ := ends_pure.mp hpure
  obtain ⟨⟨⟨es, -, haccounted, rfl⟩, -⟩, -⟩ :=
    (Scope.widest_coversWalk p p.fuel p.fuel).classDeclaration s t.id (Scope.widest_sound s) _ _
      hclass
  refine Event.run_extends s fun id f hid => ?_
  cases f with
  | none =>
    obtain ⟨-, -, -, -, hexternal, -⟩ := (haccounted.introduced id).mp hid
    exact .inl hexternal
  | some f => exact .inr ⟨f, haccounted.owner id f hid⟩

/-- A class is scheduled while the class of the trap is extracted. -/
def Refers (t : ClassTrap) (d : Destination) (p : Program) (other : DeclId) : Prop :=
  ∃ s ids, Ends p (t.session d {}) (t.extraction p) () s ∧ s.dependencies = some ids ∧ other ∈ ids

theorem sameReferences_session (g h : Progress) :
    (t.session d g).SameReferences (t.session d h) := ⟨⟨rfl, rfl, rfl, rfl, rfl⟩, rfl⟩

/-- An extraction that ends does so after whatever was scheduled and counted. -/
theorem ends_session (h : ∃ s, Ends p (t.session d {}) (t.extraction p) () s) (g : Progress) :
    ∃ s, Ends p (t.session d g) (t.extraction p) () s := by
  obtain ⟨s₀, h₀⟩ := h
  exact (oblivious_extraction t p).ends (sameReferences_session {} g) h₀

/-- The queue gets what the class refers to, whatever is in it. -/
theorem accepted_of_extraction {g : Progress} {s : Session}
    (h : Ends p (t.session d g) (t.extraction p) () s) (id : DeclId) :
    id ∈ s.queue.accepted ↔ id ∈ g.queue.accepted ∨ t.Refers d p id := by
  obtain ⟨ids, hids, -, hqueue⟩ := collects_of_extraction t d p h
  rw [hqueue]
  have hends := oblivious_extraction t p _ Session.sameReferences_blind _ _
    (sameReferences_session (t := t) (d := d) {} g)
  rw [show t.extraction p p (t.session d g) = .ok ((), s) from h] at hends
  generalize hr : t.extraction p p (t.session d {}) = r at hends
  cases hends with
  | @ended _ s₀ _ hsame =>
    have hrefers : t.Refers d p id ↔ id ∈ ids := by
      constructor
      · rintro ⟨s₁, others, h₁, hothers, hid⟩
        cases hr.symm.trans h₁
        rw [hsame.dependencies, hids] at hothers
        cases hothers
        exact hid
      · exact fun hid => ⟨s₀, ids, hr, hsame.dependencies.trans hids, hid⟩
    rw [hrefers]

end ClassTrap

namespace Destination

def Terminates (d : Destination) (p : Program) : Prop :=
  ∀ id t, ClassTrap.ofClass d p id = .ok t →
    ∃ s, Extract.Ends p (t.session d {}) (t.extraction p) () s

/-- While one class is extracted, the other is scheduled. -/
def Refers (d : Destination) (p : Program) (id other : DeclId) : Prop :=
  ∃ t, ClassTrap.ofClass d p id = .ok t ∧ t.Refers d p other

end Destination

end IrFacts
