import IrFacts.Proofs.Run.Declarations

/-!
# Sessions only grow

In the scope without any condition every action of an extraction is a list of
events, so whatever a session knows it knows ever after: the label of a key,
the label of a local variable, the classes that were scheduled.
-/

set_option autoImplicit false

namespace IrFacts

namespace Session

/-- Whether the class is among those that the trap refers to, if these are
asked for. -/
def Depends (s : Session) (id : DeclId) : Prop := ∀ ids, s.dependencies = some ids → id ∈ ids

/-- Everything that `s` knows is known in `t`, and places are attributed to the
same file. -/
structure Le (s t : Session) : Prop where
  find? : ∀ key l, s.table.find? key = some l → t.table.find? key = some l
  locals : ∀ id l, s.locals.lookup id = some l → t.locals.lookup id = some l
  accepted : ∀ id ∈ s.queue.accepted, id ∈ t.queue.accepted
  depends : ∀ id, s.Depends id → t.Depends id
  target : t.file.target = s.file.target

theorem Le.refl (s : Session) : s.Le s :=
  ⟨fun _ _ h => h, fun _ _ h => h, fun _ h => h, fun _ h => h, rfl⟩

theorem Le.trans {s t u : Session} (h : s.Le t) (k : t.Le u) : s.Le u :=
  ⟨fun key l hl => k.find? key l (h.find? key l hl),
    fun id l hl => k.locals id l (h.locals id l hl),
    fun id hid => k.accepted id (h.accepted id hid), fun id hid => k.depends id (h.depends id hid),
    k.target.trans h.target⟩

theorem depends_schedule {s : Session} {id other : DeclId} {function : Option DeclId}
    (h : s.Depends id ∨ id = other) : ((Event.schedule other function).step s).Depends id := by
  intro ids hids
  obtain ⟨before, hb, rfl⟩ := Option.map_eq_some_iff.mp hids
  rcases h with h | rfl
  · have := h before hb
    split
    · exact this
    · exact List.mem_append.mpr (Or.inl this)
  · split
    · next hm => exact hm
    · simp

theorem accepted_schedule {s : Session} {id other : DeclId} {function : Option DeclId} :
    id ∈ ((Event.schedule other function).step s).queue.accepted ↔
      id ∈ s.queue.accepted ∨ id = other := by
  simp only [Event.step, ClassQueue.schedule]
  split
  · next h => exact ⟨Or.inl, fun hm => hm.elim (fun h => h) (fun he => he ▸ h)⟩
  · simp only [List.mem_cons]
    exact or_comm

end Session

namespace Scope

def widest : Scope where
  given _ _ := True
  base := 0
  errors := 0
  letter _ := True
  relation _ := True
  given_mono _ _ _ _ _ := trivial
  given_placeholder _ _ := trivial
  letter_of_ne _ _ := trivial
  relation_of_notMem _ _ := trivial

theorem widest_sound (s : Session) : widest.Sound s :=
  ⟨Nat.zero_le _, Nat.zero_le _, fun _ _ => Or.inl trivial, Or.inl trivial,
    fun _ _ => Or.inl trivial, fun _ _ => Or.inl trivial⟩

theorem widest_knows (s : Session) (l : Label) : widest.Knows s l := Or.inl trivial

theorem widest_letters (text : String) : widest.Letters text := fun _ _ => trivial

theorem widest_spells (s : Session) (text : String) : widest.Spells s text :=
  (widest_letters text).spells

theorem widest_allows (p : Program) : widest.Allows p :=
  ⟨fun name _ => widest_letters name, .inl rfl, .inl rfl⟩

theorem widest_writesCode : widest.WritesCode := fun _ _ => trivial

theorem widest_covers (p : Program) (fuel : Nat) : widest.Covers p (projection fuel) :=
  covers_projection (widest_allows p) fuel

theorem widest_coversWalk (p : Program) (typeFuel walkFuel : Nat) :
    widest.CoversWalk p (walk (projection typeFuel) walkFuel) :=
  coversWalk_walk widest_writesCode (widest_allows p) (widest_covers p typeFuel) walkFuel

end Scope

namespace Event

theorem step_locals {e : Event} {s : Session} (ha : Scope.widest.Admits s e) {id : DeclId}
    {l : Label} (h : s.locals.lookup id = some l) : (e.step s).locals.lookup id = some l := by
  cases e with
  | named other label =>
    have hne : (id == other) = false := by
      apply beq_false_of_ne
      intro he
      rw [he, ha.2] at h
      cases h
    simp only [step, List.lookup_cons, hne, h]
  | _ => exact h

theorem step_accepted (e : Event) {s : Session} {id : DeclId} (h : id ∈ s.queue.accepted) :
    id ∈ (e.step s).queue.accepted := by
  cases e with
  | schedule other f => exact Session.accepted_schedule.mpr (Or.inl h)
  | _ => exact h

theorem step_depends (e : Event) {s : Session} {id : DeclId} (h : s.Depends id) :
    (e.step s).Depends id := by
  cases e with
  | schedule other f => exact Session.depends_schedule (Or.inl h)
  | _ => exact h

/-- Admitted events leave nothing behind that was known before them. -/
theorem run_le {es : List Event} {s : Session} (ha : Scope.widest.AdmitsAll s es)
    (ht : (run es s).file.target = s.file.target) : s.Le (run es s) := by
  refine ⟨fun _ _ h => run_find? es h, ?_, ?_, ?_, ht⟩
  · intro id l
    clear ht
    induction es generalizing s with
    | nil => exact fun h => h
    | cons e es ih => exact fun h => ih ha.2 (step_locals ha.1 h)
  · intro id
    clear ht ha
    induction es generalizing s with
    | nil => exact fun h => h
    | cons e es ih => exact fun h => ih (step_accepted e h)
  · intro id
    clear ht ha
    induction es generalizing s with
    | nil => exact fun h => h
    | cons e es ih => exact fun h => ih (step_depends e h)

theorem step_le {e : Event} {s : Session} (ha : Scope.widest.Admits s e)
    (ht : (e.step s).file.target = s.file.target) : s.Le (e.step s) :=
  @run_le [e] s ⟨ha, trivial⟩ ht

end Event

namespace Extract

variable {α β : Type} {p : Program}

/-- Every completed run of the action only adds to what the session knows. -/
def Grows (p : Program) (m : Extract α) : Prop := ∀ s a s', Ends p s m a s' → s.Le s'

theorem grows_of_does {m : Extract α} {Q : α → Session → Prop}
    (h : ∀ s, Scope.widest.Does p s m Q) : Grows p m := by
  intro s a s' he
  obtain ⟨⟨⟨es, ha, -, rfl⟩, ht⟩, -⟩ := h s (Scope.widest_sound s) a s' he
  exact Event.run_le ha ht

theorem grows_pure (a : α) : Grows p (pure a) := by
  intro s b s' he
  obtain ⟨-, rfl⟩ := ends_pure.mp he
  exact .refl s'

theorem grows_bind {m : Extract α} {f : α → Extract β} (hm : Grows p m)
    (hf : ∀ a, Grows p (f a)) : Grows p (m >>= f) := by
  intro s b s' he
  obtain ⟨a, t, ha, hb⟩ := ends_bind.mp he
  exact (hm s a t ha).trans (hf a t b s' hb)

theorem grows_when_bind {c : Prop} [Decidable c] {m : Extract Unit} {f : Unit → Extract β}
    (hm : Grows p m) (hf : Grows p (f ())) : Grows p (if c then m >>= f else f ()) := by
  split
  · exact grows_bind hm fun _ => hf
  · exact hf

theorem grows_write (f : Trap.Fact) : Grows p (write f) :=
  grows_of_does fun s => by
    obtain ⟨r, args⟩ := f
    apply Scope.does_writeIn trivial
    induction args with
    | nil => trivial
    | cons a args ih =>
      cases a with
      | label l => exact ⟨Or.inl trivial, ih⟩
      | _ => exact ih

theorem grows_introducing (id : DeclId) : Grows p (Scope.introducing p id) := by
  intro s u s' he
  obtain rfl := Scope.ends_introducing.mp he
  obtain ⟨hfile, -, hadmits⟩ := Scope.introduce_frame (p := p) id s
  exact Event.run_le (hadmits .widest) (by rw [hfile])

end Extract

end IrFacts
