import IrFacts.Proofs.Run.Script

/-!
# What an extraction does not look at

An extraction does not look at what was written, counted or scheduled. So two
runs of a script that start alike in everything else stay alike, in whatever
way their events keep them so.
-/

set_option autoImplicit false

namespace IrFacts

/-- Related sessions are the same to an extraction, and every event keeps them
related. -/
structure Session.Blind (R : Session → Session → Prop) : Prop where
  resembles : ∀ {s t}, R s t → s.Resembles t
  step : ∀ {s t} (e : Event), R s t → R (e.step s) (e.step t)

namespace Event

variable (e : Event) {s t : Session}

theorem dependencies_step (h : s.dependencies = t.dependencies) :
    (e.step s).dependencies = (e.step t).dependencies := by
  cases e <;> first | exact h | simp only [step, h]

theorem resembles_step (h : s.Resembles t) : (e.step s).Resembles (e.step t) where
  table := by rw [step_table, step_table, h.table]
  target := by cases e <;> first | exact h.target | rfl
  locals := by cases e <;> first | exact h.locals | simp only [step, h.locals]
  openLoops := by cases e <;> first | exact h.openLoops | simp only [step, h.openLoops]
  currentFunction := by cases e <;> first | exact h.currentFunction | rfl

end Event

namespace Extract

variable {α β : Type} {p : Program} {E : Event → Prop}

/-- Two runs stop for the same reason, or end with the same result. -/
inductive Alike (R : Session → Session → Prop) :
    Except Stop (α × Session) → Except Stop (α × Session) → Prop
  | stopped (e : Stop) : Alike R (.error e) (.error e)
  | ended (a : α) {s t : Session} : R s t → Alike R (.ok (a, s)) (.ok (a, t))

/-- Whatever the action does not look at does not matter to what it does. -/
def Oblivious (p : Program) (m : Extract α) : Prop :=
  ∀ R, Session.Blind R → ∀ s t, R s t → Alike R (m p s) (m p t)

theorem oblivious_pure (a : α) : Oblivious p (pure a) := fun _ _ _ _ h => .ended a h

theorem oblivious_bind {m : Extract α} {f : α → Extract β} (hm : Oblivious p m)
    (hf : ∀ a, (∃ s t, Ends p s m a t) → Oblivious p (f a)) : Oblivious p (m >>= f) := by
  intro R hR s t hst
  have hfirst := hm R hR s t hst
  change Alike R ((m p s).bind fun r => f r.1 p r.2) ((m p t).bind fun r => f r.1 p r.2)
  generalize hr : m p s = r, m p t = q at hfirst ⊢
  cases hfirst with
  | stopped e => exact .stopped e
  | ended a h => exact hf a ⟨s, _, hr⟩ R hR _ _ h

theorem oblivious_event {m : Extract α} (e : Event) {view : Session → α} (hview : Permitted view)
    (hm : ∀ s, m p s = .ok (view s, e.step s)) : Oblivious p m := by
  intro R hR s t hst
  rw [hm, hm, hview s t (hR.resembles hst)]
  exact .ended _ (hR.step e hst)

theorem oblivious_write (f : Trap.Fact) : Oblivious p (write f) :=
  oblivious_event (.fact f) (fun _ _ _ => rfl) fun _ => rfl

theorem oblivious_labelWith {key : String} {define : Label → Extract Unit}
    (hd : ∀ l, Oblivious p (define l)) : Oblivious p (labelWith key define) := by
  refine oblivious_bind (oblivious_event (.lookup key none) (permitted_lookup key) fun _ => rfl) ?_
  rintro (l | l) -
  · exact oblivious_pure l
  · exact oblivious_bind (hd l) fun _ _ => oblivious_pure l

theorem Scripted.oblivious {m : Extract α} (h : Scripted E p m) : Oblivious p m := by
  induction h with
  | pure a => exact oblivious_pure a
  | throw e => exact fun _ _ _ _ _ => .stopped e
  | bind _ _ ihm ihf => exact oblivious_bind ihm ihf
  | look hf _ ih =>
    intro R hR s t hst
    rw [get_bind_apply, get_bind_apply, hf s t (hR.resembles hst)]
    exact ih t R hR s t hst
  | event e view _ hview hm => exact oblivious_event e hview hm
  | introduce _ _ ih =>
    exact oblivious_labelWith fun l => oblivious_bind (oblivious_write _) fun _ _ => ih l
  | same hsame _ ih =>
    intro R hR s t hst
    rw [hsame, hsame]
    exact ih R hR s t hst

theorem Oblivious.keeps {m : Extract α} (h : Oblivious p m) {I : Session → Prop}
    (hI : ∀ (e : Event) (s : Session), I s → I (e.step s)) {s s' : Session} {a : α} (hs : I s)
    (he : Ends p s m a s') : I s' := by
  have hblind : Session.Blind fun s t => s = t ∧ I s :=
    { resembles := fun ⟨h, _⟩ => h ▸ .refl _
      step := fun e h => ⟨by rw [h.1], hI e _ h.2⟩ }
  have hends := h _ hblind s s ⟨rfl, hs⟩
  rw [show m p s = .ok (a, s') from he] at hends
  cases hends with
  | ended _ h => exact h.2

end Extract

end IrFacts
