import IrFacts.Proofs.Run.Oblivious

/-!
# Limits that are not reached

As counts only grow, a site that has reached its limit has done so for good. As
long as none has, every diagnostic is written just as it is without a limit, so
that what was counted before does not show in a trap.
-/

set_option autoImplicit false

namespace IrFacts

namespace Counter

variable {c d e : Counter}

/-- The counts of `d` go on from those of `c`: the limit is the same, and if no site has
reached it in `d`, none had in `c`. -/
structure Precedes (c d : Counter) : Prop where
  limit : d.limit = c.limit
  limited : d.limited = [] → c.limited = []

theorem Precedes.refl (c : Counter) : c.Precedes c := ⟨rfl, fun h => h⟩

theorem Precedes.trans (h : c.Precedes d) (k : d.Precedes e) : c.Precedes e :=
  ⟨k.limit.trans h.limit, fun he => h.limited (k.limited he)⟩

theorem mem_increment_of_mem (site : String) {counts : List (String × Nat)} {other : String}
    {n : Nat} (h : (other, n) ∈ counts) : ∃ m, n ≤ m ∧ (other, m) ∈ increment site counts := by
  induction counts with
  | nil => cases h
  | cons entry rest ih =>
    obtain ⟨first, m⟩ := entry
    rw [increment]
    split
    · rcases List.mem_cons.mp h with he | hrest
      · cases he
        exact ⟨n + 1, Nat.le_succ n, List.mem_cons_self⟩
      · exact ⟨n, Nat.le_refl n, List.mem_cons_of_mem _ hrest⟩
    · split
      · exact ⟨n, Nat.le_refl n, List.mem_cons_of_mem _ h⟩
      · rcases List.mem_cons.mp h with he | hrest
        · cases he
          exact ⟨n, Nat.le_refl n, List.mem_cons_self⟩
        · obtain ⟨m', hle, hm⟩ := ih hrest
          exact ⟨m', hle, List.mem_cons_of_mem _ hm⟩

/-- No site has reached the limit, if there is one, just if all counts are below it. -/
theorem limited_eq_nil_iff :
    c.limited = [] ↔ c.limit = 0 ∨ ∀ entry ∈ c.counts, entry.2 < c.limit := by
  unfold limited
  split
  · next h => simp [h]
  · next h => simp [h]

theorem precedes_accept (c : Counter) (site : String) : c.Precedes (c.accept site).2 where
  limit := rfl
  limited h := by
    refine limited_eq_nil_iff.mpr ((limited_eq_nil_iff.mp h).imp_right fun hall entry hentry => ?_)
    obtain ⟨m, hle, hm⟩ := mem_increment_of_mem site hentry
    exact Nat.lt_of_le_of_lt hle (hall _ hm)

theorem accept_log {site : String} (h : (c.accept site).2.limited = []) :
    (c.accept site).1 = .log := by
  rcases limited_eq_nil_iff.mp h with hnone | hall
  · exact if_pos hnone
  by_cases hlimit : c.limit = 0
  · exact if_pos hlimit
  have hcount : (c.accept site).2.countOf site < c.limit := by
    unfold countOf
    cases hfound : (c.accept site).2.counts.lookup site with
    | none => exact Nat.pos_of_ne_zero hlimit
    | some n =>
      obtain ⟨front, rest, hcounts, -⟩ := List.lookup_eq_some_iff.mp hfound
      exact hall (site, n) (by simp [hcounts])
  have hverdict : (c.accept site).1 = if c.limit = 0 then .log
      else if (c.accept site).2.countOf site = c.limit then .limitReached
      else if c.limit < (c.accept site).2.countOf site then .suppressed else .log := rfl
  rw [hverdict, if_neg hlimit, if_neg (Nat.ne_of_lt hcount), if_neg (Nat.not_lt_of_lt hcount)]

end Counter

namespace Event

theorem precedes_step (e : Event) (s : Session) : s.counter.Precedes (e.step s).counter := by
  cases e with
  | report problem location =>
    simp only [step, report_eq]
    exact ⟨rfl, (Counter.precedes_accept s.counter problem.site).limited⟩
  | _ => exact .refl _

end Event

namespace Session

/-- Two sessions of which the second has no limit: they look alike, and as long as no site
has reached the limit of the first they have written the same. -/
structure UntilLimit (s t : Session) : Prop extends s.Resembles t where
  unlimited : t.counter.limit = 0
  file : s.counter.limited = [] → s.file = t.file

theorem file_step_of_limited {e : Event} {s t : Session} (h : s.UntilLimit t)
    (hnone : (e.step s).counter.limited = []) : (e.step s).file = (e.step t).file := by
  have hfile := h.file ((e.precedes_step s).limited hnone)
  cases e with
  | report problem location =>
    simp only [Event.step, Event.report_eq] at hnone ⊢
    have hs : (s.counter.accept problem.site).1 = .log := Counter.accept_log hnone
    have ht : (t.counter.accept problem.site).1 = .log := if_pos h.unlimited
    simp only [Event.diagnostic, hs, ht, hfile]
  | _ => first | exact hfile | simp only [Event.step, mapWriter, hfile]

theorem untilLimit_blind : Blind UntilLimit where
  resembles h := h.toResembles
  step {_ t} e h :=
    { toResembles := e.resembles_step h.toResembles
      unlimited := (e.precedes_step t).limit.trans h.unlimited
      file := file_step_of_limited h }

end Session

namespace Extract

variable {α : Type} {p : Program} {action : Extract α} {s s' : Session} {a : α}

theorem Oblivious.precedes (h : Oblivious p action) (he : Ends p s action a s') :
    s.counter.Precedes s'.counter := by
  have hstep (e : Event) (t : Session) (ht : s.counter.Precedes t.counter) :
      s.counter.Precedes (e.step t).counter := ht.trans (e.precedes_step t)
  exact h.keeps hstep (.refl s.counter) he

/-- What is written without a limit is written with one that is not reached, whatever
was counted and scheduled before. -/
theorem Oblivious.untilLimit (h : Oblivious p action) {t : Session} (hst : s.UntilLimit t)
    (he : Ends p s action a s') : ∃ t', Ends p t action a t' ∧ s'.UntilLimit t' := by
  have hends := h _ Session.untilLimit_blind s t hst
  rw [show action p s = .ok (a, s') from he] at hends
  generalize hr : action p t = r at hends
  cases hends with
  | @ended _ _ t' h' => exact ⟨t', hr, h'⟩

end Extract

end IrFacts
