import IrFacts.Proofs.Output.Bounded

/-!
# The log of a drain

A drain takes one batch after another out of the queue. Its log tells which
classes it took and what became of each. A drain ends, and by then every class
that was scheduled before or on the way is in the log once.
-/

set_option autoImplicit false

namespace IrFacts

/-- What becomes of a class in a drain. -/
inductive Fate where
  | extracted
  | upToDate
  | failed
deriving DecidableEq, Repr

def Fate.of : Except ExtractError Bool → Fate
  | .ok true => .extracted
  | .ok false => .upToDate
  | .error _ => .failed

/-- The classes that were taken out of the queue, in order. -/
abbrev DrainLog := List (DeclId × Fate)

namespace DrainLog

def ids (log : DrainLog) : List DeclId := log.map (·.1)

theorem ids_append (log more : DrainLog) : ids (log ++ more) = log.ids ++ more.ids :=
  List.map_append

def tally (log : DrainLog) (fate : Fate) : Nat := log.countP (·.2 = fate)

theorem tally_append (log more : DrainLog) (fate : Fate) :
    tally (log ++ more) fate = tally log fate + tally more fate := List.countP_append

theorem tally_total (log : DrainLog) :
    log.tally .extracted + log.tally .upToDate + log.tally .failed = log.length := by
  induction log with
  | nil => rfl
  | cons e rest ih =>
    obtain ⟨id, fate⟩ := e
    cases fate <;> simp [tally] at ih ⊢ <;> omega

theorem ne_failed_of_tally {log : DrainLog} (h : log.tally .failed = 0) {e : DeclId × Fate}
    (he : e ∈ log) : e.2 ≠ .failed := by
  simpa using List.countP_eq_zero.mp h e he

end DrainLog

namespace DrainSummary

/-- The summary `s'` is `s` with the classes of a log counted in. -/
structure Counts (s s' : DrainSummary) (log : DrainLog) : Prop where
  extracted : s'.extracted = s.extracted + log.tally .extracted
  upToDate : s'.upToDate = s.upToDate + log.tally .upToDate
  failed : s'.failed = s.failed + log.tally .failed

theorem Counts.trans {s s' s'' : DrainSummary} {log more : DrainLog} (h : Counts s s' log)
    (h' : Counts s' s'' more) : Counts s s'' (log ++ more) where
  extracted := by rw [DrainLog.tally_append, h'.extracted, h.extracted, Nat.add_assoc]
  upToDate := by rw [DrainLog.tally_append, h'.upToDate, h.upToDate, Nat.add_assoc]
  failed := by rw [DrainLog.tally_append, h'.failed, h.failed, Nat.add_assoc]

end DrainSummary

namespace ClassQueue

/-- A queue in which all that was accepted still waits. -/
def scheduling (ids : List DeclId) : ClassQueue := ids.foldl (fun q id => (q.schedule id).2) .empty

structure Sound (q : ClassQueue) : Prop where
  nodup : q.accepted.Nodup
  waiting : q.waiting.Sublist q.accepted

theorem Sound.extends {declared : DeclId → Prop} {q r : ClassQueue} (hq : q.Sound)
    (h : q.Extends declared r) : r.Sound := by
  obtain ⟨new, haccepted, hwaiting, hnodup, hnew⟩ := h
  constructor
  · rw [haccepted]
    refine List.nodup_append.mpr ⟨hnodup, hq.nodup, ?_⟩
    rintro a ha b hb rfl
    exact (hnew a ha).1 hb
  · rw [haccepted, hwaiting]
    exact (List.Sublist.refl new).append hq.waiting

theorem scheduling_spec (ids : List DeclId) :
    (scheduling ids).waiting = (scheduling ids).accepted ∧ (scheduling ids).accepted.Nodup ∧
      ∀ id, id ∈ (scheduling ids).accepted ↔ id ∈ ids := by
  suffices h : ∀ (q : ClassQueue), q.waiting = q.accepted → q.accepted.Nodup →
      let r := ids.foldl (fun q id => (q.schedule id).2) q
      r.waiting = r.accepted ∧ r.accepted.Nodup ∧
        ∀ id, id ∈ r.accepted ↔ id ∈ q.accepted ∨ id ∈ ids by
    obtain ⟨hwaiting, hnodup, hmem⟩ := h .empty rfl .nil
    exact ⟨hwaiting, hnodup, fun id => (hmem id).trans (by simp [empty])⟩
  induction ids with
  | nil => exact fun q hw hn => ⟨hw, hn, by simp⟩
  | cons id rest ih =>
    intro q hw hn
    by_cases hid : id ∈ q.accepted
    · have hsame : (q.schedule id).2 = q := by simp [schedule, hid]
      obtain ⟨hwaiting, hnodup, hmem⟩ := ih q hw hn
      rw [List.foldl_cons, hsame]
      refine ⟨hwaiting, hnodup, fun other => (hmem other).trans ?_⟩
      rw [List.mem_cons]
      exact ⟨fun h => h.imp_right .inr, fun h => h.elim .inl fun h => h.elim
        (fun he => .inl (he ▸ hid)) .inr⟩
    · have hnew : (q.schedule id).2 = ⟨id :: q.accepted, id :: q.waiting⟩ := by
        simp [schedule, hid]
      obtain ⟨hwaiting, hnodup, hmem⟩ := ih ⟨id :: q.accepted, id :: q.waiting⟩
        (congrArg (id :: ·) hw) (List.nodup_cons.mpr ⟨hid, hn⟩)
      rw [List.foldl_cons, hnew]
      refine ⟨hwaiting, hnodup, fun other => (hmem other).trans ?_⟩
      simp only [List.mem_cons]
      exact ⟨fun h => h.elim (fun h => h.elim (fun h => .inr (.inl h)) .inl) fun h => .inr (.inr h),
        fun h => h.elim (fun h => .inl (.inr h)) fun h => h.elim (fun h => .inl (.inl h)) .inr⟩

end ClassQueue

namespace Destination

open IrFacts.Task

variable {d : Destination} {p : Program} {g g' : Progress} {k k' : Disk}

/-- One batch: the classes are taken in order, each where the one before has
left the disk and the queue. -/
inductive Takes (d : Destination) (p : Program) :
    List DeclId → Progress → Disk → DrainLog → Progress → Disk → Prop where
  | nil {g : Progress} {k : Disk} : Takes d p [] g k [] g k
  | cons {id : DeclId} {ids : List DeclId} {g g₁ g₂ : Progress} {k k₁ k₂ : Disk}
      {r : Except ExtractError Bool} {log : DrainLog}
      (first : (d.extractClass p id : Task OnDisk _).run.run g k = ((r, g₁), k₁))
      (rest : Takes d p ids g₁ k₁ log g₂ k₂) :
      Takes d p (id :: ids) g k ((id, .of r) :: log) g₂ k₂

/-- Progress after the classes that wait were taken. -/
def taken (g : Progress) : Progress := { g with queue := g.queue.takeBatch.2 }

/-- A whole drain: one batch after another, until nothing waits. -/
inductive Drains (d : Destination) (p : Program) :
    Progress → Disk → DrainLog → Progress → Disk → Prop where
  | done {g : Progress} {k : Disk} (empty : g.queue.waiting = []) : Drains d p g k [] g k
  | batch {g g₁ g₂ : Progress} {k k₁ k₂ : Disk} {log more : DrainLog}
      (waiting : g.queue.waiting ≠ [])
      (first : Takes d p g.queue.batch (taken g) k log g₁ k₁)
      (rest : Drains d p g₁ k₁ more g₂ k₂) : Drains d p g k (log ++ more) g₂ k₂

/-! ## One class -/

theorem counts_of_drainClass {s s' : DrainSummary} {id : DeclId}
    (h : (d.drainClass p s id : Task OnDisk _).run.run g k = ((.ok s', g'), k')) :
    ∃ r, (d.extractClass p id : Task OnDisk _).run.run g k = ((r, g'), k') ∧
      s.Counts s' [(id, .of r)] := by
  unfold drainClass at h
  rw [run_tryCatch, run_bind] at h
  rcases hr : (d.extractClass p id : Task OnDisk _).run.run g k with ⟨⟨e | written, g₁⟩, k₁⟩ <;>
    rw [hr] at h
  · cases e <;> cases h <;> exact ⟨_, rfl, ⟨rfl, rfl, rfl⟩⟩
  · cases written <;> cases h <;> exact ⟨_, rfl, ⟨rfl, rfl, rfl⟩⟩

/-- No class stops a drain unless its extraction is stopped. -/
theorem drainClass_ends (hterm : d.Terminates p) (s : DrainSummary) (id : DeclId) (g : Progress)
    (k : Disk) : ∃ s' g' k', (d.drainClass p s id : Task OnDisk _).run.run g k =
      ((.ok s', g'), k') := by
  obtain ⟨-, -, hstop⟩ := bounded_extractClass hterm id g k rfl
  unfold drainClass
  rw [run_tryCatch, run_bind]
  rcases hr : (d.extractClass p id : Task OnDisk _).run.run g k with ⟨⟨e | written, g'⟩, k'⟩ <;>
    rw [hr] at hstop
  · cases e with
    | stopped stop => exact absurd rfl (hstop stop)
    | _ => exact ⟨_, g', k', rfl⟩
  · cases written <;> exact ⟨_, g', k', rfl⟩

/-! ## One batch -/

theorem Takes.ids {ids : List DeclId} {log : DrainLog} (h : Takes d p ids g k log g' k') :
    log.ids = ids := by
  induction h with
  | nil => rfl
  | cons first rest ih => exact congrArg _ ih

theorem takes_of_run {ids : List DeclId} {s s' : DrainSummary}
    (h : (ids.foldlM (d.drainClass p) s : Task OnDisk _).run.run g k = ((.ok s', g'), k')) :
    ∃ log, Takes d p ids g k log g' k' ∧ s.Counts s' log := by
  induction ids generalizing s g k with
  | nil =>
    cases h
    exact ⟨[], .nil, rfl, rfl, rfl⟩
  | cons id rest ih =>
    rw [List.foldlM_cons, run_bind] at h
    rcases hr : (d.drainClass p s id : Task OnDisk _).run.run g k with ⟨⟨e | s₁, g₁⟩, k₁⟩ <;>
      rw [hr] at h
    · cases h
    · obtain ⟨r, hfirst, hcounts⟩ := counts_of_drainClass hr
      obtain ⟨log, htakes, hcounts'⟩ := ih h
      exact ⟨(id, .of r) :: log, .cons hfirst htakes, hcounts.trans hcounts'⟩

theorem batch_ends (hterm : d.Terminates p) (ids : List DeclId) (s : DrainSummary) (g : Progress)
    (k : Disk) : ∃ s' g' k', (ids.foldlM (d.drainClass p) s : Task OnDisk _).run.run g k =
      ((.ok s', g'), k') := by
  induction ids generalizing s g k with
  | nil => exact ⟨s, g, k, rfl⟩
  | cons id rest ih =>
    obtain ⟨s₁, g₁, k₁, hrun⟩ := drainClass_ends hterm s id g k
    rw [List.foldlM_cons, run_bind, hrun]
    exact ih s₁ g₁ k₁

theorem Takes.extends {ids : List DeclId} {log : DrainLog} (h : Takes d p ids g k log g' k') :
    g.queue.Extends p.FromOutside g'.queue := by
  induction h with
  | nil => exact .refl _ _
  | cons first rest ih => exact (extends_of_extractClass first).trans ih

/-! ## All batches -/

/-- How many declarations have not been accepted by a queue. -/
def room (p : Program) (q : ClassQueue) : Nat :=
  p.declarations.size - (q.accepted.filter fun id => (p.decl? id).isSome).length

theorem room_lt {q r : ClassQueue} (h : q.Extends p.Declares r) (hr : r.accepted.Nodup)
    (hne : r.accepted ≠ q.accepted) : room p r < room p q := by
  obtain ⟨new, haccepted, -, -, hnew⟩ := h
  have hall : new.filter (fun id => (p.decl? id).isSome) = new :=
    List.filter_eq_self.mpr fun id hid => (hnew id hid).2
  have hpos : new ≠ [] := by
    rintro rfl
    exact hne haccepted
  have hle := Program.length_le_of_declares (p := p)
    (hr.sublist (List.filter_sublist (p := fun id => (p.decl? id).isSome)))
    fun id hid => (List.mem_filter.mp hid).2
  have hlength := List.length_pos_iff.mpr hpos
  unfold room
  rw [haccepted, List.filter_append, hall, List.length_append] at hle ⊢
  omega

/-- After a batch fewer batches are left: what waits now has taken room, or nothing does. -/
theorem room_of_batch {q r : ClassQueue} (h : q.Extends p.Declares r) (hr : r.accepted.Nodup)
    (hnone : q.waiting = []) :
    room p r + (if r.waiting = [] then 1 else 2) < room p q + 2 := by
  obtain ⟨new, haccepted, hwaiting, -⟩ := id h
  by_cases hsame : r.accepted = q.accepted
  · have hnew : new = [] := List.append_left_eq_self.mp (haccepted.symm.trans hsame)
    have hroom : room p r = room p q := by rw [room, room, hsame]
    rw [hwaiting, hnew, hnone, hroom]
    exact Nat.lt_succ_self _
  · have hroom := room_lt h hr hsame
    split <;> omega

theorem takeBatch_run (g : Progress) (k : Disk) :
    (takeBatch : Task OnDisk _).run.run g k = ((.ok g.queue.batch, taken g), k) := rfl

theorem taken_of_nil (h : g.queue.waiting = []) : taken g = g := by
  obtain ⟨counter, ⟨accepted, waiting⟩, created⟩ := g
  cases h
  rfl

theorem sound_taken (h : g.queue.Sound) : (taken g).queue.Sound := ⟨h.nodup, List.nil_sublist _⟩

theorem drains_of_run {fuel : Nat} {s s' : DrainSummary}
    (h : (d.drainWithin p fuel s : Task OnDisk _).run.run g k = ((.ok s', g'), k')) :
    ∃ log, Drains d p g k log g' k' ∧ s.Counts s' log := by
  induction fuel generalizing s g k with
  | zero => cases h
  | succ fuel ih =>
    unfold drainWithin at h
    rw [run_bind, takeBatch_run] at h
    dsimp only at h
    by_cases hw : g.queue.waiting = []
    · have hempty : g.queue.batch.isEmpty = true := by simp [ClassQueue.batch, hw]
      rw [if_pos hempty, taken_of_nil hw] at h
      cases h
      exact ⟨[], .done hw, rfl, rfl, rfl⟩
    · have hempty : ¬g.queue.batch.isEmpty = true := by simp [ClassQueue.batch, hw]
      rw [if_neg hempty, run_bind] at h
      rcases hr : (g.queue.batch.foldlM (d.drainClass p) { s with batches := s.batches + 1 } :
        Task OnDisk _).run.run (taken g) k with ⟨⟨e | s₁, g₁⟩, k₁⟩ <;> rw [hr] at h
      · cases h
      · obtain ⟨log, htakes, hcounts⟩ := takes_of_run hr
        obtain ⟨more, hdrains, hcounts'⟩ := ih h
        have hcounts : s.Counts s₁ log := ⟨hcounts.extracted, hcounts.upToDate, hcounts.failed⟩
        exact ⟨log ++ more, .batch hw htakes hdrains, hcounts.trans hcounts'⟩

theorem Drains.takes {log : DrainLog} (h : Drains d p g k log g' k') (hsound : g.queue.Sound) :
    g'.queue.waiting = [] ∧ ∃ new, g'.queue.accepted = new ++ g.queue.accepted ∧
      g'.queue.accepted.Nodup ∧ log.ids.Perm (new ++ g.queue.waiting) ∧
      ∀ id ∈ new, p.FromOutside id := by
  induction h with
  | done hw => exact ⟨hw, [], rfl, hsound.nodup, by simp [DrainLog.ids, hw], nofun⟩
  | @batch g g₁ g₂ k k₁ k₂ log more _ first rest ih =>
    have hextends := first.extends
    obtain ⟨new, haccepted, hwaiting, -, hnew⟩ := id hextends
    obtain ⟨hnone, later, haccepted', hnodup, hperm, hlater⟩ :=
      ih ((sound_taken hsound).extends hextends)
    refine ⟨hnone, later ++ new, ?_, hnodup, ?_, fun id hid => ?_⟩
    · rw [haccepted', haccepted, List.append_assoc]
      rfl
    · have hwaiting : g₁.queue.waiting = new := hwaiting.trans (List.append_nil _)
      rw [hwaiting] at hperm
      have hids : log.ids.Perm g.queue.waiting := by
        rw [first.ids]
        exact List.reverse_perm _
      rw [DrainLog.ids, List.map_append]
      exact (hids.append hperm).trans List.perm_append_comm
    · exact (List.mem_append.mp hid).elim (hlater id) fun hid => (hnew id hid).2

theorem drainWithin_ends (hterm : d.Terminates p) {fuel : Nat} (s : DrainSummary) {g : Progress}
    {k : Disk} (hsound : g.queue.Sound)
    (hfuel : room p g.queue + (if g.queue.waiting = [] then 1 else 2) ≤ fuel) :
    ∃ s' g' k', (d.drainWithin p fuel s : Task OnDisk _).run.run g k = ((.ok s', g'), k') := by
  induction fuel generalizing s g k with
  | zero => split at hfuel <;> omega
  | succ fuel ih =>
    unfold drainWithin
    rw [run_bind, takeBatch_run]
    dsimp only
    split
    · exact ⟨_, _, _, rfl⟩
    next hbatch =>
    have hw : g.queue.waiting ≠ [] := fun hw => hbatch (by simp [ClassQueue.batch, hw])
    obtain ⟨s₁, g₁, k₁, hrun⟩ :=
      batch_ends hterm g.queue.batch { s with batches := s.batches + 1 } (taken g) k
    rw [run_bind, hrun]
    obtain ⟨log, htakes, -⟩ := takes_of_run hrun
    have hextends := htakes.extends.mono fun _ => Program.declares_of_fromOutside
    have hsound₁ := (sound_taken hsound).extends hextends
    refine ih s₁ hsound₁ ?_
    have hroom := room_of_batch hextends hsound₁.nodup rfl
    rw [if_neg hw] at hfuel
    exact Nat.le_of_lt_succ (Nat.lt_of_lt_of_le hroom hfuel)

theorem drainWithin_run (hterm : d.Terminates p) {fuel : Nat} {s : DrainSummary} {g : Progress}
    {k : Disk} (hsound : g.queue.Sound)
    (hfuel : room p g.queue + (if g.queue.waiting = [] then 1 else 2) ≤ fuel) :
    ∃ s' log g' k', Drains d p g k log g' k' ∧
      (d.drainWithin p fuel s : Task OnDisk _).run.run g k = ((.ok s', g'), k') ∧
      s.Counts s' log ∧ g'.queue.waiting = [] ∧
      ∃ new, g'.queue.accepted = new ++ g.queue.accepted ∧ g'.queue.accepted.Nodup ∧
        log.ids.Perm (new ++ g.queue.waiting) := by
  obtain ⟨s', g', k', hrun⟩ := drainWithin_ends hterm s hsound hfuel (k := k)
  obtain ⟨log, hdrains, hcounts⟩ := drains_of_run hrun
  obtain ⟨hnone, new, haccepted, hnodup, hperm, -⟩ := hdrains.takes hsound
  exact ⟨s', log, g', k', hdrains, hrun, hcounts, hnone, new, haccepted, hnodup, hperm⟩

/-- If the extraction of each class ends, a drain ends, whatever is scheduled,
and by then it has taken all that was scheduled before or on the way. -/
theorem drain_run (hterm : d.Terminates p) {ids : List DeclId} (hg : g.queue = .scheduling ids)
    (k : Disk) : ∃ s log g' k', (d.drain p : Task OnDisk _).run.run g k = ((.ok s, g'), k') ∧
      Drains d p g k log g' k' ∧ DrainSummary.Counts {} s log ∧ g.queue.Sound ∧
      log.ids.Perm g'.queue.accepted ∧ ∀ id ∈ ids, id ∈ log.ids := by
  obtain ⟨hwaiting, hnodup, hmem⟩ := ClassQueue.scheduling_spec ids
  have hsound : g.queue.Sound := hg ▸ ⟨hnodup, hwaiting ▸ List.Sublist.refl _⟩
  have hfuel : room p g.queue + (if g.queue.waiting = [] then 1 else 2) ≤
      p.declarations.size + 2 := by
    unfold room
    split <;> omega
  obtain ⟨s, log, g', k', hdrains, hrun, hcounts, -, new, haccepted, -, hperm⟩ :=
    drainWithin_run hterm (s := {}) hsound hfuel (k := k)
  have hall : log.ids.Perm g'.queue.accepted := by
    rw [haccepted, hg, ← hwaiting, ← hg]
    exact hperm
  refine ⟨s, log, g', k', hrun, hdrains, hcounts, hsound, hall, fun id hid => ?_⟩
  rw [hall.mem_iff, haccepted, hg]
  exact List.mem_append_right _ ((hmem id).mpr hid)

/-! ## What a drain keeps -/

/-- No class that is taken for the first time breaks this, nor does taking the batch. -/
structure Invariant (d : Destination) (p : Program) (I : DrainLog → Progress → Disk → Prop) :
    Prop where
  taken : ∀ log g k, I log g k → I log (Destination.taken g) k
  step : ∀ (log : DrainLog) (g : Progress) (k : Disk) (id : DeclId) (r : Except ExtractError Bool)
    (g' : Progress) (k' : Disk),
    (d.extractClass p id : Task OnDisk _).run.run g k = ((r, g'), k') → id ∈ g.queue.accepted →
      id ∉ log.ids → I log g k → I (log ++ [(id, .of r)]) g' k'

variable {I : DrainLog → Progress → Disk → Prop} {before log : DrainLog}

theorem Takes.keeps (hI : Invariant d p I) {ids : List DeclId}
    (htakes : Takes d p ids g k log g' k') (hnodup : ids.Nodup)
    (hids : ∀ id ∈ ids, id ∈ g.queue.accepted ∧ id ∉ before.ids) (h : I before g k) :
    I (before ++ log) g' k' := by
  induction htakes generalizing before with
  | nil => rwa [List.append_nil]
  | @cons id ids g g₁ g₂ k k₁ k₂ r log first rest ih =>
    obtain ⟨haccepted, hnew⟩ := hids id (List.mem_cons_self ..)
    obtain ⟨hfirst, hnodup⟩ := List.nodup_cons.mp hnodup
    have h₁ := hI.step before g k id r g₁ k₁ first haccepted hnew h
    have hmore : ∀ other ∈ ids, other ∈ g₁.queue.accepted ∧
        other ∉ DrainLog.ids (before ++ [(id, .of r)]) := by
      intro other hother
      obtain ⟨hother', hbefore⟩ := hids other (List.mem_cons_of_mem _ hother)
      refine ⟨(extends_of_extractClass first).subset hother', ?_⟩
      rw [DrainLog.ids_append, List.mem_append, not_or]
      refine ⟨hbefore, fun he => hfirst ?_⟩
      rwa [← show other = id from List.mem_singleton.mp he]
    rw [List.append_cons before (id, .of r) log]
    exact ih hnodup hmore h₁

theorem Drains.keeps (before : DrainLog) (hI : Invariant d p I)
    (hdrains : Drains d p g k log g' k') (hsound : g.queue.Sound)
    (hbefore : before.ids ⊆ g.queue.accepted)
    (hwaiting : ∀ id ∈ g.queue.waiting, id ∉ before.ids) (h : I before g k) :
    I (before ++ log) g' k' := by
  induction hdrains generalizing before with
  | done => rwa [List.append_nil]
  | @batch g g₁ g₂ k k₁ k₂ log more _ first rest ih =>
    have hbatch (id : DeclId) : id ∈ g.queue.batch ↔ id ∈ g.queue.waiting := List.mem_reverse
    have hnodup : g.queue.batch.Nodup :=
      (List.reverse_perm _).nodup_iff.mpr (hsound.nodup.sublist hsound.waiting)
    have hids : ∀ id ∈ g.queue.batch, id ∈ (taken g).queue.accepted ∧ id ∉ before.ids :=
      fun id hid => ⟨hsound.waiting.subset ((hbatch id).mp hid), hwaiting id ((hbatch id).mp hid)⟩
    have h₁ := first.keeps hI hnodup hids (hI.taken _ _ _ h)
    have hextends := first.extends
    have hsound₁ := (sound_taken hsound).extends hextends
    have hdone : DrainLog.ids (before ++ log) ⊆ (taken g).queue.accepted := by
      rw [DrainLog.ids_append, first.ids]
      exact List.append_subset.mpr ⟨hbefore, fun id hid => (hids id hid).1⟩
    obtain ⟨new, -, hwaiting₁, -, hnew⟩ := id hextends
    -- what waits now was not accepted before the batch, and all that is done was
    have hfresh : ∀ id ∈ g₁.queue.waiting, id ∉ DrainLog.ids (before ++ log) := by
      intro id hid hmem
      rw [hwaiting₁, show (taken g).queue.waiting = [] from rfl, List.append_nil] at hid
      exact (hnew id hid).1 (hdone hmem)
    rw [← List.append_assoc]
    exact ih _ hsound₁ (List.Subset.trans hdone hextends.subset) hfresh h₁

end Destination

end IrFacts
