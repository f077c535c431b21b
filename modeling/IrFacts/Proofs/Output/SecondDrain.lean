import IrFacts.Proofs.Files.Stores
import IrFacts.Proofs.Output.Freshness
import IrFacts.Proofs.Output.Sparing
import Mathlib.Data.List.Dedup

/-!
# Draining again

A class that does not fail leaves behind what the next drain looks for: something under the
path of its trap, and metadata with its fingerprint. No other class takes this away as long as
their traps lie in different places. So a second drain finds all classes of the first one up
to date and changes no file.
-/

set_option autoImplicit false

namespace IrFacts

/-! ## One class -/

namespace ClassTrap

open IrFacts.Task

variable {d : Destination} {p : Program} {id : DeclId} {t : ClassTrap}
variable {touched made : Location → Prop} {g : Progress} {k l : Disk}

/-- The trap of a class is found, and metadata that vouch for the class are read. -/
structure Kept (t : ClassTrap) (k : Disk) : Prop where
  trap : k.present t.trap = true
  metadata : ∃ file text, k.fileAt t.metadata = .ok file ∧
    String.fromUTF8? (k.contentsOf file) = some text ∧ vouches text t.fingerprint = true

theorem Kept.spared (h : t.Kept k) (hk : k.Issued)
    (hs : Disk.Spares (· < k.nextFile) touched made k l)
    (htrap : ¬touched (t.trap.locationFrom k.here)) (hplace : ¬touched (t.place k.here)) :
    t.Kept l := by
  obtain ⟨file, text, hfile, htext, hvouches⟩ := h.metadata
  refine ⟨hs.present h.trap htrap, file, text, hs.fileAt hfile hplace, ?_, hvouches⟩
  rw [hs.contents file (hk _ file (Disk.fileAt_ok hfile)), htext]

theorem Kept.counted (h : t.Kept k) : t.Kept k.counted := by
  obtain ⟨file, text, hfile, hrest⟩ := h.metadata
  exact ⟨(Disk.present_counted _).trans h.trap, file, text,
    (Disk.fileAt_counted _).trans hfile, hrest⟩

theorem readMetadata_reads :
    Yields t.readMetadata g k fun found _ l => l = k.counted ∧ ∀ text, found = some text →
      ∃ file, k.fileAt t.metadata = .ok file ∧
        String.fromUTF8? (k.contentsOf file) = some text := by
  refine yields_bind (yields_ask ?_)
  rcases hr : Files.read (m := OnDisk) t.metadata k with ⟨e | bytes, l⟩
  · cases e with
    | notFound => exact yields_pure ⟨OnDisk.attempt_error hr, nofun⟩
    | _ => exact yields_throw _
  · have hread := OnDisk.attempt_ok hr
    unfold Disk.read at hread
    cases hfile : k.counted.fileAt t.metadata with
    | error e =>
      rw [hfile] at hread
      cases hread
    | ok file =>
      rw [hfile] at hread
      cases hread
      dsimp only
      split
      · next text htext =>
        refine yields_pure ⟨rfl, ?_⟩
        rintro _ ⟨⟩
        rw [Disk.fileAt_counted] at hfile
        exact ⟨file, hfile, htext⟩
      · exact yields_throw _

theorem plan_of_found (ht : ofClass d p id = .ok t) (hpresent : k.present t.trap = true)
    {file : Nat} {text : String} (hfile : k.fileAt t.metadata = .ok file)
    (htext : String.fromUTF8? (k.contentsOf file) = some text)
    (hfree : k.refuses k.calls = none) (g : Progress) :
    (plan d p id : Task OnDisk _).run.run g k =
      if vouches text t.fingerprint then ((.ok .upToDate, g), k.counted)
      else (do
        t.discard
        return .write t : Task OnDisk _).run.run g k.counted := by
  have hread : Files.read (m := OnDisk) t.metadata k = (.ok (k.contentsOf file), k.counted) := by
    refine OnDisk.attempt_of_ok hfree ?_
    rw [Disk.read, Disk.fileAt_counted, hfile]
    rfl
  have hmetadata : (t.readMetadata : Task OnDisk _).run.run g k =
      ((.ok (some text), g), k.counted) := by
    unfold readMetadata
    rw [run_bind, run_ask, hread]
    dsimp only
    rw [htext]
    rfl
  unfold plan
  rw [ht, run_bind, show (ExceptT.mk (pure (.ok t)) : Task OnDisk _).run.run g k =
    ((.ok t, g), k) from rfl]
  dsimp only
  rw [run_bind, run_ask, show (Files.present (m := OnDisk) t.trap k) =
    (k.present t.trap, k) from rfl, hpresent]
  dsimp only
  rw [if_pos rfl, run_bind, hmetadata]
  dsimp only
  split <;> rfl

/-- A class that is kept is up to date, if its metadata can be read. -/
theorem plan_of_kept (ht : ofClass d p id = .ok t) (h : t.Kept k) (hk : k.Willing)
    (g : Progress) :
    (plan d p id : Task OnDisk _).run.run g k = ((.ok .upToDate, g), k.counted) := by
  obtain ⟨file, text, hfile, htext, hvouches⟩ := h.metadata
  rw [plan_of_found ht h.trap hfile htext (hk _ (Nat.le_refl _)), if_pos hvouches]

theorem plan_keeps (ht : ofClass d p id = .ok t) :
    Yields (plan d p id) g k fun a _ l => a = .upToDate → t.Kept l := by
  unfold plan
  rw [ht]
  refine yields_bind (yields_pure (yields_bind (yields_ask ?_)))
  split
  · next hpresent =>
    refine yields_bind (readMetadata_reads.mono ?_)
    rintro found g₁ l ⟨rfl, hfound⟩
    split
    · exact yields_pure nofun
    · next text =>
      obtain ⟨file, hfile, htext⟩ := hfound text rfl
      split
      · next hvouches =>
        have hkept : t.Kept k := ⟨hpresent, file, text, hfile, htext, hvouches⟩
        exact yields_pure fun _ => hkept.counted
      · exact yields_bind (Yields.mono (P := fun _ _ _ => True) (fun _ _ => trivial)
          fun _ _ _ _ => yields_pure nofun)
  · exact yields_pure nofun

/-- A sidecar that was replaced is reached under its path, and the trap is still found. -/
theorem replaceSidecar_reaches (ht : ofClass d p id = .ok t) {path : Path} {name : String}
    (hname : path.fileName? = some name) {c : Char}
    (hlast : Path.lastChar? (path.locationFrom k.here) = some c) (hc : c ≠ 'z')
    (htrap : k.present t.trap = true) (contents : String) :
    Yields (replaceSidecar path contents) g k fun _ _ l => l.present t.trap = true ∧
      ∃ file, l.fileAt path = .ok file ∧ l.contentsOf file = contents.toUTF8 := by
  have hne : path.locationFrom k.here ≠ t.trap.locationFrom k.here := by
    intro hsame
    rw [hsame, lastChar?_trap ht] at hlast
    exact hc (Option.some.inj hlast).symm
  have hsparing : Sparing k.here (fun _ => False) (· ≠ t.trap.locationFrom k.here) (fun _ => True)
      (replaceSidecar path contents : Task OnDisk _) :=
    sparing_replaceSidecar hname ⟨hne, trivial, fun _ => trivial⟩ contents
  have hspares := hsparing g k ⟨rfl, nofun⟩
  exact yields_io fun _ hreplaced => ⟨hspares.present htrap fun h => h rfl,
    OnDisk.fileAt_of_replace (Prod.ext hreplaced rfl)⟩

theorem commit_keeps_present (ht : ofClass d p id = .ok t) (dependencies : List DeclId)
    (htrap : k.present t.trap = true) :
    Yields (t.commit p dependencies) g k fun _ _ l => t.Kept l := by
  obtain ⟨-, ⟨dep, hdep⟩, metadata, hmeta⟩ := fileName?_of_ofClass ht
  refine yields_bind ((replaceSidecar_reaches ht hdep (lastChar?_dependencies ht) (by decide)
    htrap _).mono ?_)
  rintro - g₁ k₁ ⟨htrap₁, -⟩
  refine yields_bind ((replaceSidecar_reaches ht hmeta (lastChar?_place ht) (by decide)
    htrap₁ _).mono ?_)
  rintro - g₂ k₂ ⟨htrap₂, file, hfile, hcontents⟩
  exact yields_modify ⟨htrap₂, file, _, hfile, by rw [hcontents, fromUTF8?_toUTF8],
    vouches_metadataOf ht⟩

end ClassTrap

namespace Destination

open IrFacts.Task

variable {d : Destination} {p : Program} {id : DeclId} {t : ClassTrap}
variable {g g' : Progress} {k k' : Disk}

theorem extractClass_keeps (ht : ClassTrap.ofClass d p id = .ok t) :
    Yields (d.extractClass p id) g k fun _ _ l => t.Kept l := by
  refine yields_bind fun a ha => ?_
  have hkeeps := ClassTrap.plan_keeps ht a ha
  rcases (ClassTrap.plan_yields ht a ha).2 with rfl | ⟨rfl, -⟩
  · refine yields_bind (ClassTrap.extract_writes.mono ?_)
    rintro ids g₂ k₂ ⟨-, file, -, hfile, -⟩
    exact yields_bind ((ClassTrap.commit_keeps_present ht ids (Disk.present_of_fileAt hfile)).mono
      fun _ _ _ hkept => yields_pure hkept)
  · exact yields_pure (hkeeps rfl)

/-! ## The first drain -/

def Kept (d : Destination) (p : Program) (id : DeclId) (k : Disk) : Prop :=
  ∃ t, ClassTrap.ofClass d p id = .ok t ∧ t.Kept k

/-- The traps of different classes lie in different places. -/
def DistinctTraps (d : Destination) (p : Program) (here : Location) (ids : DeclId → Prop) : Prop :=
  ∀ a b t u, ids a → ids b → ClassTrap.ofClass d p a = .ok t → ClassTrap.ofClass d p b = .ok u →
    t.trap.locationFrom here = u.trap.locationFrom here → a = b

theorem roomIn_footprint (ht : ClassTrap.ofClass d p id = .ok t) (here : Location) :
    t.RoomIn here (t.Footprint here) (t.Footprint here) := by
  have hroom {location : Location} (h : t.Footprint here location) :
      Disk.Room (t.Footprint here) (t.Footprint here) location :=
    ⟨h, h, fun name => .inr (.inr (Path.lastChar?_append _ name rfl))⟩
  have hfiles : t.FilesIn here (t.Footprint here) := ClassTrap.filesIn_footprint ht
  exact ⟨hroom hfiles.trap, hroom hfiles.dependencies, hroom hfiles.metadata⟩

theorem Kept.spared {other : DeclId} (h : d.Kept p other k) (hk : k.Issued)
    (ht : ClassTrap.ofClass d p id = .ok t)
    (hapart : ∀ u, ClassTrap.ofClass d p other = .ok u →
      u.trap.locationFrom k.here ≠ t.trap.locationFrom k.here)
    {made : Location → Prop} (hs : Disk.Spares (· < k.nextFile) (t.Footprint k.here) made k k') :
    d.Kept p other k' := by
  obtain ⟨u, hu, hkept⟩ := h
  obtain ⟨hplace, htrap⟩ := ClassTrap.not_footprint ht hu
    fun hplace => hapart u hu ((ClassTrap.trap_eq_iff ht hu).mpr hplace)
  exact ⟨u, hu, hkept.spared hk hs htrap hplace⟩

/-- How things stand when the classes of a log were taken and none has failed. -/
structure Standing (d : Destination) (p : Program) (reached : DeclId → Prop) (here : Location)
    (log : DrainLog) (g : Progress) (k : Disk) : Prop where
  here : k.here = here
  issued : k.Issued
  reached : ∀ id ∈ g.queue.accepted, reached id
  accepted : log.ids ⊆ g.queue.accepted
  kept : ∀ id ∈ log.ids, d.Kept p id k

variable {reached : DeclId → Prop} {here : Location} {log : DrainLog}

/-- A class that is taken and does not fail is kept, and the others stay so. -/
theorem Standing.step (htraps : d.DistinctTraps p here reached)
    (houtside : ∀ id, p.FromOutside id → reached id) (h : d.Standing p reached here log g k)
    (hid : id ∈ g.queue.accepted) (hnew : id ∉ log.ids) {written : Bool}
    (hrun : (d.extractClass p id : Task OnDisk _).run.run g k = ((.ok written, g'), k')) :
    d.Standing p reached here (log ++ [(id, .of (.ok written))]) g' k' := by
  cases ht : ClassTrap.ofClass d p id with
  | error e =>
    rw [run_extractClass_of_error ht] at hrun
    cases hrun
  | ok t =>
    have hroom : ∀ u, ClassTrap.ofClass d p id = .ok u →
        u.RoomIn k.here (t.Footprint k.here) (t.Footprint k.here) := fun u hu => by
      cases ht.symm.trans hu
      exact roomIn_footprint ht k.here
    have hspares : Spares (· < k.nextFile) (t.Footprint k.here) (t.Footprint k.here)
        (d.extractClass p id) g k := sparing_extractClass hroom g k ⟨rfl, fun _ h => h⟩
    unfold Spares After at hspares
    rw [hrun] at hspares
    have hextends := extends_of_extractClass hrun
    have hsubset := hextends.subset
    obtain ⟨new, haccepted, -, -, hnew'⟩ := hextends
    refine ⟨hspares.here.trans h.here, hspares.issued h.issued, fun other hother => ?_,
      fun other hother => ?_, fun other hother => ?_⟩
    · rw [haccepted] at hother
      rcases List.mem_append.mp hother with hother | hother
      · exact houtside other (hnew' other hother).2
      · exact h.reached other hother
    · rw [DrainLog.ids_append, List.mem_append] at hother
      rcases hother with hother | hother
      · exact hsubset (h.accepted hother)
      · exact hsubset (List.mem_singleton.mp hother ▸ hid)
    · rw [DrainLog.ids_append, List.mem_append] at hother
      rcases hother with hother | hother
      · refine (h.kept other hother).spared h.issued ht (fun u hu hsame => hnew ?_) hspares
        rw [h.here] at hsame
        exact htraps other id u t (h.reached other (h.accepted hother)) (h.reached id hid) hu ht
          hsame ▸ hother
      · obtain rfl : other = id := List.mem_singleton.mp hother
        exact ⟨t, ht, (extractClass_keeps ht).of_run hrun⟩

theorem standing_invariant (htraps : d.DistinctTraps p here reached)
    (houtside : ∀ id, p.FromOutside id → reached id) :
    Invariant d p fun log g k => (∀ e ∈ log, e.2 ≠ .failed) →
      d.Standing p reached here log g k where
  taken log g k h hok := by
    obtain ⟨hhere, hissued, hreached, haccepted, hkept⟩ := h hok
    exact ⟨hhere, hissued, hreached, haccepted, hkept⟩
  step log g k id r g' k' hrun hid hnew h hok := by
    have hstanding := h fun e he => hok e (List.mem_append_left _ he)
    cases r with
    | error e => exact absurd rfl (hok _ (List.mem_append_right _ (List.mem_cons_self ..)))
    | ok written => exact hstanding.step htraps houtside hid hnew hrun

theorem keeps_of_drain (hk : k.Issued) {ids : List DeclId} (hg : g.queue = .scheduling ids)
    (htraps : d.DistinctTraps p k.here fun id => id ∈ ids ∨ p.FromOutside id) {s : DrainSummary}
    (hrun : (d.drain p : Task OnDisk _).run.run g k = ((.ok s, g'), k')) (hfailed : s.failed = 0) :
    ∀ id ∈ g'.queue.accepted, d.Kept p id k' := by
  obtain ⟨hwaiting, hnodup, hmem⟩ := ClassQueue.scheduling_spec ids
  have hsound : g.queue.Sound := hg ▸ ⟨hnodup, hwaiting ▸ List.Sublist.refl _⟩
  obtain ⟨log, hdrains, hcounts⟩ := drains_of_run hrun
  obtain ⟨-, new, haccepted, -, hperm, -⟩ := hdrains.takes hsound
  have hok : ∀ e ∈ log, e.2 ≠ .failed := fun e he =>
    DrainLog.ne_failed_of_tally (by rw [← hfailed, hcounts.failed, Nat.zero_add]) he
  have hstanding : d.Standing p (fun id => id ∈ ids ∨ p.FromOutside id) k.here log g' k' := by
    refine hdrains.keeps [] (standing_invariant htraps fun _ => .inr) hsound (List.nil_subset _)
      (fun _ _ => List.not_mem_nil) (fun _ => ⟨rfl, hk, fun id hid => ?_, List.nil_subset _,
        nofun⟩) hok
    exact .inl ((hmem id).mp (hg ▸ hid))
  intro id hid
  refine hstanding.kept id (hperm.mem_iff.mpr ?_)
  rwa [haccepted, hg, ← hwaiting, ← hg] at hid

/-! ## The second drain -/

theorem drainClass_of_kept (h : d.Kept p id k) (hk : k.Willing) (s : DrainSummary)
    (g : Progress) :
    (d.drainClass p s id : Task OnDisk _).run.run g k =
      ((.ok { s with upToDate := s.upToDate + 1 }, g), k.counted) := by
  obtain ⟨t, ht, hkept⟩ := h
  unfold drainClass extractClass
  rw [run_tryCatch, run_bind, run_bind, ClassTrap.plan_of_kept ht hkept hk]
  rfl

/-- A batch of classes that are kept: each is counted, and its metadata are read. -/
theorem batch_of_kept {ids : List DeclId} (h : ∀ id ∈ ids, d.Kept p id k) (hk : k.Willing)
    (s : DrainSummary) (g : Progress) :
    (ids.foldlM (d.drainClass p) s : Task OnDisk _).run.run g k =
      ((.ok { s with upToDate := s.upToDate + ids.length }, g),
        { k with calls := k.calls + ids.length }) := by
  induction ids generalizing s k with
  | nil => rfl
  | cons id ids ih =>
    have hrest : ∀ other ∈ ids, d.Kept p other k.counted := fun other hother => by
      obtain ⟨t, ht, hkept⟩ := h other (List.mem_cons_of_mem _ hother)
      exact ⟨t, ht, hkept.counted⟩
    rw [List.foldlM_cons, run_bind, drainClass_of_kept (h id List.mem_cons_self) hk]
    dsimp only
    rw [ih hrest hk.counted, List.length_cons, Nat.add_assoc, Nat.add_comm 1]
    simp only [Disk.counted, Nat.add_assoc, Nat.add_comm 1]

/-- A drain is over when its first batch schedules nothing. -/
theorem drain_of_batch {s : DrainSummary} (hw : g.queue.waiting ≠ [])
    (hbatch : (g.queue.batch.foldlM (d.drainClass p) { batches := 1 } :
      Task OnDisk _).run.run (taken g) k = ((.ok s, g'), k'))
    (hdone : g'.queue.waiting = []) :
    (d.drain p : Task OnDisk _).run.run g k = ((.ok s, g'), k') := by
  have hbusy : ¬g.queue.batch.isEmpty = true := by simp [ClassQueue.batch, hw]
  have hempty : g'.queue.batch.isEmpty = true := by simp [ClassQueue.batch, hdone]
  unfold drain drainWithin
  rw [run_bind, takeBatch_run]
  dsimp only
  rw [if_neg hbusy, run_bind, hbatch]
  dsimp only
  unfold drainWithin
  rw [run_bind, takeBatch_run, taken_of_nil hdone]
  dsimp only
  rw [if_pos hempty]
  rfl

theorem drain_of_kept (h : ∀ id ∈ g.queue.waiting, d.Kept p id k) (hk : k.Willing) :
    (d.drain p : Task OnDisk _).run.run g k =
      ((.ok ⟨0, g.queue.waiting.length, 0, if g.queue.waiting = [] then 0 else 1⟩, taken g),
        { k with calls := k.calls + g.queue.waiting.length }) := by
  by_cases hw : g.queue.waiting = []
  · have hempty : g.queue.batch.isEmpty = true := by simp [ClassQueue.batch, hw]
    unfold drain drainWithin
    rw [run_bind, takeBatch_run]
    dsimp only
    rw [if_pos hempty, if_pos hw, hw]
    rfl
  · have hbatch : ∀ id ∈ g.queue.batch, d.Kept p id k :=
      fun id hid => h id (List.mem_reverse.mp hid)
    refine drain_of_batch hw ((batch_of_kept hbatch hk _ _).trans ?_) rfl
    simp [ClassQueue.batch, hw]

/-- As long as the traps of the scheduled classes and of those from outside lie in different
places, draining is idempotent: after a drain in which no class failed, a second one that starts
with any of the classes of the first finds each of them up to date. It lists no trap, counts no
diagnostics and changes no file. -/
theorem drain_again (hk : k.Issued) {ids more : List DeclId} (hg : g.queue = .scheduling ids)
    (htraps : d.DistinctTraps p k.here fun id => id ∈ ids ∨ p.FromOutside id) {s : DrainSummary}
    (hrun : (d.drain p : Task OnDisk _).run.run g k = ((.ok s, g'), k')) (hfailed : s.failed = 0)
    (hmore : more ⊆ g'.queue.accepted) {h : Progress} (hh : h.queue = .scheduling more)
    (hwilling : k'.Willing) :
    ∃ h' calls, (d.drain p : Task OnDisk _).run.run h k' =
        ((.ok ⟨0, more.dedup.length, 0, if more = [] then 0 else 1⟩, h'), { k' with calls }) ∧
      h'.created = h.created ∧ h'.counter = h.counter := by
  obtain ⟨hwaiting, hnodup, hmem⟩ := ClassQueue.scheduling_spec more
  rw [← hwaiting, ← hh] at hnodup hmem
  have hkept := keeps_of_drain hk hg htraps hrun hfailed
  have hsecond := drain_of_kept (fun id hid => hkept id (hmore ((hmem id).mp hid))) hwilling
  have hlength : h.queue.waiting.length = more.dedup.length :=
    ((List.perm_ext_iff_of_nodup hnodup (List.nodup_dedup more)).mpr fun id =>
      (hmem id).trans List.mem_dedup.symm).length_eq
  have hnone : h.queue.waiting = [] ↔ more = [] := by
    simp only [List.eq_nil_iff_forall_not_mem, hmem]
  rw [hlength, if_congr hnone rfl rfl] at hsecond
  exact ⟨taken h, _, hsecond, rfl, rfl⟩

/-! ## Examples -/

/-- The summaries of a drain and of another one after it, both of which start with the same
classes, and the classes that the first one accepted. -/
def drainTwice (d : Destination) (p : Program) (ids : List DeclId) (k : Disk) :
    Option (DrainSummary × List DeclId × DrainSummary) :=
  let first := (d.drain p : Task OnDisk _).run.run { queue := .scheduling ids } k
  let second := (d.drain p : Task OnDisk _).run.run { queue := .scheduling ids } first.2
  match first.1.1, second.1.1 with
  | .ok s, .ok s' => some (s, first.1.2.queue.accepted, s')
  | _, _ => none

theorem runs_of_drainTwice {ids accepted : List DeclId} {s s' : DrainSummary}
    (h : d.drainTwice p ids k = some (s, accepted, s')) :
    ∃ g' k' h' k'',
      (d.drain p : Task OnDisk _).run.run { queue := .scheduling ids } k = ((.ok s, g'), k') ∧
      g'.queue.accepted = accepted ∧
      (d.drain p : Task OnDisk _).run.run { queue := .scheduling ids } k' =
        ((.ok s', h'), k'') := by
  unfold drainTwice at h
  dsimp only at h
  split at h
  · next s₁ s₂ hfirst hsecond =>
    cases h
    exact ⟨_, _, _, _, Prod.ext (Prod.ext hfirst rfl) rfl, rfl,
      Prod.ext (Prod.ext hsecond rfl) rfl⟩
  · cases h

theorem willing_of_drain {r : Except ExtractError DrainSummary} (hk : k.Willing)
    (hrun : (d.drain p : Task OnDisk _).run.run g k = ((r, g'), k')) : k'.Willing := by
  have hroom (location : Location) : Disk.Room (fun _ => True) (fun _ => True) location :=
    ⟨trivial, trivial, fun _ => trivial⟩
  have hspares : Spares (fun _ => False) (fun _ => True) (fun _ => True) (d.drain p) g k :=
    sparing_drain (fun _ _ _ => ⟨hroom _, hroom _, hroom _⟩) g k ⟨rfl, nofun⟩
  unfold Spares After at hspares
  rw [hrun] at hspares
  exact hspares.willing hk

theorem willing_ofFolder (names : Location) : (Disk.ofFolder names).Willing := fun _ _ => rfl

theorem issued_ofFolder (names : Location) : (Disk.ofFolder names).Issued :=
  fun location id he => absurd he (Disk.entry?_ofFolder names location id)

theorem mutualPair_distinctTraps (d : Destination) (here : Location) (ids : DeclId → Prop) :
    d.DistinctTraps ClassTrap.mutualPair here ids := fun a b t u ha hb ht hu htraps =>
  mutualPair_distinctPlaces d here ids a b t u ha hb ht hu
    ((ClassTrap.trap_eq_iff hu ht).mp htraps)

/-- Of two interfaces one is scheduled, and both are extracted. Neither is when both are scheduled
again. -/
theorem drain_again_mutualPair :
    let d : Destination := ⟨⟨"trap"⟩, "inv"⟩
    let g (ids : List DeclId) : Progress := { queue := .scheduling ids }
    ∃ g' k' h' calls, (d.drain ClassTrap.mutualPair : Task OnDisk _).run.run (g [⟨0⟩])
        (.ofFolder ["home"]) = ((.ok ⟨2, 0, 0, 2⟩, g'), k') ∧
      (d.drain ClassTrap.mutualPair : Task OnDisk _).run.run (g [⟨0⟩, ⟨1⟩]) k' =
        ((.ok ⟨0, 2, 0, 1⟩, h'), { k' with calls }) := by
  intro d g
  obtain ⟨g', k', hrun, haccepted⟩ := mutualPair_drained
  have hmore : [⟨0⟩, ⟨1⟩] ⊆ g'.queue.accepted := haccepted ▸ by decide
  have hboth : (g [⟨0⟩, ⟨1⟩]).queue = .scheduling [⟨0⟩, ⟨1⟩] := rfl
  obtain ⟨h', calls, hsecond, -⟩ := drain_again (issued_ofFolder _) rfl
    (mutualPair_distinctTraps d _ _) hrun rfl hmore hboth
    (willing_of_drain (willing_ofFolder _) hrun)
  exact ⟨g', k', h', calls, hrun, hsecond⟩

/-- An interface from outside has the name of an interface that is not, and a function from outside
belongs to the latter. -/
def namesakes : Program :=
  { files := #[]
    declarations := #[
      { parent := .package "p", kind := .class { name := "A", kind := .interface } },
      { parent := .package "p", origin := .externalStub
        kind := .class { name := "A", kind := .interface, typeParameters := [⟨3⟩] } },
      { parent := .decl ⟨0⟩, origin := .externalStub
        kind := .function { name := "m", returnType := .ofClass ⟨1⟩ [] } },
      { parent := .decl ⟨2⟩, kind := .typeParameter { name := "T", index := 0 } }]
    classIndex := [("p.A", ⟨0⟩)] }

/-- The only class of them that is from outside itself. -/
theorem namesakes_external {id : DeclId} (hid : namesakes.isExternal id = true)
    (ht : ClassTrap.ofClass d namesakes id = .ok t) : id = ⟨1⟩ := by
  obtain ⟨name, c, hname, hdecl, -⟩ := ClassTrap.ofClass_ok ht
  obtain ⟨hlt, -⟩ := Array.getElem?_eq_some_iff.mp hdecl
  obtain ⟨index⟩ := id
  have hindex : index = 0 ∨ index = 1 ∨ index = 2 ∨ index = 3 := by
    have hlt : index.toNat < 4 := hlt
    simp only [← UInt32.toNat_inj, UInt32.reduceToNat]
    omega
  rcases hindex with rfl | rfl | rfl | rfl
  · exact absurd hid (by decide)
  · rfl
  · have hnone : namesakes.binaryName? ⟨2⟩ = none := by decide +kernel
    cases hnone.symm.trans hname
  · exact absurd hid (by decide)

set_option maxRecDepth 100000 in
/-- It is not enough that the traps of the classes that are marked as from outside are distinct:
those that functions from outside belong to are extracted as well. Then a second drain starts with a
class whose metadata were replaced, and extracts it again. Nor does it find all classes up to date
when a file operation of its own fails. -/
theorem drain_again_fails :
    let d : Destination := ⟨⟨"trap"⟩, "inv"⟩
    let g : Progress := { queue := .scheduling [⟨1⟩] }
    let k : Disk := .ofFolder ["home"]
    let l : Disk := { k with refuses := fun n => if n = 24 then some (.other "refused") else none }
    (k.Issued ∧ d.DistinctTraps namesakes k.here (fun id => namesakes.isExternal id = true) ∧
      namesakes.isExternal ⟨1⟩ = true ∧ ∃ s g' k', k'.Willing ∧
        (d.drain namesakes : Task OnDisk _).run.run g k = ((.ok s, g'), k') ∧ s.failed = 0 ∧
        [⟨1⟩] ⊆ g'.queue.accepted ∧ ∃ s' h' k'',
          (d.drain namesakes : Task OnDisk _).run.run g k' = ((.ok s', h'), k'') ∧
          s'.extracted = 2) ∧
    l.Issued ∧ (∀ ids, d.DistinctTraps ClassTrap.mutualPair l.here ids) ∧ ∃ s g' l',
      (d.drain ClassTrap.mutualPair : Task OnDisk _).run.run g l = ((.ok s, g'), l') ∧
      s.failed = 0 ∧ [⟨1⟩] ⊆ g'.queue.accepted ∧ ∃ s' h' l'',
        (d.drain ClassTrap.mutualPair : Task OnDisk _).run.run g l' = ((.ok s', h'), l'') ∧
        s'.failed = 1 := by
  intro d g k l
  refine ⟨⟨issued_ofFolder _, fun a b t u ha hb ht hu _ => ?_, by decide, ?_⟩,
    issued_ofFolder _, mutualPair_distinctTraps d _, ?_⟩
  · exact (namesakes_external ha ht).trans (namesakes_external hb hu).symm
  · have htwice : d.drainTwice namesakes [⟨1⟩] k =
        some (⟨2, 0, 0, 2⟩, [⟨0⟩, ⟨1⟩], ⟨2, 0, 0, 2⟩) := by decide +kernel
    obtain ⟨g', k', h', k'', hfirst, haccepted, hsecond⟩ := runs_of_drainTwice htwice
    exact ⟨_, g', k', willing_of_drain (willing_ofFolder _) hfirst, hfirst, rfl,
      haccepted ▸ by decide, _, h', k'', hsecond, rfl⟩
  · have htwice : d.drainTwice ClassTrap.mutualPair [⟨1⟩] l =
        some (⟨2, 0, 0, 2⟩, [⟨0⟩, ⟨1⟩], ⟨0, 0, 1, 1⟩) := by decide +kernel
    obtain ⟨g', k', h', k'', hfirst, haccepted, hsecond⟩ := runs_of_drainTwice htwice
    exact ⟨_, g', k', hfirst, rfl, haccepted ▸ by decide, _, h', k'', hsecond, rfl⟩

end Destination

end IrFacts
