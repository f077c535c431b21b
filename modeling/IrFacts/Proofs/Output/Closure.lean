import IrFacts.Proofs.Output.DrainLog
import IrFacts.Proofs.Output.Vouching
import IrFacts.Proofs.Text.Bytes

/-!
# A drain computes a closure

Where the trap directory was empty and no class fails, no class is found up to
date: all metadata in it are those of classes that the drain has taken, and
they do not vouch for another one. So the classes that are extracted are those
that can be reached from the scheduled ones, in whatever order these come.
-/

set_option autoImplicit false

namespace IrFacts

namespace ClassQueue

/-- Where nothing may be scheduled a queue stays as it is. -/
theorem Extends.accepted_eq {q r : ClassQueue} (h : q.Extends (fun _ => False) r) :
    r.accepted = q.accepted := by
  obtain ⟨new, haccepted, -, -, hnew⟩ := h
  have hnone : new = [] := List.eq_nil_iff_forall_not_mem.mpr fun id hid => (hnew id hid).2
  rw [haccepted, hnone, List.nil_append]

end ClassQueue

namespace Program

def DistinctNames (p : Program) (ids : DeclId → Prop) : Prop :=
  ∀ a b name, ids a → ids b → p.binaryName? a = some name → p.binaryName? b = some name → a = b

/-- No name of the classes leads out of the trap directory. -/
def StaysInside (p : Program) (ids : DeclId → Prop) : Prop :=
  ∀ id name, ids id → p.binaryName? id = some name → ¬ClassTrap.LeadsOut name

end Program

namespace ClassTrap

open IrFacts.Task

variable {d : Destination} {p : Program} {id : DeclId} {t : ClassTrap}
variable {touched : Location → Prop} {k k' : Disk}

/-! ## What metadata tell -/

theorem zero_notMem_name (ht : ofClass d p id = .ok t) (hclean : t.metadata.Clean) {name : String}
    (hname : p.binaryName? id = some name) : '\x00' ∉ name.toList := by
  obtain ⟨stem, -, -, hmeta, hstem⟩ := stem_of_ofClass ht
  intro hzero
  apply hclean
  rw [hmeta, String.toList_append]
  exact List.mem_append_left _ (hstem name hname _ hzero (by decide))

theorem eq_of_current {reached : DeclId → Prop} (hnames : p.DistinctNames reached)
    (hfree : p.CollisionFree reached) {other : DeclId} {u : ClassTrap} (hid : reached id)
    (hother : reached other) (ht : ofClass d p id = .ok t) (hu : ofClass d p other = .ok u)
    (hplace : t.place k.here = u.place k.here) (hv : t.Vouched k) (hc : u.Current k) :
    id = other := by
  obtain ⟨name, c, hname, hdecl, -, hdigest, -⟩ := ofClass_ok ht
  obtain ⟨name', c', hname', hdecl', -, hdigest', -⟩ := ofClass_ok hu
  obtain ⟨hclean, file, hentry, -, hcontents⟩ := hv
  obtain ⟨hclean', file', text, hentry', htext, hvouches⟩ := hc
  obtain rfl : file = file' := by
    rw [hplace, hentry'] at hentry
    cases hentry
    rfl
  obtain rfl : metadataOf t.fingerprint ++ "\n" = text := by
    rw [hcontents, fromUTF8?_toUTF8] at htext
    exact Option.some.inj htext
  rw [hdigest] at hvouches
  have hbytes := hfree id other c c' hid hother hdecl hdecl'
    ((fingerprint_of_vouches hvouches).trans hdigest')
  obtain rfl := Program.binaryName_of_fingerprintBytes hname hname'
    (zero_notMem_name ht hclean hname) (zero_notMem_name hu hclean' hname') hbytes
  exact hnames id other name hid hother hname hname'

theorem Vouched.frame (h : t.Vouched k) (hk : k.Issued) (hframe : Disk.Frame touched k k')
    (ht : ¬touched (t.place k.here)) : t.Vouched k' := by
  obtain ⟨hclean, file, hentry, halone, hcontents⟩ := h
  refine ⟨hclean, file, ?_, ?_, ?_⟩
  · rw [hframe.here]
    exact (hframe.file ht).mpr hentry
  · rw [hframe.here]
    exact hframe.alone hk _ ht halone
  · rw [hframe.contents hk _ file ht halone hentry, hcontents]

/-! ## What is scheduled -/

theorem extract_accepts {g : Progress} :
    Yields (t.extract d p) g k fun _ g' _ => ∀ other,
      other ∈ g'.queue.accepted ↔ other ∈ g.queue.accepted ∨ t.Refers d p other := by
  refine (extract_yields t d p g k).mono ?_
  rintro _ g' _ ⟨s, hs, -, hqueue⟩
  rw [hqueue]
  exact accepted_of_extraction hs

end ClassTrap

namespace Destination

open IrFacts.Task

variable {d : Destination} {p : Program} {id : DeclId} {g g' : Progress} {k k' : Disk}

/-- A class that is written schedules what it refers to, and another one schedules nothing. -/
theorem extractClass_accepts {t : ClassTrap} (ht : ClassTrap.ofClass d p id = .ok t) :
    Yields (d.extractClass p id) g k fun written g' _ => ∀ other,
      other ∈ g'.queue.accepted ↔
        other ∈ g.queue.accepted ∨ written = true ∧ t.Refers d p other := by
  refine yields_extractClass ht (fun k₁ _ => ?_) fun _ _ _ other => by simp
  refine ClassTrap.extract_accepts.mono fun ids g₂ k₂ haccepts => ?_
  have hcommit : Bounded (fun _ => False) k₂.here (t.Own k₂.here)
      (t.commit p ids : Task OnDisk _) :=
    ClassTrap.bounded_commit (ClassTrap.filesIn_own ht).toSidecarsIn ids
  intro _ _ other
  rw [(hcommit g₂ k₂ rfl).1.accepted_eq, haccepts other]
  simp

/-- The least set with these classes and with whatever is scheduled while one
of them is extracted. -/
inductive Reached (d : Destination) (p : Program) (scheduled : DeclId → Prop) : DeclId → Prop where
  | scheduled {id : DeclId} (h : scheduled id) : Reached d p scheduled id
  | referred {id other : DeclId} (h : Reached d p scheduled id) (refers : d.Refers p id other) :
      Reached d p scheduled other

def EmptyTrapDir (d : Destination) (k : Disk) : Prop :=
  ∀ more, more ≠ [] → k.entry? (d.trapDir.locationFrom k.here ++ more) = none

/-- In an empty trap directory there are no metadata of a class whose name does not lead out. -/
theorem EmptyTrapDir.entry?_place (h : d.EmptyTrapDir k) {t : ClassTrap}
    (ht : ClassTrap.ofClass d p id = .ok t)
    (hinside : ∀ name, p.binaryName? id = some name → ¬ClassTrap.LeadsOut name) :
    k.entry? (t.place k.here) = none := by
  obtain ⟨name, -, hname, -⟩ := ClassTrap.ofClass_ok ht
  obtain ⟨-, -, more, hmore, hplace⟩ :=
    ClassTrap.locations_below k.here ht hname (hinside name hname)
  rw [hplace]
  exact h more hmore

/-- How things stand when the classes in `done` have been extracted. -/
structure Ledger (d : Destination) (p : Program) (reached : DeclId → Prop) (done : List DeclId)
    (g : Progress) (k : Disk) : Prop where
  issued : k.Issued
  vouched : ∀ id u, reached id → ClassTrap.ofClass d p id = .ok u →
    ∀ file, k.entry? (u.place k.here) = some (.file file) →
      ∃ a ∈ done, ∃ t, ClassTrap.ofClass d p a = .ok t ∧ t.place k.here = u.place k.here ∧
        t.Vouched k
  reached : ∀ id ∈ g.queue.accepted, reached id
  accepted : done ⊆ g.queue.accepted
  closed : ∀ id ∈ done, ∀ other, d.Refers p id other → other ∈ g.queue.accepted

section Closure

variable {reached : DeclId → Prop} {done : List DeclId}

theorem Ledger.vouched_cons (h : Ledger d p reached done g k) {t : ClassTrap}
    (ht : ClassTrap.ofClass d p id = .ok t) (hframe : Disk.Frame (t.Own k.here) k k')
    (hv : t.Vouched k') : ∀ other u, reached other → ClassTrap.ofClass d p other = .ok u →
    ∀ file, k'.entry? (u.place k'.here) = some (.file file) →
      ∃ a ∈ id :: done, ∃ t, ClassTrap.ofClass d p a = .ok t ∧
        t.place k'.here = u.place k'.here ∧ t.Vouched k' := by
  intro other u hother hu file hentry
  rw [hframe.here] at hentry ⊢
  by_cases hown : t.Own k.here (u.place k.here)
  · exact ⟨id, List.mem_cons_self .., t, ht, (ClassTrap.place_of_own hu hown).symm, hv⟩
  · obtain ⟨a, ha, v, hav, hplace, hvouched⟩ :=
      h.vouched other u hother hu file ((hframe.file hown).mp hentry)
    exact ⟨a, List.mem_cons_of_mem _ ha, v, hav, hplace,
      hvouched.frame h.issued hframe (hplace ▸ hown)⟩

theorem Ledger.of_mem {done' : List DeclId} (h : Ledger d p reached done g k)
    (hmem : ∀ id, id ∈ done' ↔ id ∈ done) : Ledger d p reached done' g k where
  issued := h.issued
  vouched id u hid hu file hentry := by
    obtain ⟨a, ha, hrest⟩ := h.vouched id u hid hu file hentry
    exact ⟨a, (hmem a).mpr ha, hrest⟩
  reached := h.reached
  accepted id hid := h.accepted ((hmem id).mp hid)
  closed id hid := h.closed id ((hmem id).mp hid)

/-- A class that is taken and does not fail is written. -/
theorem Ledger.step (hterm : d.Terminates p) (hnames : p.DistinctNames reached)
    (hfree : p.CollisionFree reached)
    (hclosed : ∀ id other, reached id → d.Refers p id other → reached other)
    (h : Ledger d p reached done g k) (hid : id ∈ g.queue.accepted) (hnew : id ∉ done)
    {written : Bool}
    (hrun : (d.extractClass p id : Task OnDisk _).run.run g k = ((.ok written, g'), k')) :
    written = true ∧ Ledger d p reached (id :: done) g' k' := by
  cases ht : ClassTrap.ofClass d p id with
  | error e =>
    rw [run_extractClass_of_error ht] at hrun
    cases hrun
  | ok t =>
    have hmeta := extractClass_yields hterm ht h.issued (g := g) written (by rw [hrun])
    have hqueue := extractClass_accepts ht (g := g) (k := k) written (by rw [hrun])
    obtain ⟨hextends, hframe, -⟩ := bounded_extractClass hterm id g k rfl
    rw [hrun] at hmeta hqueue hextends hframe
    rw [own_of_ofClass ht] at hframe
    have hreached := h.reached id hid
    cases written with
    | false =>
      exfalso
      obtain ⟨hclean, file, text, hentry, hrest⟩ : t.Current k := hmeta
      obtain ⟨a, ha, u, hu, hplace, hvouched⟩ := h.vouched id t hreached ht file hentry
      obtain rfl := ClassTrap.eq_of_current hnames hfree (h.reached a (h.accepted ha)) hreached hu
        ht hplace hvouched ⟨hclean, file, text, hentry, hrest⟩
      exact hnew ha
    | true =>
      refine ⟨rfl, hframe.issued h.issued, h.vouched_cons ht hframe hmeta, fun other hother => ?_,
        ?_, fun a ha other hrefers => ?_⟩
      · rcases (hqueue other).mp hother with hold | ⟨-, hrefers⟩
        · exact h.reached other hold
        · exact hclosed id other hreached ⟨t, ht, hrefers⟩
      · exact List.cons_subset.mpr
          ⟨hextends.subset hid, List.Subset.trans h.accepted hextends.subset⟩
      · rcases List.mem_cons.mp ha with rfl | ha
        · obtain ⟨u, hu, hrefers⟩ := hrefers
          cases ht.symm.trans hu
          exact (hqueue other).mpr (.inr ⟨rfl, hrefers⟩)
        · exact hextends.subset (h.closed a ha other hrefers)

theorem ledger_invariant (hterm : d.Terminates p) (hnames : p.DistinctNames reached)
    (hfree : p.CollisionFree reached)
    (hclosed : ∀ id other, reached id → d.Refers p id other → reached other) :
    Invariant d p fun log g k => (∀ e ∈ log, e.2 ≠ .failed) →
      (∀ e ∈ log, e.2 = .extracted) ∧ Ledger d p reached log.ids g k where
  taken log g k h hok := by
    obtain ⟨hlog, hledger⟩ := h hok
    exact ⟨hlog, hledger.issued, hledger.vouched, hledger.reached, hledger.accepted,
      hledger.closed⟩
  step log g k id r g' k' hrun hid hnew h hok := by
    obtain ⟨hlog, hledger⟩ := h fun e he => hok e (List.mem_append_left _ he)
    cases r with
    | error e => exact absurd rfl (hok _ (List.mem_append_right _ (List.mem_cons_self ..)))
    | ok written =>
      obtain ⟨rfl, hledger'⟩ := hledger.step hterm hnames hfree hclosed hid hnew hrun
      refine ⟨fun e he => ?_, hledger'.of_mem fun a => ?_⟩
      · rcases List.mem_append.mp he with he | he
        · exact hlog e he
        · exact List.mem_singleton.mp he ▸ rfl
      · rw [DrainLog.ids_append, List.mem_append, List.mem_cons]
        exact or_comm.trans (or_congr_left List.mem_singleton)

/-- All classes of a drain that does not fail are written. -/
theorem Ledger.drains (hterm : d.Terminates p) (hnames : p.DistinctNames reached)
    (hfree : p.CollisionFree reached)
    (hclosed : ∀ id other, reached id → d.Refers p id other → reached other) {log : DrainLog}
    (hdrains : Drains d p g k log g' k') (hok : ∀ e ∈ log, e.2 ≠ .failed) (hsound : g.queue.Sound)
    (h : Ledger d p reached done g k) (hwaiting : ∀ id ∈ g.queue.waiting, id ∉ done) :
    (∀ e ∈ log, e.2 = .extracted) ∧ Ledger d p reached (log.ids.reverse ++ done) g' k' := by
  obtain ⟨before, hbefore, rfl⟩ : ∃ before : DrainLog, (∀ e ∈ before, e.2 = .extracted) ∧
      before.ids = done :=
    ⟨done.map (·, .extracted), by simp, by simp [DrainLog.ids, Function.comp_def]⟩
  obtain ⟨hlog, hledger⟩ := hdrains.keeps before
    (ledger_invariant hterm hnames hfree hclosed) hsound h.accepted hwaiting
    (fun _ => ⟨hbefore, h⟩) fun e he =>
      (List.mem_append.mp he).elim (fun he => by simp [hbefore e he]) (hok e)
  refine ⟨fun e he => hlog e (List.mem_append_right _ he), hledger.of_mem fun a => ?_⟩
  rw [DrainLog.ids_append, List.mem_append, List.mem_append, List.mem_reverse]
  exact or_comm

end Closure

theorem ledger_nil {ids : List DeclId} (hg : g.queue = .scheduling ids) (hk : k.Issued)
    (hempty : d.EmptyTrapDir k) (hinside : p.StaysInside (d.Reached p (· ∈ ids))) :
    Ledger d p (d.Reached p (· ∈ ids)) [] g k where
  issued := hk
  vouched id u hid hu file hentry := by
    rw [hempty.entry?_place hu fun name hname => hinside id name hid hname] at hentry
    cases hentry
  reached id hid := .scheduled (((ClassQueue.scheduling_spec ids).2.2 id).mp (hg ▸ hid))
  accepted := List.nil_subset _
  closed := nofun

/-- If the extraction of each class ends, a drain ends, whatever is scheduled.
By then the queue is empty, and every class that was scheduled, before or on
the way, has been taken once and counted after its fate. If the trap
directory was empty, no class failed and the classes that can be reached from
the scheduled ones have different names, none of which leads out of the trap
directory, then those that were extracted are the ones that can be reached, in
whatever order the others were scheduled. Metadata that a name leads to outside
of the trap directory may be there before: their class is up to date, and what
it refers to is not scheduled. -/
theorem drain_closure (hterm : d.Terminates p) {ids : List DeclId}
    (hg : g.queue = .scheduling ids) (k : Disk) :
    ∃ s log g' k', (d.drain p : Task OnDisk _).run.run g k = ((.ok s, g'), k') ∧
      Drains d p g k log g' k' ∧ DrainSummary.Counts {} s log ∧ g'.queue.isEmpty = true ∧
      log.ids.Nodup ∧ (∀ id, id ∈ log.ids ↔ id ∈ g'.queue.accepted) ∧
      (∀ id ∈ ids, id ∈ log.ids) ∧ s.extracted + s.upToDate + s.failed = g'.queue.count ∧
      (k.Issued → d.EmptyTrapDir k → p.StaysInside (d.Reached p (· ∈ ids)) →
        p.DistinctNames (d.Reached p (· ∈ ids)) → p.CollisionFree (d.Reached p (· ∈ ids)) →
        s.failed = 0 →
        ∀ id, (id, .extracted) ∈ log ↔ d.Reached p (· ∈ ids) id) := by
  obtain ⟨hwaiting, hnodup, hmem⟩ := ClassQueue.scheduling_spec ids
  have hsound : g.queue.Sound := hg ▸ ⟨hnodup, hwaiting ▸ List.Sublist.refl _⟩
  have hfuel : room p g.queue + (if g.queue.waiting = [] then 1 else 2) ≤
      p.declarations.size + 2 := by
    unfold room
    split <;> omega
  obtain ⟨s, log, g', k', hdrains, hrun, hcounts, hnone, new, haccepted, hnodup', hperm⟩ :=
    drainWithin_run hterm (s := {}) hsound hfuel (k := k)
  have hall : log.ids.Perm g'.queue.accepted := by
    rw [haccepted, hg, ← hwaiting, ← hg]
    exact hperm
  have hinitial : ∀ id ∈ ids, id ∈ log.ids := fun id hid => by
    rw [hall.mem_iff, haccepted, hg]
    exact List.mem_append_right _ ((hmem id).mpr hid)
  refine ⟨s, log, g', k', hrun, hdrains, hcounts, List.isEmpty_iff.mpr hnone,
    hall.nodup_iff.mpr hnodup', fun id => hall.mem_iff, hinitial, ?_, ?_⟩
  · have htotal := log.tally_total
    have hlength := hall.length_eq
    rw [DrainLog.ids, List.length_map] at hlength
    rw [hcounts.extracted, hcounts.upToDate, hcounts.failed, ClassQueue.count, ← hlength, ← htotal]
    simp
  · intro hk hempty hinside hnames hfree hfailed
    have hok : ∀ e ∈ log, e.2 ≠ .failed := fun e he =>
      DrainLog.ne_failed_of_tally (by rw [← hfailed, hcounts.failed, Nat.zero_add]) he
    obtain ⟨hlog, hledger⟩ := (ledger_nil hg hk hempty hinside).drains hterm hnames hfree
      (fun id other h hrefers => .referred h hrefers) hdrains hok hsound fun _ _ => List.not_mem_nil
    rw [List.append_nil] at hledger
    intro id
    constructor
    · intro hid
      exact hledger.reached id (hall.mem_iff.mp (List.mem_map_of_mem hid))
    · intro hreached
      have hid : id ∈ log.ids := by
        induction hreached with
        | scheduled h => exact hinitial _ h
        | referred _ hrefers ih =>
          exact hall.mem_iff.mpr (hledger.closed _ (List.mem_reverse.mpr ih) _ hrefers)
      obtain ⟨⟨other, fate⟩, he, rfl⟩ := List.mem_map.mp hid
      obtain rfl := hlog _ he
      exact he

/-! ## Two interfaces that extend each other -/

open ClassTrap in
theorem mutualPair_cases {id : DeclId} {c : Declaration} (h : mutualPair.decl? id = some c) :
    id = ⟨0⟩ ∨ id = ⟨1⟩ := by
  obtain ⟨hlt, -⟩ := Array.getElem?_eq_some_iff.mp h
  have hlt : id.index.toNat < 2 := hlt
  have hindex : id.index.toNat = 0 ∨ id.index.toNat = 1 := by omega
  obtain ⟨index⟩ := id
  exact hindex.imp (fun h => congrArg _ (UInt32.toNat_inj.mp h))
    fun h => congrArg _ (UInt32.toNat_inj.mp h)

open ClassTrap in
theorem mutualPair_named {id : DeclId} {name : String} (h : mutualPair.binaryName? id = some name) :
    id = ⟨0⟩ ∨ id = ⟨1⟩ := by
  cases hdecl : mutualPair.decl? id with
  | some c => exact mutualPair_cases hdecl
  | none =>
    rw [Program.binaryName?, Program.classChain?, Program.walkLimit, Program.chainWithin,
      hdecl] at h
    cases h

open ClassTrap in
theorem mutualPair_staysInside (ids : DeclId → Prop) : mutualPair.StaysInside ids := by
  have hfirst : mutualPair.binaryName? ⟨0⟩ = some "lib.A" := by decide +kernel
  have hsecond : mutualPair.binaryName? ⟨1⟩ = some "lib.B" := by decide +kernel
  intro id name _ hname
  rcases mutualPair_named hname with rfl | rfl
  · exact Option.some.inj (hfirst.symm.trans hname) ▸ by decide
  · exact Option.some.inj (hsecond.symm.trans hname) ▸ by decide

open ClassTrap in
theorem mutualPair_distinctNames (ids : DeclId → Prop) : mutualPair.DistinctNames ids := by
  have hne : mutualPair.binaryName? ⟨0⟩ ≠ mutualPair.binaryName? ⟨1⟩ := by decide +kernel
  intro a b name _ _ ha hb
  rcases mutualPair_named ha with rfl | rfl <;> rcases mutualPair_named hb with rfl | rfl
  · rfl
  · exact absurd (ha.trans hb.symm) hne
  · exact absurd (hb.trans ha.symm) hne
  · rfl

open ClassTrap in
theorem mutualPair_collisionFree (ids : DeclId → Prop) : mutualPair.CollisionFree ids := by
  have hne : (mutualPair.fingerprint ⟨0⟩).toOption ≠ (mutualPair.fingerprint ⟨1⟩).toOption := by
    simp only [Program.fingerprint, Program.fingerprintBytes, Program.encodedDecl, bytesOf,
      toList_eq_data]
    decide +kernel
  have hdigest {a : DeclId} {c : Declaration} (h : mutualPair.decl? a = some c) :
      (mutualPair.fingerprint a).toOption =
        some (Sha256.hexDigest (mutualPair.fingerprintBytes a c)) := by
    rw [Program.fingerprint, h]
    rfl
  intro a b c d _ _ ha hb hsame
  have hsame := (hdigest ha).trans ((congrArg some hsame).trans (hdigest hb).symm)
  rcases mutualPair_cases ha with rfl | rfl <;> rcases mutualPair_cases hb with rfl | rfl
  · rw [Option.some.inj (ha.symm.trans hb)]
  · exact absurd hsame hne
  · exact absurd hsame.symm hne
  · rw [Option.some.inj (ha.symm.trans hb)]

/-- Whether a class is extracted to an end, if it is one. -/
def endsAt (d : Destination) (p : Program) (id : DeclId) : Bool :=
  match ClassTrap.ofClass d p id with
  | .ok t => (t.extraction p p (t.session d {})).toBool
  | .error _ => true

theorem ends_of_endsAt {t : ClassTrap} (h : endsAt d p id = true)
    (ht : ClassTrap.ofClass d p id = .ok t) :
    ∃ s, Extract.Ends p (t.session d {}) (t.extraction p) () s := by
  unfold endsAt at h
  rw [ht] at h
  dsimp only at h
  cases hr : t.extraction p p (t.session d {}) with
  | error e =>
    rw [hr] at h
    cases h
  | ok r => exact ⟨r.2, hr⟩

set_option maxRecDepth 100000 in
theorem mutualPair_drained :
    ∃ g' k', ((⟨⟨"trap"⟩, "inv"⟩ : Destination).drain ClassTrap.mutualPair :
        Task OnDisk _).run.run { queue := .scheduling [⟨0⟩] } (.ofFolder ["home"]) =
        ((.ok ⟨2, 0, 0, 2⟩, g'), k') ∧
      g'.queue.accepted = [⟨1⟩, ⟨0⟩] :=
  run_of_summary (f := fun g => g.queue.accepted) (by decide +kernel)

theorem mutualPair_terminates :
    (⟨⟨"trap"⟩, "inv"⟩ : Destination).Terminates ClassTrap.mutualPair := by
  intro id t ht
  obtain ⟨-, c, -, hdecl, -⟩ := ClassTrap.ofClass_ok ht
  rcases mutualPair_cases hdecl with rfl | rfl
  · exact ends_of_endsAt (by decide +kernel) ht
  · exact ends_of_endsAt (by decide +kernel) ht

/-- One of the two is scheduled, and both are extracted. -/
theorem drain_closure_mutualPair :
    let d : Destination := ⟨⟨"trap"⟩, "inv"⟩
    let g : Progress := { queue := .scheduling [⟨0⟩] }
    let k : Disk := .ofFolder ["home"]
    d.Terminates ClassTrap.mutualPair ∧
    ∃ s log g' k', (d.drain ClassTrap.mutualPair : Task OnDisk _).run.run g k = ((.ok s, g'), k') ∧
      Drains d ClassTrap.mutualPair g k log g' k' ∧ s.failed = 0 ∧
      ∀ id, (id, .extracted) ∈ log ↔ d.Reached ClassTrap.mutualPair (· ∈ [⟨0⟩]) id := by
  intro d g k
  obtain ⟨s, log, g', k', hrun, hdrains, -, -, -, -, -, -, hclosure⟩ :=
    drain_closure mutualPair_terminates (show g.queue = .scheduling [⟨0⟩] from rfl) k
  obtain ⟨_, _, hsummary, -⟩ := mutualPair_drained
  cases hrun.symm.trans hsummary
  have hempty : d.EmptyTrapDir k := fun more _ => by
    rw [show d.trapDir.locationFrom k.here = ["home", "trap"] by decide +kernel]
    simp [Disk.entry?, k, Disk.ofFolder]
  refine ⟨mutualPair_terminates, _, log, g', k', hrun, hdrains, rfl,
    hclosure ?_ hempty ?_ ?_ ?_ rfl⟩
  · exact fun location id hentry => absurd hentry (Disk.entry?_ofFolder _ location id)
  · exact mutualPair_staysInside _
  · exact mutualPair_distinctNames _
  · exact mutualPair_collisionFree _

end Destination

end IrFacts
