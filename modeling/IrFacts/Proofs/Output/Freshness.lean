import IrFacts.Proofs.Files.Spares
import IrFacts.Proofs.Output.Closure

/-!
# Classes that are up to date

A class that is extracted is up to date afterwards, and stays so while classes
with other places are extracted. So a drain in which no class fails brings the
trap of every class up to date that it takes, and leaves the others as they are.
-/

set_option autoImplicit false

namespace IrFacts

namespace ClassTrap

open IrFacts.Task

variable {d : Destination} {p : Program} {id : DeclId} {t : ClassTrap}
variable {touched : Location → Prop} {g : Progress} {k k' : Disk}

/-! ## Traps that are up to date -/

theorem current_iff (hk : k.Issued) (halone : k.Alone (t.place k.here))
    (hframe : Disk.Frame touched k k') (ht : ¬touched (t.place k.here)) :
    t.Current k' ↔ t.Current k := by
  have hcontents {file : Nat} (hentry : k.entry? (t.place k.here) = some (.file file)) :
      k'.contentsOf file = k.contentsOf file := hframe.contents hk _ file ht halone hentry
  unfold Current
  rw [hframe.here]
  refine and_congr_right fun _ => exists_congr fun file => exists_congr fun text => ?_
  rw [hframe.file ht]
  exact and_congr_right fun hentry => by rw [hcontents hentry]

theorem Fresh.frame (h : t.Fresh k) (hk : k.Issued) (hu : k.Unlinked)
    (hframe : Disk.Frame touched k k') (htrap : ¬touched (t.trap.locationFrom k.here))
    (hplace : ¬touched (t.place k.here)) : t.Fresh k' := by
  obtain ⟨⟨entry, hentry⟩, hcurrent⟩ := h
  refine ⟨⟨entry, ?_⟩, (current_iff hk (hu _) hframe hplace).mpr hcurrent⟩
  rw [hframe.here]
  rcases hframe.entry _ htrap with he | ⟨hnone, -⟩
  · exact he.trans hentry
  · rw [hentry] at hnone
    cases hnone

theorem vouches_metadataOf (ht : ofClass d p id = .ok t) :
    vouches (metadataOf t.fingerprint ++ "\n") t.fingerprint = true := by
  obtain ⟨-, c, -, -, -, hdigest, -⟩ := ofClass_ok ht
  unfold vouches
  rw [hdigest, String.toList_append]
  exact decide_eq_true (trimEnd_newline fun c => isBlank_of_getLast?_metadataOf)

theorem Vouched.current (ht : ofClass d p id = .ok t) (h : t.Vouched k) : t.Current k := by
  obtain ⟨hclean, file, hentry, -, hcontents⟩ := h
  exact ⟨hclean, file, _, hentry, by rw [hcontents, fromUTF8?_toUTF8], vouches_metadataOf ht⟩

/-! ## What is up to date in the end -/

theorem extract_writes :
    Yields (t.extract d p) g k fun _ _ k' => ∃ s file,
      Extract.Ends p (t.session d g) (t.extraction p) () s ∧ k'.fileAt t.trap = .ok file ∧
        k'.contentsOf file = s.file.writer.text.toUTF8 := by
  unfold extract
  cases t.trap.parent? with
  | none => exact yields_throw _
  | some folder =>
    refine yields_bind (yields_io fun _ _ => yields_withTemporary fun temporary _ => ?_)
    refine yields_bind (yields_extracting fun s hs => ?_)
    refine yields_bind (yields_io fun _ hwrite => yields_bind (yields_io fun _ hmove =>
      yields_pure ?_))
    obtain ⟨file, hfile, hcontents⟩ :=
      OnDisk.fileAt_of_write_rename (Prod.ext hwrite rfl) (Prod.ext hmove rfl)
    exact ⟨s, file, hs, hfile, hcontents⟩

theorem sidecarsIn_off_trap (ht : ofClass d p id = .ok t) (here : Location) :
    t.SidecarsIn here fun location => Path.lastChar? location ≠ some 'z' where
  dependencies := by simp [lastChar?_dependencies ht]
  metadata := by simp [lastChar?_place ht]
  temporary folder _ n hback := by simp [lastChar?_temporary folder "." n hback]

theorem commit_keeps (ht : ofClass d p id = .ok t) (dependencies : List DeclId) {file : Nat}
    (htrap : k.entry? (t.trap.locationFrom k.here) = some (.file file)) :
    Yields (t.commit p dependencies) g k fun _ _ k' =>
      k'.entry? (t.trap.locationFrom k'.here) = some (.file file) ∧
        (k.Issued → k.Unlinked → k'.contentsOf file = k.contentsOf file) := by
  have hsidecars : Bounded p.Declares k.here (fun location => Path.lastChar? location ≠ some 'z')
      (t.commit p dependencies : Task OnDisk _) :=
    bounded_commit (sidecarsIn_off_trap ht k.here) dependencies
  intro u hu
  have hframe := hsidecars.yields rfl u hu
  have hoff : ¬Path.lastChar? (t.trap.locationFrom k.here) ≠ some 'z' := by
    simp [lastChar?_trap ht]
  refine ⟨?_, fun hk hunlinked => hframe.contents hk _ file hoff (hunlinked _) htrap⟩
  rw [hframe.here]
  exact (hframe.file hoff).mpr htrap

end ClassTrap

namespace Destination

open IrFacts.Task

variable {d : Destination} {p : Program} {id : DeclId} {g g' : Progress} {k k' : Disk}

theorem extractClass_fresh (hterm : d.Terminates p) {t : ClassTrap}
    (ht : ClassTrap.ofClass d p id = .ok t) (hk : k.Issued) (hu : k.Unlinked) :
    Yields (d.extractClass p id) g k fun _ _ k' => t.Fresh k' := by
  refine yields_extractClass ht (fun k₁ hframe ids hids => ?_) fun hfresh _ hnothing =>
    hfresh.frame hk hu hnothing not_false not_false
  have hextract : Bounded p.Declares k₁.here (t.Own k₁.here) (t.extract d p : Task OnDisk _) :=
    ClassTrap.bounded_extract hterm ht (ClassTrap.filesIn_own ht)
  have hissued := (hextract.yields rfl ids hids).issued (hframe.issued hk)
  obtain ⟨-, file, -, hfile, -⟩ := ClassTrap.extract_writes ids hids
  have hentry := Disk.fileAt_ok hfile
  exact fun u hcommit => ⟨⟨_, (ClassTrap.commit_keeps ht ids hentry u hcommit).1⟩,
    (ClassTrap.commit_yields ht ids hissued u hcommit).current ht⟩

/-- What is no class is not up to date. -/
def Fresh (d : Destination) (p : Program) (id : DeclId) (k : Disk) : Prop :=
  ∃ t, ClassTrap.ofClass d p id = .ok t ∧ t.Fresh k

/-- There are metadata that vouch for the class, whether or not there is a trap. -/
def Current (d : Destination) (p : Program) (id : DeclId) (k : Disk) : Prop :=
  ∃ t, ClassTrap.ofClass d p id = .ok t ∧ t.Current k

/-- The metadata of different classes lie in different places. -/
def DistinctPlaces (d : Destination) (p : Program) (here : Location) (ids : DeclId → Prop) : Prop :=
  ∀ a b t u, ids a → ids b → ClassTrap.ofClass d p a = .ok t → ClassTrap.ofClass d p b = .ok u →
    t.place here = u.place here → a = b

theorem distinctPlaces_of_distinctNames {ids : DeclId → Prop} (hnames : p.DistinctNames ids)
    (hparted : ∀ id name, ids id → p.binaryName? id = some name → ClassTrap.PartedByDots name)
    (here : Location) : d.DistinctPlaces p here ids := by
  intro a b t u ha hb ht hu hplace
  obtain ⟨name, -, hname, -⟩ := ClassTrap.ofClass_ok ht
  obtain ⟨name', -, hname', -⟩ := ClassTrap.ofClass_ok hu
  obtain rfl := ClassTrap.name_of_place ht hu hname hname' (hparted a name ha hname)
    (hparted b name' hb hname') hplace
  exact hnames a b name ha hb hname hname'

/-! ## Many classes -/

def Touched (d : Destination) (p : Program) (here : Location) (log : DrainLog)
    (location : Location) : Prop :=
  ∃ id ∈ log.ids, ∃ t, ClassTrap.ofClass d p id = .ok t ∧ t.Footprint here location

/-- How things stand when the classes of a log have been taken, and none has failed. -/
structure Watch (d : Destination) (p : Program) (reached : DeclId → Prop) (k₀ : Disk)
    (log : DrainLog) (g : Progress) (k : Disk) : Prop where
  issued : k.Issued
  unlinked : k.Unlinked
  frame : Disk.Frame (d.Touched p k₀.here log) k₀ k
  reached : ∀ id ∈ g.queue.accepted, reached id
  accepted : log.ids ⊆ g.queue.accepted
  fresh : ∀ id ∈ log.ids, d.Fresh p id k
  closed : ∀ id other, (id, .extracted) ∈ log → d.Refers p id other → other ∈ g.queue.accepted
  current : ∀ id, (id, .upToDate) ∈ log → d.Current p id k₀

section Watch

variable {reached : DeclId → Prop} {k₀ : Disk} {log : DrainLog}

/-- The files of a class that was not taken have not been touched. -/
theorem not_touched (hplaces : d.DistinctPlaces p k.here reached) {t : ClassTrap}
    (ht : ClassTrap.ofClass d p id = .ok t) (hid : reached id)
    (hlog : ∀ other ∈ log.ids, reached other) (hnew : id ∉ log.ids) :
    ¬d.Touched p k.here log (t.place k.here) ∧
      ¬d.Touched p k.here log (t.trap.locationFrom k.here) := by
  have hapart : ∀ other ∈ log.ids, ∀ u, ClassTrap.ofClass d p other = .ok u →
      ¬u.Footprint k.here (t.place k.here) ∧
        ¬u.Footprint k.here (t.trap.locationFrom k.here) := by
    intro other hother u hu
    refine ClassTrap.not_footprint hu ht fun hplace => hnew ?_
    rwa [hplaces id other t u hid (hlog other hother) ht hu hplace]
  constructor
  · rintro ⟨other, hother, u, hu, hmem⟩
    exact (hapart other hother u hu).1 hmem
  · rintro ⟨other, hother, u, hu, hmem⟩
    exact (hapart other hother u hu).2 hmem

/-- Metadata of a class that was not taken are those that were there before. -/
theorem Watch.current_iff (h : Watch d p reached k₀ log g k) (hk : k₀.Issued) (hu : k₀.Unlinked)
    (hplaces : d.DistinctPlaces p k₀.here reached) (hid : reached id) (hnew : id ∉ log.ids) :
    d.Current p id k ↔ d.Current p id k₀ := by
  refine exists_congr fun t => and_congr_right fun ht => ?_
  exact ClassTrap.current_iff hk (hu _) h.frame (not_touched hplaces ht hid
    (fun other hother => h.reached other (h.accepted hother)) hnew).1

/-- A class that is taken and does not fail is up to date, and the others stay so. -/
theorem Watch.step (hterm : d.Terminates p) (hk : k₀.Issued) (hu : k₀.Unlinked)
    (hplaces : d.DistinctPlaces p k₀.here reached)
    (hclosed : ∀ id other, reached id → d.Refers p id other → reached other)
    (h : Watch d p reached k₀ log g k) (hid : id ∈ g.queue.accepted) (hnew : id ∉ log.ids)
    {written : Bool}
    (hrun : (d.extractClass p id : Task OnDisk _).run.run g k = ((.ok written, g'), k')) :
    Watch d p reached k₀ (log ++ [(id, .of (.ok written))]) g' k' := by
  cases ht : ClassTrap.ofClass d p id with
  | error e =>
    rw [run_extractClass_of_error ht] at hrun
    cases hrun
  | ok t =>
    have hhere : k.here = k₀.here := h.frame.here
    have hfresh := extractClass_fresh hterm ht h.issued h.unlinked (g := g) written (by rw [hrun])
    have hmeta := extractClass_yields hterm ht h.issued (g := g) written (by rw [hrun])
    have hqueue := extractClass_accepts ht (g := g) (k := k) written (by rw [hrun])
    have hextends := extends_of_extractClass hrun
    have hbounded : Bounded p.Declares k.here (t.Footprint k.here)
        (d.extractClass p id : Task OnDisk _) :=
      bounded_extractClass_of_filesIn hterm fun u hu => by
        cases ht.symm.trans hu
        exact ClassTrap.filesIn_footprint ht
    obtain ⟨-, hframe, -⟩ := hbounded g k rfl
    rw [hrun] at hfresh hmeta hqueue hframe
    have hreached := h.reached id hid
    have hmem {other : DeclId} : other ∈ DrainLog.ids (log ++ [(id, .of (.ok written))]) ↔
        other ∈ log.ids ∨ other = id := by
      rw [DrainLog.ids_append, List.mem_append]
      exact or_congr_right List.mem_singleton
    refine ⟨hframe.issued h.issued, hframe.unlinked h.issued h.unlinked, ?frame, ?reached,
      ?accepted, ?fresh, ?closed, ?current⟩
    case frame =>
      refine (h.frame.mono fun location => ?_).trans (hframe.mono fun location hlocation => ?_)
      · rintro ⟨other, hother, hfootprint⟩
        exact ⟨other, hmem.mpr (.inl hother), hfootprint⟩
      · exact ⟨id, hmem.mpr (.inr rfl), t, ht, hhere ▸ hlocation⟩
    case reached =>
      intro other hother
      rcases (hqueue other).mp hother with hold | ⟨-, hrefers⟩
      · exact h.reached other hold
      · exact hclosed id other hreached ⟨t, ht, hrefers⟩
    case accepted =>
      intro other hother
      rcases hmem.mp hother with hother | rfl
      · exact hextends.subset (h.accepted hother)
      · exact hextends.subset hid
    case fresh =>
      intro other hother
      rcases hmem.mp hother with hother | rfl
      · obtain ⟨u, hu', hfresh'⟩ := h.fresh other hother
        have hne : u.place k.here ≠ t.place k.here := by
          intro hplace
          rw [hhere] at hplace
          exact hnew (hplaces other id u t (h.reached other (h.accepted hother)) hreached hu' ht
            hplace ▸ hother)
        obtain ⟨hplace, htrap⟩ := ClassTrap.not_footprint ht hu' hne
        exact ⟨u, hu', hfresh'.frame h.issued h.unlinked hframe htrap hplace⟩
      · exact ⟨t, ht, hfresh⟩
    case closed =>
      intro other further hother hrefers
      rcases List.mem_append.mp hother with hother | hother
      · exact hextends.subset (h.closed other further hother hrefers)
      · cases written <;> cases List.mem_singleton.mp hother
        obtain ⟨u, hu', hrefers⟩ := hrefers
        cases ht.symm.trans hu'
        exact (hqueue further).mpr (.inr ⟨rfl, hrefers⟩)
    case current =>
      intro other hother
      rcases List.mem_append.mp hother with hother | hother
      · exact h.current other hother
      · cases written <;> cases List.mem_singleton.mp hother
        exact (h.current_iff hk hu hplaces hreached hnew).mp ⟨t, ht, hmeta⟩

theorem watch_invariant (hterm : d.Terminates p) (hk : k₀.Issued) (hu : k₀.Unlinked)
    (hplaces : d.DistinctPlaces p k₀.here reached)
    (hclosed : ∀ id other, reached id → d.Refers p id other → reached other) :
    Invariant d p fun log g k => (∀ e ∈ log, e.2 ≠ .failed) → Watch d p reached k₀ log g k where
  taken log g k h hok := by
    obtain ⟨hissued, hunlinked, hframe, hreached, haccepted, hfresh, hclosed, hcurrent⟩ := h hok
    exact ⟨hissued, hunlinked, hframe, hreached, haccepted, hfresh, hclosed, hcurrent⟩
  step log g k id r g' k' hrun hid hnew h hok := by
    have hwatch := h fun e he => hok e (List.mem_append_left _ he)
    cases r with
    | error e => exact absurd rfl (hok _ (List.mem_append_right _ (List.mem_cons_self ..)))
    | ok written => exact hwatch.step hterm hk hu hplaces hclosed hid hnew hrun

theorem watch_nil (hk : k.Issued) (hu : k.Unlinked)
    (hreached : ∀ id ∈ g.queue.accepted, reached id) :
    Watch d p reached k [] g k where
  issued := hk
  unlinked := hu
  frame := .refl _ _
  reached := hreached
  accepted := List.nil_subset _
  fresh := nofun
  closed := nofun
  current := nofun

end Watch

/-! ## Disks that are left behind -/

theorem sound_of_extractClass (hterm : d.Terminates p) {r : Except ExtractError Bool}
    (hrun : (d.extractClass p id : Task OnDisk _).run.run g k = ((r, g'), k'))
    (h : k.Issued ∧ k.Unlinked) : k'.Issued ∧ k'.Unlinked := by
  have hbounded : Bounded p.Declares k.here (fun _ => True)
      (d.extractClass p id : Task OnDisk _) :=
    bounded_extractClass_of_filesIn hterm fun _ _ =>
      ⟨⟨trivial, trivial, fun _ _ _ _ => trivial⟩, trivial⟩
  obtain ⟨-, hframe, -⟩ := hbounded g k rfl
  rw [hrun] at hframe
  exact ⟨hframe.issued h.1, hframe.unlinked h.1 h.2⟩

theorem sound_invariant (hterm : d.Terminates p) :
    Invariant d p fun _ _ k => k.Issued ∧ k.Unlinked where
  taken _ _ _ h := h
  step _ _ _ _ _ _ _ hrun _ _ h := sound_of_extractClass hterm hrun h

/-- There were no files at first, and since then programs were drained: other ones, other
classes of them and into other directories, whether or not classes failed. -/
inductive LeftBehind : Disk → Prop where
  | blank {k : Disk} (h : ∀ location id, k.entry? location ≠ some (.file id)) : LeftBehind k
  | drained {d : Destination} {p : Program} {ids : List DeclId} {g g' : Progress} {k k' : Disk}
      {r : Except ExtractError DrainSummary} (before : LeftBehind k) (hterm : d.Terminates p)
      (hg : g.queue = .scheduling ids)
      (hrun : (d.drain p : Task OnDisk _).run.run g k = ((r, g'), k')) : LeftBehind k'

theorem LeftBehind.sound (h : LeftBehind k) : k.Issued ∧ k.Unlinked := by
  induction h with
  | blank h =>
    exact ⟨fun location id he => absurd he (h location id),
      fun location id _ he => absurd he (h location id)⟩
  | drained before hterm hg hrun ih =>
    obtain ⟨s, log, g', k', hrun', hdrains, -, hsound, -⟩ := drain_run hterm hg _
    cases hrun.symm.trans hrun'
    exact hdrains.keeps [] (sound_invariant hterm) hsound (List.nil_subset _)
      (fun _ _ => List.not_mem_nil) ih

/-! ## Two interfaces that extend each other -/

theorem mutualPair_distinctPlaces (d : Destination) (here : Location) (ids : DeclId → Prop) :
    d.DistinctPlaces ClassTrap.mutualPair here ids := by
  refine distinctPlaces_of_distinctNames (mutualPair_distinctNames _) (fun id name _ hname => ?_) _
  rcases mutualPair_named hname with rfl | rfl
  · obtain rfl : "lib.A" = name := Option.some.inj (.trans (by decide +kernel) hname)
    exact ⟨by decide, by decide⟩
  · obtain rfl : "lib.B" = name := Option.some.inj (.trans (by decide +kernel) hname)
    exact ⟨by decide, by decide⟩

end Destination

end IrFacts
