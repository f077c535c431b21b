import IrFacts.Proofs.Output.Conduct
import IrFacts.Proofs.Output.References

/-!
# What a class does to the disk and to the queue

Whether or not it fails, bringing the trap of a class up to date touches the
places of the trap, of its sidecars and of temporary files, and schedules
declarations of the program. When it succeeds the metadata of the class are
those of its fingerprint.
-/

set_option autoImplicit false

namespace IrFacts

namespace Task

variable {α β : Type} {declared : DeclId → Prop} {here : Location} {touched : Location → Prop}

/-- Whatever the outcome, the task touches these locations and schedules these
classes only, and no extraction in it is stopped. -/
def Bounded (declared : DeclId → Prop) (here : Location) (touched : Location → Prop)
    (m : Task OnDisk α) : Prop :=
  ∀ g k, k.here = here → After m g k fun r g' k' =>
    g.queue.Extends declared g'.queue ∧ Disk.Frame touched k k' ∧ ∀ stop, r ≠ .error (.stopped stop)

/-- Classes are scheduled, and no extraction is stopped. -/
def scheduling (declared : DeclId → Prop) : Conduct where
  leads g g' := g.queue.Extends declared g'.queue
  mayStop := False
  same hqueue _ := hqueue ▸ .refl _ _
  trans := .trans

theorem bounded_iff {m : Task OnDisk α} :
    Bounded declared here touched m ↔ Obeys (scheduling declared) here touched m := Iff.rfl

/-- A task leaves alone what it does not touch, also when it succeeds. -/
theorem Bounded.yields {m : Task OnDisk α} (h : Bounded declared here touched m) {g : Progress}
    {k : Disk} (hk : k.here = here) : Yields m g k fun _ _ k' => Disk.Frame touched k k' :=
  fun _ _ => (h g k hk).2.1

def growing (p : Program) : Conduct where
  leads g g' := g.queue.Extends p.FromOutside g'.queue
  mayStop := True
  same hqueue _ := hqueue ▸ .refl _ _
  trans := .trans

theorem obeys_growing (d : Destination) (p : Program) (t : ClassTrap) :
    Obeys (growing p) here touched
      (extracting p (t.writer d.invocation) (some []) (t.extraction p)) := by
  intro g k _
  unfold After
  rw [run_extracting]
  split
  · exact ⟨.refl _ _, .refl _ _, fun _ _ => trivial⟩
  · next hs => exact ⟨ClassTrap.extends_of_extraction hs, .refl _ _, fun _ _ => trivial⟩

theorem bounded_extracting {d : Destination} {p : Program} (hterm : d.Terminates p) {id : DeclId}
    {t : ClassTrap} (ht : ClassTrap.ofClass d p id = .ok t) :
    Bounded p.Declares here touched
      (extracting p (t.writer d.invocation) (some []) (t.extraction p)) := by
  intro g k _
  obtain ⟨s, hs⟩ := ClassTrap.ends_session (hterm id t ht) g
  unfold After
  rw [run_extracting, show t.extraction p p
    { file := t.writer d.invocation, counter := g.counter, queue := g.queue
      dependencies := some [] } = .ok ((), s) from hs]
  exact ⟨(ClassTrap.extends_of_extraction hs).mono fun _ => Program.declares_of_fromOutside,
    .refl _ _, nofun⟩

end Task

/-! ## Bringing the trap of a class up to date -/

namespace ClassTrap

open IrFacts.Task

variable {declared : DeclId → Prop} {here : Location} {touched : Location → Prop}
variable {d : Destination} {p : Program} {id : DeclId} {t : ClassTrap}

theorem bounded_extract (hterm : d.Terminates p) (ht : ofClass d p id = .ok t)
    (h : t.FilesIn here touched) :
    Bounded p.Declares here touched (t.extract d p : Task OnDisk _) :=
  bounded_iff.mpr (obeys_extract h (bounded_iff.mp (bounded_extracting hterm ht)))

theorem bounded_commit (h : t.SidecarsIn here touched) (dependencies : List DeclId) :
    Bounded declared here touched (t.commit p dependencies : Task OnDisk _) :=
  bounded_iff.mpr (obeys_commit h dependencies)

/-! ## What success tells -/

/-- Metadata that are just those of the class are on the disk, in a file of
their own. -/
def Vouched (t : ClassTrap) (k : Disk) : Prop :=
  t.metadata.Clean ∧ ∃ file, k.entry? (t.place k.here) = some (.file file) ∧
    k.Alone (t.place k.here) ∧ k.contentsOf file = (metadataOf t.fingerprint ++ "\n").toUTF8

/-- There are metadata on the disk that vouch for the class. -/
def Current (t : ClassTrap) (k : Disk) : Prop :=
  t.metadata.Clean ∧ ∃ file text, k.entry? (t.place k.here) = some (.file file) ∧
    String.fromUTF8? (k.contentsOf file) = some text ∧ vouches text t.fingerprint = true

/-- There is a trap of the class, and metadata that vouch for the class. -/
def Fresh (t : ClassTrap) (k : Disk) : Prop :=
  (∃ entry, k.entry? (t.trap.locationFrom k.here) = some entry) ∧ t.Current k

theorem readMetadata_yields {g : Progress} {k : Disk} :
    Yields t.readMetadata g k fun found g' _ => g' = g ∧ ∀ text, found = some text →
      t.metadata.Clean ∧ ∃ file, k.entry? (t.place k.here) = some (.file file) ∧
        String.fromUTF8? (k.contentsOf file) = some text := by
  refine yields_bind (yields_ask ?_)
  rcases hr : Files.read (m := OnDisk) t.metadata k with ⟨e | bytes, l⟩
  · cases e with
    | notFound => exact yields_pure ⟨rfl, nofun⟩
    | _ => exact yields_throw _
  · have hread := OnDisk.attempt_ok hr
    obtain ⟨-, file, hentry, rfl⟩ := Disk.read_ok hread
    dsimp only
    split
    · next text htext =>
      refine yields_pure ⟨rfl, ?_⟩
      rintro _ ⟨⟩
      exact ⟨Disk.clean_of_read hread, file, hentry, htext⟩
    · exact yields_throw _

theorem entry_of_present (ht : ofClass d p id = .ok t) {k : Disk} (h : k.present t.trap = true) :
    ∃ entry, k.entry? (t.trap.locationFrom k.here) = some entry := by
  obtain ⟨stem, htrap, -⟩ := stem_of_ofClass ht
  rw [show t.trap = ⟨stem ++ ".trap.gz"⟩ from congrArg Path.mk htrap] at h ⊢
  exact Disk.entry_of_present (by decide) rfl (by decide) h

/-- Planning counts and schedules nothing. A class that needs no trap is up to
date, and then nothing is changed. -/
theorem plan_yields (ht : ofClass d p id = .ok t) {g : Progress} {k : Disk} :
    Yields (plan d p id) g k fun a g' k' => g' = g ∧
      (a = .write t ∨ a = .upToDate ∧ t.Fresh k ∧ Disk.Frame (fun _ => False) k k') := by
  unfold plan
  rw [ht]
  refine yields_bind (yields_pure (yields_bind (yields_ask ?_)))
  split
  · next hpresent =>
    have hread : Bounded p.Declares k.here (fun _ => False) (t.readMetadata : Task OnDisk _) :=
      bounded_iff.mpr obeys_readMetadata
    refine yields_bind fun found hfound => ?_
    obtain ⟨hsame, hmetadata⟩ := readMetadata_yields found hfound
    have hframe := hread.yields rfl found hfound
    split
    · exact yields_pure ⟨hsame, .inl rfl⟩
    · next text =>
      obtain ⟨hclean, file, hentry, htext⟩ := hmetadata text rfl
      split
      · next hvouches =>
        exact yields_pure ⟨hsame, .inr ⟨rfl, ⟨entry_of_present ht hpresent, hclean, file, text,
          hentry, htext, hvouches⟩, hframe⟩⟩
      · refine yields_bind (yields_bind (yields_io fun _ _ => ?_))
        refine yields_bind (yields_io fun _ _ => yields_bind (yields_io fun _ _ => ?_))
        exact yields_pure (yields_pure ⟨hsame, .inl rfl⟩)
  · exact yields_pure ⟨rfl, .inl rfl⟩

theorem commit_yields (ht : ofClass d p id = .ok t) (dependencies : List DeclId) {g : Progress}
    {k : Disk} (hk : k.Issued) :
    Yields (t.commit p dependencies) g k fun _ _ k' => t.Vouched k' := by
  have hfirst : Bounded p.Declares k.here (t.Own k.here) (replaceSidecar t.dependencies
      (t.dependencyLines p dependencies) : Task OnDisk _) :=
    bounded_iff.mpr (obeys_replaceSidecar (filesIn_own ht).toSidecarsIn
      (filesIn_own ht).dependencies _)
  refine yields_bind ((hfirst.yields rfl).mono fun _ g₁ k₁ hframe => ?_)
  refine yields_bind (yields_io fun _ hreplaced => yields_modify ?_)
  obtain ⟨hclean, file, hentry, halone, hcontents⟩ :=
    OnDisk.replace_ok (hframe.issued hk) (Prod.ext hreplaced rfl)
  exact ⟨hclean, file, hentry, halone, hcontents⟩

end ClassTrap

namespace Destination

open IrFacts.Task

variable {d : Destination} {p : Program} {id : DeclId} {here : Location}

/-- Where the files of a class may lie, if it is one. -/
def Own (d : Destination) (p : Program) (id : DeclId) (here location : Location) : Prop :=
  ∃ t, ClassTrap.ofClass d p id = .ok t ∧ t.Own here location

theorem own_of_ofClass {t : ClassTrap} (ht : ClassTrap.ofClass d p id = .ok t) :
    d.Own p id here = t.Own here := by
  funext location
  simp [Own, ht]

theorem run_extractClass_of_error {e : ExtractError} (h : ClassTrap.ofClass d p id = .error e)
    (g : Progress) (k : Disk) :
    (d.extractClass p id : Task OnDisk _).run.run g k = ((.error e, g), k) := by
  unfold extractClass ClassTrap.plan
  rw [h]
  rfl

theorem obeys_extractClass {c : Conduct} {touched : Location → Prop}
    (hfiles : ∀ t, ClassTrap.ofClass d p id = .ok t → t.FilesIn here touched)
    (hextracting : ∀ t, ClassTrap.ofClass d p id = .ok t → Obeys c here touched
      (extracting p (t.writer d.invocation) (some []) (t.extraction p))) :
    Obeys c here touched (d.extractClass p id : Task OnDisk _) := by
  cases ht : ClassTrap.ofClass d p id with
  | error e =>
    rintro g k -
    unfold After
    rw [run_extractClass_of_error ht]
    exact ⟨c.refl g, .refl _ _, fun stop he =>
      absurd (Except.error.inj he) (ClassTrap.ne_stopped_of_ofClass ht stop)⟩
  | ok t =>
    refine obeys_bind (ClassTrap.obeys_plan ht (hfiles t ht)) fun a ⟨g, k, ha⟩ => ?_
    rcases (ClassTrap.plan_yields ht (g := g) (k := k) a ha).2 with rfl | ⟨rfl, -⟩
    · exact obeys_bind (ClassTrap.obeys_extract (hfiles t ht) (hextracting t ht)) fun ids _ =>
        obeys_bind (ClassTrap.obeys_commit (hfiles t ht).toSidecarsIn ids) fun _ _ => obeys_pure _
    · exact obeys_pure _

/-- Whether or not it succeeds, a class schedules classes from outside only. -/
theorem extends_of_extractClass {g g' : Progress} {k k' : Disk} {r : Except ExtractError Bool}
    (hrun : (d.extractClass p id : Task OnDisk _).run.run g k = ((r, g'), k')) :
    g.queue.Extends p.FromOutside g'.queue := by
  have hobeys : Obeys (growing p) k.here (fun _ => True) (d.extractClass p id : Task OnDisk _) :=
    obeys_extractClass (fun _ _ => ⟨⟨trivial, trivial, fun _ _ _ _ => trivial⟩, trivial⟩)
      fun t _ => obeys_growing d p t
  have hleads := (hobeys g k rfl).1
  rwa [hrun] at hleads

/-- Whether or not it succeeds, a class touches its own files and schedules
declarations only. -/
theorem bounded_extractClass_of_filesIn (hterm : d.Terminates p) {touched : Location → Prop}
    (hfiles : ∀ t, ClassTrap.ofClass d p id = .ok t → t.FilesIn here touched) :
    Bounded p.Declares here touched (d.extractClass p id : Task OnDisk _) :=
  bounded_iff.mpr (obeys_extractClass hfiles fun _ ht =>
    bounded_iff.mp (bounded_extracting hterm ht))

theorem bounded_extractClass (hterm : d.Terminates p) (id : DeclId) :
    Bounded p.Declares here (d.Own p id here) (d.extractClass p id : Task OnDisk _) :=
  bounded_extractClass_of_filesIn hterm fun _ ht =>
    own_of_ofClass ht ▸ ClassTrap.filesIn_own ht

/-- A class is extracted and its sidecars are written, or it is up to date and nothing
is done. -/
theorem yields_extractClass {t : ClassTrap} (ht : ClassTrap.ofClass d p id = .ok t) {g : Progress}
    {k : Disk} {P : Bool → Progress → Disk → Prop}
    (hwrite : ∀ k₁, Disk.Frame (t.Own k.here) k k₁ →
      Yields (t.extract d p) g k₁ fun ids g₂ k₂ => Yields (t.commit p ids) g₂ k₂ fun _ => P true)
    (hkeep : t.Fresh k → ∀ k₁, Disk.Frame (fun _ => False) k k₁ → P false g k₁) :
    Yields (d.extractClass p id) g k P := by
  have hplan : Bounded p.Declares k.here (t.Own k.here) (ClassTrap.plan d p id : Task OnDisk _) :=
    bounded_iff.mpr (ClassTrap.obeys_plan ht (ClassTrap.filesIn_own ht))
  have hplanned : Yields (ClassTrap.plan d p id) g k fun a g' k' =>
      Disk.Frame (t.Own k.here) k k' ∧ g' = g ∧
        (a = .write t ∨ a = .upToDate ∧ t.Fresh k ∧ Disk.Frame (fun _ => False) k k') :=
    fun a ha => ⟨hplan.yields rfl a ha, ClassTrap.plan_yields ht a ha⟩
  refine yields_bind (hplanned.mono ?_)
  rintro a _ k₁ ⟨hframe, rfl, rfl | ⟨rfl, hfresh, hnothing⟩⟩
  · exact yields_bind ((hwrite k₁ hframe).mono fun ids g₂ k₂ hcommit =>
      yields_bind (hcommit.mono fun _ _ _ hP => yields_pure hP))
  · exact yields_pure (hkeep hfresh k₁ hnothing)

/-- A class that was written is vouched for, and one that was not had been
before. -/
theorem extractClass_yields (hterm : d.Terminates p) {t : ClassTrap}
    (ht : ClassTrap.ofClass d p id = .ok t) {g : Progress} {k : Disk} (hk : k.Issued) :
    Yields (d.extractClass p id) g k fun written _ k' =>
      if written then t.Vouched k' else t.Current k := by
  refine yields_extractClass ht (fun k₁ hframe => ?_) fun hfresh _ _ => hfresh.2
  have hextract : Bounded p.Declares k₁.here (t.Own k₁.here) (t.extract d p : Task OnDisk _) :=
    ClassTrap.bounded_extract hterm ht (ClassTrap.filesIn_own ht)
  exact (hextract.yields rfl).mono fun ids _ k₂ hframe₂ =>
    ClassTrap.commit_yields ht ids (hframe₂.issued (hframe.issued hk))

end Destination

end IrFacts
