import IrFacts.Proofs.Output.Coverage
import IrFacts.Proofs.Output.SecondDrain

/-!
# Classes that fail

A class that fails writes no metadata and is not listed. Unless it is its sidecars that cannot
be written, its trap is not put in its place either. So whatever fails, metadata do not vouch for
a trap that they were not written with, as long as no sidecars fail beside metadata that were
left behind: the trap is moved to its place before they are replaced.
-/

set_option autoImplicit false

namespace IrFacts

namespace Task

variable {α β : Type}

abbrev Goes (m : Task OnDisk α) (g : Progress) (k : Disk) (r : Except ExtractError α)
    (g' : Progress) (l : Disk) : Prop := m.run.run g k = ((r, g'), l)

/-! ## The list of new traps -/

/-- Whatever the outcome, the list of new traps stays as it is. -/
def KeepsCreated (m : Task OnDisk α) : Prop :=
  ∀ g k, After m g k fun _ g' _ => g'.created = g.created

theorem keepsCreated_pure (a : α) : KeepsCreated (pure a) := fun _ _ => rfl

theorem keepsCreated_throw (e : ExtractError) : KeepsCreated (throw e : Task OnDisk α) :=
  fun _ _ => rfl

theorem keepsCreated_io (path : Path) (operation : OnDisk (Except FileError α)) :
    KeepsCreated (io path operation) := fun _ _ => rfl

theorem keepsCreated_tryIo (operation : OnDisk (Except FileError Unit)) :
    KeepsCreated (tryIo operation) := fun _ _ => rfl

theorem keepsCreated_ask (question : OnDisk α) : KeepsCreated (ask question) := fun _ _ => rfl

theorem keepsCreated_bind {m : Task OnDisk α} {f : α → Task OnDisk β} (hm : KeepsCreated m)
    (hf : ∀ a, KeepsCreated (f a)) : KeepsCreated (m >>= f) := by
  intro g k
  rw [after_bind]
  refine (hm g k).mono ?_
  rintro (e | a) g' l hsame
  · exact hsame
  · exact (hf a g' l).mono fun _ _ _ h => h.trans hsame

theorem keepsCreated_tryCatch {m : Task OnDisk α} {f : ExtractError → Task OnDisk α}
    (hm : KeepsCreated m) (hf : ∀ e, KeepsCreated (f e)) : KeepsCreated (tryCatch m f) := by
  intro g k
  rw [after_tryCatch]
  refine (hm g k).mono ?_
  rintro (e | a) g' l hsame
  · exact (hf e g' l).mono fun _ _ _ h => h.trans hsame
  · exact hsame

theorem keepsCreated_forM {as : List α} {f : α → Task OnDisk PUnit}
    (h : ∀ a, KeepsCreated (f a)) : KeepsCreated (as.forM f) := by
  induction as with
  | nil => exact keepsCreated_pure _
  | cons a as ih => exact keepsCreated_bind (h a) fun _ => ih

theorem keepsCreated_extracting (p : Program) (file : Trap.FileWriter)
    (dependencies : Option (List DeclId)) (extraction : Extract Unit) :
    KeepsCreated (extracting p file dependencies extraction) := by
  intro g k
  unfold After
  rw [run_extracting]
  split <;> rfl

end Task

/-! ## Metadata and traps -/

namespace ClassTrap

open IrFacts.Task

variable {d : Destination} {p : Program} {id : DeclId} {t : ClassTrap}
variable {g g' : Progress} {k l : Disk}

/-- What an extraction of the class writes into its trap. -/
def Extracts (t : ClassTrap) (d : Destination) (p : Program) (bytes : ByteArray) : Prop :=
  ∃ g s, Extract.Ends p (t.session d g) (t.extraction p) () s ∧
    bytes = s.file.writer.text.toUTF8

/-- What an extraction of some class with this fingerprint writes into its trap, which lies in
this place. -/
def WrittenFor (here place : Location) (fingerprint : String) (bytes : ByteArray) : Prop :=
  ∃ d p id t, ofClass d p id = .ok t ∧ t.trap.locationFrom here = place ∧
    t.fingerprint = fingerprint ∧ t.Extracts d p bytes

end ClassTrap

namespace Disk

variable {k l : Disk} {trap metadata : Location}

/-- If there is a file in the place of a trap and one in the place of its metadata, then the
metadata vouch for no fingerprint but that of a class whose extraction wrote the trap. -/
def HonestAt (k : Disk) (trap metadata : Location) : Prop :=
  ∀ file other text fingerprint, k.entry? trap = some (.file file) →
    k.entry? metadata = some (.file other) →
    String.fromUTF8? (k.contentsOf other) = some text →
    ClassTrap.vouches text fingerprint = true →
    ClassTrap.WrittenFor k.here trap fingerprint (k.contentsOf file)

/-- No metadata vouch for a trap that they were not written with. -/
def Honest (k : Disk) : Prop :=
  ∀ folder last, k.HonestAt (folder ++ [last ++ ".trap.gz"]) (folder ++ [last ++ ".metadata"])

theorem HonestAt.of_old (h : k.HonestAt trap metadata) (hhere : l.here = k.here)
    (htrap : OldAt k l trap) (hmetadata : OldAt k l metadata) : l.HonestAt trap metadata := by
  intro file other text fingerprint hfile hother htext hvouches
  obtain ⟨hfile, hcontents⟩ := htrap file hfile
  obtain ⟨hother, hsame⟩ := hmetadata other hother
  rw [hsame] at htext
  rw [hhere, hcontents]
  exact h file other text fingerprint hfile hother htext hvouches

theorem honest_of_blank (h : ∀ location file, k.entry? location ≠ some (.file file)) : k.Honest :=
  fun _ _ file _ _ _ hfile => absurd hfile (h _ file)

end Disk

namespace ClassTrap

open IrFacts.Task

variable {d : Destination} {p : Program} {id : DeclId} {t : ClassTrap}
variable {g g' : Progress} {k l : Disk}

/-- What lies in this place is a temporary file or a list of dependencies, if anything. -/
def Stray (location : Location) : Prop := Path.lastChar? location = some 'p'

theorem stray_beside (location : Location) (name : String) :
    Stray (location.dropLast ++ [name ++ ".tmp"]) := Path.lastChar?_append _ name rfl

theorem lastChar?_ending (folder : Location) (last : String) :
    Path.lastChar? (folder ++ [last ++ ".trap.gz"]) = some 'z' ∧
      Path.lastChar? (folder ++ [last ++ ".metadata"]) = some 'a' :=
  ⟨Path.lastChar?_append folder last rfl, Path.lastChar?_append folder last rfl⟩

/-- Metadata stay honest where no class but this one has made files, if those of the class do. -/
theorem honest_of_own (ht : ofClass d p id = .ok t) (h : k.Honest)
    (hmade : k.MadeOnly (t.Footprint k.here) l)
    (hown : l.HonestAt (t.trap.locationFrom k.here) (t.place k.here)) : l.Honest := by
  obtain ⟨folder', last', htrap, hplace⟩ := places_of_stem k.here ht
  intro folder last
  by_cases hsame : folder = folder' ∧ last = last'
  · obtain ⟨rfl, rfl⟩ := hsame
    rwa [htrap, hplace] at hown
  · obtain ⟨hends, hends'⟩ := lastChar?_ending folder last
    refine (h folder last).of_old hmade.here (hmade.old _ ?_) (hmade.old _ ?_)
    · rintro (heq | heq | heq)
      · exact hsame ((concat_stem_inj _).mp (heq.trans htrap))
      · cases hends.symm.trans ((congrArg _ heq).trans (lastChar?_place ht))
      · cases hends.symm.trans heq
    · rintro (heq | heq | heq)
      · cases hends'.symm.trans ((congrArg _ heq).trans (lastChar?_trap ht))
      · exact hsame ((concat_stem_inj _).mp (heq.trans hplace))
      · cases hends'.symm.trans heq

theorem ofClass_self (ht : ofClass d p id = .ok t) : ofClass d p t.id = .ok t := by
  obtain ⟨-, -, -, -, hid, -⟩ := ofClass_ok ht
  rwa [hid]

theorem vouches_inj {text fingerprint other : String} (h : vouches text fingerprint = true)
    (h' : vouches text other = true) : fingerprint = other :=
  (String.append_right_inj _).mp (String.toList_inj.mp
    ((of_decide_eq_true h).symm.trans (of_decide_eq_true h')))

/-! ## What the steps make -/

theorem keepsCreated_readMetadata : KeepsCreated (t.readMetadata : Task OnDisk _) := by
  refine keepsCreated_bind (keepsCreated_ask _) fun r => ?_
  split
  · exact keepsCreated_pure _
  · exact keepsCreated_throw _
  · split
    · exact keepsCreated_pure _
    · exact keepsCreated_throw _

theorem keepsCreated_plan : KeepsCreated (plan d p id : Task OnDisk _) := by
  refine keepsCreated_bind (fun _ _ => rfl) fun t => keepsCreated_bind (keepsCreated_ask _)
    fun present => ?_
  split
  · refine keepsCreated_bind keepsCreated_readMetadata fun found => ?_
    split
    · exact keepsCreated_pure _
    · split
      · exact keepsCreated_pure _
      · exact keepsCreated_bind (keepsCreated_forM fun _ => keepsCreated_io _ _) fun _ =>
          keepsCreated_pure _
  · exact keepsCreated_pure _

theorem keepsCreated_extract : KeepsCreated (t.extract d p : Task OnDisk _) := by
  unfold extract
  split
  · refine keepsCreated_bind (keepsCreated_io _ _) fun _ => keepsCreated_bind (keepsCreated_io _ _)
      fun temporary => keepsCreated_tryCatch ?work fun e => ?tidy
    case work =>
      exact keepsCreated_bind (keepsCreated_extracting _ _ _ _) fun s =>
        keepsCreated_bind (keepsCreated_io _ _) fun _ =>
          keepsCreated_bind (keepsCreated_io _ _) fun _ => keepsCreated_pure _
    case tidy => exact keepsCreated_bind (keepsCreated_tryIo _) fun _ => keepsCreated_throw _
  · exact keepsCreated_throw _

theorem madeOnly_plan (ht : ofClass d p id = .ok t) (hk : k.Issued) :
    After (plan d p id) g k fun _ _ l => k.MadeOnly (fun _ => False) l :=
  have hsparing : Sparing k.here (· < k.nextFile) (fun _ => True) (fun _ => False)
      (plan d p id : Task OnDisk _) := sparing_plan ht fun _ _ => trivial
  (hsparing g k ⟨rfl, fun _ h => h⟩).mono fun _ _ _ h => h.madeOnly hk

theorem madeOnly_extract (ht : ofClass d p id = .ok t) (hk : k.Issued) :
    After (t.extract d p) g k fun _ _ l =>
      k.MadeOnly (fun location => Stray location ∨ location = t.trap.locationFrom k.here) l :=
  have hsparing : Sparing k.here (· < k.nextFile) (fun _ => True)
      (fun location => Stray location ∨ location = t.trap.locationFrom k.here)
      (t.extract d p : Task OnDisk _) :=
    (placing_extract ht fun name => .inl (stray_beside _ name)).sparing trivial (.inr rfl)
  (hsparing g k ⟨rfl, fun _ h => h⟩).mono fun _ _ _ h => h.madeOnly hk

theorem madeOnly_of_extract_error (ht : ofClass d p id = .ok t) (hk : k.Issued)
    {e : ExtractError} (hrun : Goes (t.extract d p) g k (.error e) g' l) :
    k.MadeOnly Stray l :=
  have hready : k.Ready k.here (· < k.nextFile) := ⟨rfl, fun _ h => h⟩
  ((placing_extract ht (stray_beside _)).of_error hready hrun).madeOnly hk

theorem madeOnly_commit (ht : ofClass d p id = .ok t) (hk : k.Issued) (ids : List DeclId) :
    After (t.commit p ids) g k fun _ _ l =>
      k.MadeOnly (fun location => Stray location ∨ location = t.place k.here) l := by
  have hsparing : Sparing k.here (· < k.nextFile) (fun _ => True)
      (fun location => Stray location ∨ location = t.place k.here)
      (t.commit p ids : Task OnDisk _) :=
    sparing_commit ht ⟨trivial, .inl (lastChar?_dependencies ht), fun name =>
      .inl (stray_beside _ name)⟩ ⟨trivial, .inr rfl, fun name => .inl (stray_beside _ name)⟩ ids
  exact (hsparing g k ⟨rfl, fun _ h => h⟩).mono fun _ _ _ h => h.madeOnly hk

theorem trap_of_commit (ht : ofClass d p id = .ok t) (hk : k.Issued) {file : Nat}
    (hfile : k.entry? (t.trap.locationFrom k.here) = some (.file file)) (ids : List DeclId) :
    After (t.commit p ids) g k fun _ _ l =>
      l.entry? (t.trap.locationFrom k.here) = some (.file file) ∧
        l.contentsOf file = k.contentsOf file := by
  have hne {location : Location} {c : Char} (hlast : Path.lastChar? location = some c)
      (hc : c ≠ 'z') : location ≠ t.trap.locationFrom k.here := fun heq =>
    hc (Option.some.inj (hlast.symm.trans ((congrArg _ heq).trans (lastChar?_trap ht))))
  have hsparing : Sparing k.here (· < k.nextFile) (· ≠ t.trap.locationFrom k.here)
      (fun _ => True) (t.commit p ids : Task OnDisk _) :=
    sparing_commit ht ⟨hne (lastChar?_dependencies ht) (by decide), trivial, fun _ => trivial⟩
      ⟨hne (lastChar?_place ht) (by decide), trivial, fun _ => trivial⟩ ids
  exact (hsparing g k ⟨rfl, fun _ h => h⟩).mono fun _ _ _ h =>
    ⟨h.file _ file (fun hne => hne rfl) hfile, h.contents file (hk _ file hfile)⟩

/-- If sidecars fail, there are no new metadata, and the trap is not listed. -/
theorem of_commit_error (ht : ofClass d p id = .ok t) (hk : k.Issued) {ids : List DeclId}
    {e : ExtractError} (hrun : Goes (t.commit p ids) g k (.error e) g' l) :
    k.MadeOnly Stray l ∧ g'.created = g.created := by
  obtain ⟨-, ⟨dep, hdep⟩, metadata, hmeta⟩ := fileName?_of_ofClass ht
  have hplacing {path : Path} {name : String} (hname : path.fileName? = some name) (j : Disk)
      (contents : String) : Placing j.here (· < j.nextFile) Stray (path.locationFrom j.here)
        (replaceSidecar path contents : Task OnDisk _) :=
    placing_replaceSidecar hname (stray_beside _) contents
  have hcreated {path : Path} {contents : String} :
      KeepsCreated (replaceSidecar path contents : Task OnDisk _) := keepsCreated_io _ _
  have hready (j : Disk) : j.Ready j.here (· < j.nextFile) := ⟨rfl, fun _ h => h⟩
  unfold Goes commit at hrun
  rw [run_bind] at hrun
  rcases hfirst : (replaceSidecar t.dependencies (t.dependencyLines p ids) :
    Task OnDisk _).run.run g k with ⟨⟨e₁ | _, g₁⟩, k₁⟩ <;> rw [hfirst] at hrun
  · cases hrun
    exact ⟨((hplacing hdep k _).of_error (hready k) hfirst).madeOnly hk,
      (hcreated g k).of_run hfirst⟩
  have hsparing : Sparing k.here (· < k.nextFile) (fun _ => True) Stray
      (replaceSidecar t.dependencies (t.dependencyLines p ids) : Task OnDisk _) :=
    (hplacing hdep k _).sparing trivial (lastChar?_dependencies ht)
  have hmade : k.MadeOnly Stray k₁ := ((hsparing g k (hready k)).of_run hfirst).madeOnly hk
  dsimp only at hrun
  rw [run_bind] at hrun
  rcases hsecond : (replaceSidecar t.metadata (metadataOf t.fingerprint ++ "\n") :
    Task OnDisk _).run.run g₁ k₁ with ⟨⟨e₂ | _, g₂⟩, k₂⟩ <;> rw [hsecond] at hrun <;> cases hrun
  exact ⟨hmade.trans
      (((hplacing hmeta k₁ _).of_error (hready k₁) hsecond).madeOnly hmade.issued),
    ((hcreated g₁ k₁).of_run hsecond).trans ((hcreated g k).of_run hfirst)⟩

end ClassTrap

namespace Destination

open IrFacts.Task

/-! ## The ways that a class can go -/

/-- How a class can go: what comes of it, and what the steps were on the way. -/
inductive Course (d : Destination) (p : Program) (t : ClassTrap) (g : Progress) (k : Disk) :
    Except ExtractError Bool → Progress → Disk → Prop
  | refused {e : ExtractError} {g' : Progress} {k' : Disk}
      (hplan : Goes (ClassTrap.plan d p t.id) g k (.error e) g' k') :
      Course d p t g k (.error e) g' k'
  | upToDate {g' : Progress} {k' : Disk}
      (hplan : Goes (ClassTrap.plan d p t.id) g k (.ok .upToDate) g' k') :
      Course d p t g k (.ok false) g' k'
  | unwritten {e : ExtractError} {g₁ g' : Progress} {k₁ k' : Disk}
      (hplan : Goes (ClassTrap.plan d p t.id) g k (.ok (.write t)) g₁ k₁)
      (hextract : Goes (t.extract d p) g₁ k₁ (.error e) g' k') :
      Course d p t g k (.error e) g' k'
  | bare {e : ExtractError} {ids : List DeclId} {g₁ g₂ g' : Progress} {k₁ k₂ k' : Disk}
      (hplan : Goes (ClassTrap.plan d p t.id) g k (.ok (.write t)) g₁ k₁)
      (hextract : Goes (t.extract d p) g₁ k₁ (.ok ids) g₂ k₂)
      (hcommit : Goes (t.commit p ids) g₂ k₂ (.error e) g' k') :
      Course d p t g k (.error e) g' k'
  | written {ids : List DeclId} {g₁ g₂ g' : Progress} {k₁ k₂ k' : Disk}
      (hplan : Goes (ClassTrap.plan d p t.id) g k (.ok (.write t)) g₁ k₁)
      (hextract : Goes (t.extract d p) g₁ k₁ (.ok ids) g₂ k₂)
      (hcommit : Goes (t.commit p ids) g₂ k₂ (.ok ()) g' k') :
      Course d p t g k (.ok true) g' k'

variable {d : Destination} {p : Program} {id : DeclId} {t : ClassTrap}
variable {g g' : Progress} {k k' : Disk} {ids : List DeclId} {e : ExtractError}

theorem course_of_run (ht : ClassTrap.ofClass d p id = .ok t) {r : Except ExtractError Bool}
    (hrun : Goes (d.extractClass p id) g k r g' k') : Course d p t g k r g' k' := by
  obtain ⟨-, -, -, -, rfl, -⟩ := ClassTrap.ofClass_ok ht
  unfold Goes extractClass at hrun
  rw [run_bind] at hrun
  rcases hplan : (ClassTrap.plan d p t.id : Task OnDisk _).run.run g k with ⟨⟨e | a, g₁⟩, k₁⟩ <;>
    rw [hplan] at hrun
  · cases hrun
    exact .refused hplan
  rcases ((ClassTrap.plan_yields ht).of_run hplan).2 with rfl | ⟨rfl, -⟩
  · dsimp only at hrun
    rw [run_bind] at hrun
    rcases hextract : (t.extract d p : Task OnDisk _).run.run g₁ k₁ with ⟨⟨e | ids, g₂⟩, k₂⟩ <;>
      rw [hextract] at hrun
    · cases hrun
      exact .unwritten hplan hextract
    dsimp only at hrun
    rw [run_bind] at hrun
    rcases hcommit : (t.commit p ids : Task OnDisk _).run.run g₂ k₂ with ⟨⟨e | _, g₃⟩, k₃⟩ <;>
      rw [hcommit] at hrun <;> cases hrun
    · exact .bare hplan hextract hcommit
    · exact .written hplan hextract hcommit
  · cases hrun
    exact .upToDate hplan

/-- The trap of a class is put in its place, but its sidecars cannot be written. -/
def SidecarsFail (d : Destination) (p : Program) (id : DeclId) (g : Progress) (k : Disk) : Prop :=
  ∃ t g₁ k₁ ids g₂ k₂ e g' k', Goes (ClassTrap.plan d p id) g k (.ok (.write t)) g₁ k₁ ∧
    Goes (t.extract d p) g₁ k₁ (.ok ids) g₂ k₂ ∧ Goes (t.commit p ids) g₂ k₂ (.error e) g' k'

theorem trap_of_extract
    (hrun : Goes (t.extract d p) g k (.ok ids) g' k') :
    ∃ file, k'.entry? (t.trap.locationFrom k'.here) = some (.file file) ∧
      t.Extracts d p (k'.contentsOf file) := by
  obtain ⟨s, file, hs, hfile, hcontents⟩ := ClassTrap.extract_writes.of_run hrun
  exact ⟨file, Disk.fileAt_ok hfile, g, s, hs, hcontents⟩

/-- A class that fails is not listed. No files of note are made but for the trap, and this only
if the sidecars fail. -/
theorem Course.failed (ht : ClassTrap.ofClass d p id = .ok t) (hk : k.Issued)
    (h : Course d p t g k (.error e) g' k') :
    g'.created = g.created ∧ (¬d.SidecarsFail p id g k → k.MadeOnly ClassTrap.Stray k') ∧
      (d.SidecarsFail p id g k →
        k.MadeOnly (fun location => ClassTrap.Stray location ∨
          location = t.trap.locationFrom k.here) k' ∧
        ∃ file, k'.entry? (t.trap.locationFrom k.here) = some (.file file) ∧
          t.Extracts d p (k'.contentsOf file)) := by
  obtain ⟨-, -, -, -, rfl, -⟩ := ClassTrap.ofClass_ok ht
  have hplanned {r g₁ k₁} (hplan : Goes (ClassTrap.plan d p t.id) g k r g₁ k₁) :
      g₁.created = g.created ∧ k.MadeOnly (fun _ => False) k₁ :=
    ⟨(ClassTrap.keepsCreated_plan g k).of_run hplan, (ClassTrap.madeOnly_plan ht hk).of_run hplan⟩
  have hextracted {r g₁ k₁ g₂ k₂} (hextract : Goes (t.extract d p) g₁ k₁ r g₂ k₂) :
      g₂.created = g₁.created := (ClassTrap.keepsCreated_extract g₁ k₁).of_run hextract
  cases h with
  | refused hplan =>
    obtain ⟨hcreated, hmade⟩ := hplanned hplan
    refine ⟨hcreated, fun _ => hmade.mono fun _ => False.elim, ?_⟩
    rintro ⟨_, _, _, _, _, _, _, _, _, hother, -⟩
    cases hplan.symm.trans hother
  | unwritten hplan hextract =>
    obtain ⟨hcreated, hmade⟩ := hplanned hplan
    refine ⟨(hextracted hextract).trans hcreated, fun _ => (hmade.mono fun _ => False.elim).trans
      (ClassTrap.madeOnly_of_extract_error ht hmade.issued hextract), ?_⟩
    rintro ⟨_, _, _, _, _, _, _, _, _, hother, hsecond, -⟩
    cases hplan.symm.trans hother
    cases hextract.symm.trans hsecond
  | bare hplan hextract hcommit =>
    obtain ⟨hcreated, hmade⟩ := hplanned hplan
    have hmade₂ := (ClassTrap.madeOnly_extract ht hmade.issued).of_run hextract
    obtain ⟨hmade₃, hcreated₃⟩ := ClassTrap.of_commit_error ht hmade₂.issued hcommit
    refine ⟨(hcreated₃.trans (hextracted hextract)).trans hcreated, fun hnot =>
      absurd ⟨_, _, _, _, _, _, _, _, _, hplan, hextract, hcommit⟩ hnot, fun _ => ⟨?_, ?_⟩⟩
    · rw [hmade.here] at hmade₂
      exact ((hmade.mono fun _ => False.elim).trans hmade₂).trans (hmade₃.mono fun _ => .inl)
    · obtain ⟨file, hfile, hextracts⟩ := trap_of_extract hextract
      obtain ⟨hstays, hcontents⟩ :=
        (ClassTrap.trap_of_commit ht hmade₂.issued hfile _).of_run hcommit
      rw [hmade₂.here, hmade.here] at hstays
      exact ⟨file, hstays, hcontents ▸ hextracts⟩

/-! ## Honest metadata -/

/-- Metadata of a class that does not fail vouch for the trap that it was extracted into. -/
theorem honest_of_ok (ht : ClassTrap.ofClass d p id = .ok t) (hk : k.Issued) (h : k.Honest)
    {written : Bool} (hrun : Goes (d.extractClass p id) g k (.ok written) g' k') :
    k'.Issued ∧ k'.Honest := by
  have hkept := (extractClass_keeps ht).of_run hrun
  have hplanned {r g₁ k₁} (hplan : Goes (ClassTrap.plan d p t.id) g k r g₁ k₁) :
      k.MadeOnly (fun _ => False) k₁ :=
    (ClassTrap.madeOnly_plan (ClassTrap.ofClass_self ht) hk).of_run hplan
  cases course_of_run ht hrun with
  | upToDate hplan =>
    have hmade := hplanned hplan
    exact ⟨hmade.issued, fun folder last => (h folder last).of_old hmade.here
      (hmade.old _ not_false) (hmade.old _ not_false)⟩
  | written hplan hextract hcommit =>
    have hmade := hplanned hplan
    have hmade₂ := (ClassTrap.madeOnly_extract ht hmade.issued).of_run hextract
    have hmade₃ := (ClassTrap.madeOnly_commit ht hmade₂.issued _).of_run hcommit
    obtain ⟨file, hfile, hextracts⟩ := trap_of_extract hextract
    obtain ⟨hstays, hcontents⟩ :=
      (ClassTrap.trap_of_commit ht hmade₂.issued hfile _).of_run hcommit
    rw [hmade₂.here, hmade.here] at hmade₃ hstays
    rw [hmade.here] at hmade₂
    have hmadeAll : k.MadeOnly (t.Footprint k.here) k' := by
      refine ((hmade.mono fun _ => False.elim).trans (hmade₂.mono ?_)).trans (hmade₃.mono ?_)
      · rintro location (hstray | htrap)
        · exact .inr (.inr hstray)
        · exact .inl htrap
      · rintro location (hstray | hplace)
        · exact .inr (.inr hstray)
        · exact .inr (.inl hplace)
    refine ⟨hmadeAll.issued, ClassTrap.honest_of_own ht h hmadeAll ?_⟩
    intro file' other text fingerprint hfile' hother htext hvouches
    obtain ⟨other', text', hother', htext', hvouches'⟩ := hkept.metadata
    cases hstays.symm.trans hfile'
    have hentry := Disk.fileAt_ok hother'
    rw [hmadeAll.here] at hentry
    cases hentry.symm.trans hother
    cases htext.symm.trans htext'
    exact ⟨d, p, id, t, ht, by rw [hmadeAll.here], ClassTrap.vouches_inj hvouches' hvouches,
      hcontents ▸ hextracts⟩

/-- Sidecars fail, and metadata that were left behind stand beside the new trap. -/
def Mixes (d : Destination) (p : Program) (id : DeclId) (g : Progress) (k : Disk) : Prop :=
  d.SidecarsFail p id g k ∧ ∃ t r g' k' file, ClassTrap.ofClass d p id = .ok t ∧
    Goes (d.extractClass p id) g k r g' k' ∧ k'.entry? (t.place k.here) = some (.file file)

/-- Metadata stay honest, whatever comes of a class, as long as none stand beside a trap without
sidecars of its own. -/
theorem honest_of_extractClass (hk : k.Issued) (h : k.Honest) {r : Except ExtractError Bool}
    (hrun : Goes (d.extractClass p id) g k r g' k') (hmixes : ¬d.Mixes p id g k) :
    k'.Issued ∧ k'.Honest := by
  cases ht : ClassTrap.ofClass d p id with
  | error e =>
    obtain rfl : k = k' := by
      rw [Goes, run_extractClass_of_error ht] at hrun
      cases hrun
      rfl
    exact ⟨hk, h⟩
  | ok t =>
    cases r with
    | ok written => exact honest_of_ok ht hk h hrun
    | error e =>
      obtain ⟨-, hneither, hbare⟩ := (course_of_run ht hrun).failed ht hk
      by_cases hfail : d.SidecarsFail p id g k
      · obtain ⟨hmade, -⟩ := hbare hfail
        refine ⟨hmade.issued, ClassTrap.honest_of_own ht h (hmade.mono ?_) ?_⟩
        · rintro location (hstray | htrap)
          · exact .inr (.inr hstray)
          · exact .inl htrap
        · intro file other text fingerprint hfile hother
          exact absurd ⟨hfail, t, _, g', k', other, ht, hrun, hother⟩ hmixes
      · have hmade := hneither hfail
        refine ⟨hmade.issued, fun folder last => (h folder last).of_old hmade.here
          (hmade.old _ fun hstray => ?_) (hmade.old _ fun hstray => ?_)⟩
        · cases (ClassTrap.lastChar?_ending folder last).1.symm.trans hstray
        · cases (ClassTrap.lastChar?_ending folder last).2.symm.trans hstray

/-- Attempts to extract classes, one after the other: of any programs, into any directories,
whatever fails. None of them leaves metadata beside a trap without sidecars of its own. -/
inductive Attempts (k : Disk) : Disk → Prop
  | none : Attempts k k
  | next {d : Destination} {p : Program} {id : DeclId} {g g' : Progress} {l m : Disk}
      {r : Except ExtractError Bool} (before : Attempts k l)
      (hrun : Goes (d.extractClass p id) g l r g' m) (hmixes : ¬d.Mixes p id g l) : Attempts k m

theorem Attempts.honest (h : Attempts k k') (hk : k.Issued) (hhonest : k.Honest) :
    k'.Issued ∧ k'.Honest := by
  induction h with
  | none => exact ⟨hk, hhonest⟩
  | next before hrun hmixes ih => exact honest_of_extractClass ih.1 ih.2 hrun hmixes

/-- A class that fails leaves no output, unless it is the sidecars that fail: whatever attempts
were made before, and whichever file operation fails, the class is not listed, its metadata are at
most those that were there before, and so is its trap. If the sidecars fail, then the new trap
stays. Metadata never vouch for a trap that they were not written with, as long as no sidecars
fail beside metadata that were left behind. -/
theorem failed_leaves_nothing {l : Disk} (hk : k.Issued) (hhonest : k.Honest)
    (hattempts : Attempts k l) (hrun : Goes (d.extractClass p id) g l (.error e) g' k') :
    g'.created = g.created ∧
    (∀ t, ClassTrap.ofClass d p id = .ok t →
      Disk.OldAt l k' (t.place l.here) ∧
      (¬d.SidecarsFail p id g l → Disk.OldAt l k' (t.trap.locationFrom l.here)) ∧
      (d.SidecarsFail p id g l → ∃ file,
        k'.entry? (t.trap.locationFrom l.here) = some (.file file) ∧
          t.Extracts d p (k'.contentsOf file))) ∧
    l.Honest ∧ (¬d.Mixes p id g l → k'.Honest) := by
  obtain ⟨hissued, hhonest⟩ := hattempts.honest hk hhonest
  refine ⟨?_, fun t ht => ?_, hhonest, fun hmixes =>
    (honest_of_extractClass hissued hhonest hrun hmixes).2⟩
  · cases ht : ClassTrap.ofClass d p id with
    | error e =>
      rw [Goes, run_extractClass_of_error ht] at hrun
      cases hrun
      rfl
    | ok t => exact ((course_of_run ht hrun).failed ht hissued).1
  · obtain ⟨-, hneither, hbare⟩ := (course_of_run ht hrun).failed ht hissued
    have hplace : ¬ClassTrap.Stray (t.place l.here) := fun hstray => by
      cases (ClassTrap.lastChar?_place ht).symm.trans hstray
    have htrap : ¬ClassTrap.Stray (t.trap.locationFrom l.here) := fun hstray => by
      cases (ClassTrap.lastChar?_trap ht).symm.trans hstray
    refine ⟨?_, fun hfail => (hneither hfail).old _ htrap, fun hfail => (hbare hfail).2⟩
    by_cases hfail : d.SidecarsFail p id g l
    · refine (hbare hfail).1.old _ fun hor => hor.elim hplace fun heq => ?_
      cases (ClassTrap.lastChar?_place ht).symm.trans
        ((congrArg _ heq).trans (ClassTrap.lastChar?_trap ht))
    · exact (hneither hfail).old _ hplace

theorem not_sidecarsFail {written : Bool}
    (hrun : Goes (d.extractClass p id) g k (.ok written) g' k') : ¬d.SidecarsFail p id g k := by
  rintro ⟨t, g₁, k₁, ids, g₂, k₂, e, g₃, k₃, hplan, hextract, hcommit⟩
  unfold Goes extractClass at hrun
  rw [run_bind, hplan] at hrun
  dsimp only at hrun
  rw [run_bind, hextract] at hrun
  dsimp only at hrun
  rw [run_bind, hcommit] at hrun
  cases hrun

/-- A class fails when the files that were kept for another fingerprint cannot be removed. -/
theorem extractClass_of_discard {u : ClassTrap} (ht : ClassTrap.ofClass d p id = .ok t)
    (hkept : u.Kept k) (htrap : u.trap = t.trap) (hmetadata : u.metadata = t.metadata)
    (hne : u.fingerprint ≠ t.fingerprint) (hfree : k.refuses k.calls = none)
    (hdiscard : Goes t.discard g k.counted (.error e) g' k') :
    Goes (d.extractClass p id) g k (.error e) g' k' := by
  obtain ⟨file, text, hfile, htext, hvouches⟩ := hkept.metadata
  have hnot : ¬ClassTrap.vouches text t.fingerprint = true :=
    fun h => hne (ClassTrap.vouches_inj hvouches h)
  unfold Goes extractClass
  rw [run_bind, ClassTrap.plan_of_found ht (htrap ▸ hkept.trap) (hmetadata ▸ hfile) htext hfree,
    if_neg hnot, run_bind, hdiscard]

/-- A disk without files on which some operations fail. -/
def refusing (failing : List Nat) : Disk :=
  { Disk.ofFolder ["home"] with
    refuses := fun n => if n ∈ failing then some (.other "refused") else none }

/-- Whether the first of two interfaces failed on such a disk, and what is in the place of its trap
then. -/
def refusedAt (n : Nat) : Bool × Option Entry :=
  let run := (extractClass ⟨⟨"trap"⟩, "inv"⟩ ClassTrap.mutualPair ⟨0⟩ : Task OnDisk _).run.run {}
    (refusing [n])
  (run.1.1.toOption.isNone,
    Disk.entry? run.2 ["home", "trap", "classes", "lib", "A.members.trap.gz"])

theorem goes_of_refusedAt {n : Nat} {found : Option Entry} (h : refusedAt n = (true, found)) :
    ∃ e g' k', Goes (extractClass ⟨⟨"trap"⟩, "inv"⟩ ClassTrap.mutualPair ⟨0⟩) {} (refusing [n])
        (.error e) g' k' ∧
      k'.entry? ["home", "trap", "classes", "lib", "A.members.trap.gz"] = found := by
  unfold refusedAt at h
  rcases hrun : (extractClass ⟨⟨"trap"⟩, "inv"⟩ ClassTrap.mutualPair ⟨0⟩ :
    Task OnDisk _).run.run {} (refusing [n]) with ⟨⟨e | a, g'⟩, k'⟩ <;> rw [hrun] at h
  · exact ⟨e, g', k', hrun, (Prod.mk.inj h).2⟩
  · cases h

/-! ## An interface that has changed -/

/-- The first of the two interfaces no longer extends the other one. -/
def loosePair : Program :=
  { ClassTrap.mutualPair with
    declarations := ClassTrap.mutualPair.declarations.setIfInBounds 0
      { parent := .package "lib", origin := .externalStub
        kind := .class { name := "A", kind := .interface } } }

theorem fingerprint_loosePair {t u : ClassTrap}
    (ht : ClassTrap.ofClass d ClassTrap.mutualPair ⟨0⟩ = .ok t)
    (hu : ClassTrap.ofClass d loosePair ⟨0⟩ = .ok u) : t.fingerprint ≠ u.fingerprint := by
  have hne : (ClassTrap.mutualPair.fingerprint ⟨0⟩).toOption ≠
      (loosePair.fingerprint ⟨0⟩).toOption := by
    simp only [Program.fingerprint, Program.fingerprintBytes, Program.encodedDecl, bytesOf,
      toList_eq_data]
    decide +kernel
  obtain ⟨-, c, -, hc, -, hdigest, -⟩ := ClassTrap.ofClass_ok ht
  obtain ⟨-, c', -, hc', -, hdigest', -⟩ := ClassTrap.ofClass_ok hu
  intro hsame
  rw [Program.fingerprint, Program.fingerprint, hc, hc'] at hne
  exact hne (congrArg some (hdigest.symm.trans (hsame.trans hdigest')))

/-- Whether a class is extracted, an outdated trap of it cannot be removed entirely then, and
another attempt fails. In between there are metadata but no trap. -/
def failsLater (d : Destination) (p q : Program) (k : Disk) (t : ClassTrap) : Bool :=
  let vacant (l : Disk) (place : Location) : Bool := Option.isNone <| l.entry? place
  let first := (d.extractClass p t.id : Task OnDisk _).run.run {} k
  let second := (t.discard : Task OnDisk _).run.run {} first.2.counted
  let third := (d.extractClass q t.id : Task OnDisk _).run.run {} second.2
  first.1.1.isOk && (first.2.refuses first.2.calls).isNone && !second.1.1.isOk &&
    !third.1.1.isOk && vacant second.2 (t.trap.locationFrom k.here) &&
    !vacant second.2 (t.place k.here) && vacant third.2 (t.trap.locationFrom k.here)

theorem goes_of_failsLater {q : Program} (h : failsLater d p q k t = true) :
    ∃ written g₁ k₁ e₂ g₂ k₂ e₃ g₃ k₃,
      Goes (d.extractClass p t.id) {} k (.ok written) g₁ k₁ ∧ k₁.refuses k₁.calls = none ∧
      Goes t.discard {} k₁.counted (.error e₂) g₂ k₂ ∧
      Goes (d.extractClass q t.id) {} k₂ (.error e₃) g₃ k₃ ∧
      k₂.entry? (t.trap.locationFrom k.here) = none ∧
      k₂.entry? (t.place k.here) ≠ none ∧
      k₃.entry? (t.trap.locationFrom k.here) = none := by
  unfold failsLater at h
  dsimp only at h
  rcases hfirst : (d.extractClass p t.id : Task OnDisk _).run.run {} k with
    ⟨⟨_ | written, g₁⟩, k₁⟩ <;> rw [hfirst] at h
  · cases h
  rcases hsecond : (t.discard : Task OnDisk _).run.run {} k₁.counted with ⟨⟨e₂ | _, g₂⟩, k₂⟩ <;>
    rw [hsecond] at h
  · rcases hthird : (d.extractClass q t.id : Task OnDisk _).run.run {} k₂ with
      ⟨⟨e₃ | _, g₃⟩, k₃⟩ <;> rw [hthird] at h
    · simp only [Except.isOk, Except.toBool, Bool.and_eq_true, Bool.not_false, Bool.true_and,
        Bool.and_true, Bool.not_eq_true', Option.isNone_iff_eq_none] at h
      obtain ⟨⟨⟨hfree, hnone⟩, hsome⟩, hnone₃⟩ := h
      exact ⟨written, g₁, k₁, e₂, g₂, k₂, e₃, g₃, k₃, hfirst, hfree, hsecond, hthird, hnone,
        Option.isSome_iff_ne_none.mp (Option.isNone_eq_false_iff.mp hsome), hnone₃⟩
    · simp [Except.isOk, Except.toBool] at h
  · simp [Except.isOk, Except.toBool] at h

set_option maxRecDepth 100000 in
/-- The metadata of the first interface cannot be removed when it has changed, and at the next
attempt its trap cannot be moved to its place. -/
theorem failsLater_loosePair : ∃ u,
    ClassTrap.ofClass ⟨⟨"trap"⟩, "inv"⟩ loosePair ⟨0⟩ = .ok u ∧
      failsLater ⟨⟨"trap"⟩, "inv"⟩ ClassTrap.mutualPair loosePair (refusing [16, 20]) u = true := by
  have hany : (ClassTrap.ofClass ⟨⟨"trap"⟩, "inv"⟩ loosePair ⟨0⟩).toOption.any
      (failsLater ⟨⟨"trap"⟩, "inv"⟩ ClassTrap.mutualPair loosePair (refusing [16, 20])) = true := by
    decide +kernel
  cases hu : ClassTrap.ofClass ⟨⟨"trap"⟩, "inv"⟩ loosePair ⟨0⟩ with
  | error e =>
    rw [hu] at hany
    cases hany
  | ok u =>
    rw [hu, Except.toOption, Option.any_some] at hany
    exact ⟨u, rfl, hany⟩

theorem here_of_extractClass {r : Except ExtractError Bool}
    (hrun : Goes (d.extractClass p id) g k r g' k') : k'.here = k.here := by
  have hanywhere (location : Location) : Disk.Room (fun _ => True) (fun _ => True) location :=
    ⟨trivial, trivial, fun _ => trivial⟩
  have hsparing : Sparing k.here (· < k.nextFile) (fun _ => True) (fun _ => True)
      (d.extractClass p id : Task OnDisk _) := sparing_extractClass fun _ _ =>
    ⟨hanywhere _, hanywhere _, hanywhere _⟩
  exact ((hsparing g k ⟨rfl, fun _ h => h⟩).of_run hrun).here

theorem not_sidecarsFail_of_missing (ht : ClassTrap.ofClass d p id = .ok t) (hk : k.Issued)
    (hrun : Goes (d.extractClass p id) g k (.error e) g' k')
    (hmissing : k'.entry? (t.trap.locationFrom k.here) = none) : ¬d.SidecarsFail p id g k := by
  intro hfail
  obtain ⟨-, -, hbare⟩ := (course_of_run ht hrun).failed ht hk
  obtain ⟨-, file, hfile, -⟩ := hbare hfail
  cases hmissing.symm.trans hfile

set_option maxRecDepth 100000 in
/-- If the trap cannot be moved to its place, then it is not there. If the next operation fails,
which is the first for the sidecars, then it is. And if it was removed because the class has
changed, but not the metadata, then an attempt that fails later leaves these as they are. -/
theorem failed_leaves_nothing_refused :
    let d : Destination := ⟨⟨"trap"⟩, "inv"⟩
    let p := ClassTrap.mutualPair
    let place : Location := ["home", "trap", "classes", "lib", "A.members.trap.gz"]
    (∃ e g' k', Goes (d.extractClass p ⟨0⟩) {} (refusing [7]) (.error e) g' k' ∧ g'.created = [] ∧
      ¬d.SidecarsFail p ⟨0⟩ {} (refusing [7]) ∧ k'.entry? place = none ∧ k'.Honest) ∧
    (∃ e g' k', Goes (d.extractClass p ⟨0⟩) {} (refusing [8]) (.error e) g' k' ∧ g'.created = [] ∧
      d.SidecarsFail p ⟨0⟩ {} (refusing [8]) ∧ k'.entry? place = some (.file 0)) ∧
    ∃ u k e g' k', ClassTrap.ofClass d loosePair ⟨0⟩ = .ok u ∧ Attempts (refusing [16, 20]) k ∧
      Goes (d.extractClass loosePair ⟨0⟩) {} k (.error e) g' k' ∧ g'.created = [] ∧
      k.entry? (u.place k.here) ≠ none ∧ Disk.OldAt k k' (u.place k.here) ∧
      k'.entry? (u.trap.locationFrom k.here) = none ∧ k'.Honest := by
  intro d p place
  have hblank (failing : List Nat) :
      ∀ location file, Disk.entry? (refusing failing) location ≠ some (.file file) :=
    Disk.entry?_ofFolder _
  have hissued (failing : List Nat) : (refusing failing).Issued := fun location file he =>
    absurd he (hblank failing location file)
  have hlocation : (ClassTrap.ofClass d p ⟨0⟩).toOption.map (·.trap.locationFrom ["home"]) =
      some place := by decide +kernel
  obtain ⟨t, ht, htrap⟩ : ∃ t, ClassTrap.ofClass d p ⟨0⟩ = .ok t ∧
      t.trap.locationFrom ["home"] = place := by
    cases ht : ClassTrap.ofClass d p ⟨0⟩ with
    | error e =>
      rw [ht] at hlocation
      cases hlocation
    | ok t =>
      rw [ht] at hlocation
      exact ⟨t, rfl, Option.some.inj hlocation⟩
  refine ⟨?_, ?_, ?_⟩
  · have hseven : refusedAt 7 = (true, none) := by decide +kernel
    obtain ⟨e, g', k', hrun, hfound⟩ := goes_of_refusedAt hseven
    obtain ⟨hcreated, -, -, hhonest⟩ := failed_leaves_nothing (hissued [7])
      (Disk.honest_of_blank (hblank [7])) .none hrun
    have hfail : ¬d.SidecarsFail p ⟨0⟩ {} (refusing [7]) :=
      not_sidecarsFail_of_missing ht (hissued [7]) hrun ((congrArg _ htrap).trans hfound)
    exact ⟨e, g', k', hrun, hcreated, hfail, hfound, hhonest fun hmixes => hfail hmixes.1⟩
  · have height : refusedAt 8 = (true, some (.file 0)) := by decide +kernel
    obtain ⟨e, g', k', hrun, hfound⟩ := goes_of_refusedAt height
    obtain ⟨hcreated, hclass, -⟩ := failed_leaves_nothing (hissued [8])
      (Disk.honest_of_blank (hblank [8])) .none hrun
    refine ⟨e, g', k', hrun, hcreated, by_contra fun hfail => ?_, hfound⟩
    obtain ⟨-, hold, -⟩ := hclass t ht
    exact hblank [8] _ 0 ((hold hfail) 0 (htrap ▸ hfound)).1
  · obtain ⟨u, hu, hlater⟩ := failsLater_loosePair
    obtain ⟨-, -, -, -, hid, -⟩ := ClassTrap.ofClass_ok hu
    obtain ⟨written, g₁, k₁, e₂, g₂, k₂, e₃, g₃, k₃, hfirst, hfree, hdiscard, hthird, hmissing,
      hleft, hmissing₃⟩ := goes_of_failsLater hlater
    rw [hid] at hfirst hthird
    have hname : p.binaryName? ⟨0⟩ = loosePair.binaryName? ⟨0⟩ := by decide +kernel
    obtain ⟨htraps, hmetadata⟩ := ClassTrap.paths_of_binaryName hname ht hu
    -- The first attempt writes the class, the second one finds it outdated and fails.
    have hsecond : Goes (d.extractClass loosePair ⟨0⟩) {} k₁ (.error e₂) g₂ k₂ :=
      extractClass_of_discard hu ((extractClass_keeps ht).of_run hfirst) htraps hmetadata
        (fingerprint_loosePair ht hu) hfree hdiscard
    have hbefore : Attempts (refusing [16, 20]) k₁ :=
      .next .none hfirst fun hmixes => not_sidecarsFail hfirst hmixes.1
    have hhonest := Disk.honest_of_blank (hblank [16, 20])
    obtain ⟨hissued₁, -⟩ := hbefore.honest (hissued _) hhonest
    have hhere₁ : k₁.here = ["home"] := here_of_extractClass hfirst
    have hhere₂ : k₂.here = ["home"] := (here_of_extractClass hsecond).trans hhere₁
    have hfail₂ : ¬d.SidecarsFail loosePair ⟨0⟩ {} k₁ :=
      not_sidecarsFail_of_missing hu hissued₁ hsecond (by rw [hhere₁]; exact hmissing)
    have hattempts : Attempts (refusing [16, 20]) k₂ :=
      .next hbefore hsecond fun hmixes => hfail₂ hmixes.1
    obtain ⟨hissued₂, -⟩ := hattempts.honest (hissued _) hhonest
    have hfail₃ : ¬d.SidecarsFail loosePair ⟨0⟩ {} k₂ :=
      not_sidecarsFail_of_missing hu hissued₂ hthird (by rw [hhere₂]; exact hmissing₃)
    obtain ⟨hcreated, hclass, -, hhonest₃⟩ :=
      failed_leaves_nothing (hissued _) hhonest hattempts hthird
    obtain ⟨hold, -⟩ := hclass u hu
    exact ⟨u, k₂, e₃, g₃, k₃, hu, hattempts, hthird, hcreated, hhere₂ ▸ hleft, hold,
      hhere₂ ▸ hmissing₃, hhonest₃ fun hmixes => hfail₃ hmixes.1⟩

end Destination

end IrFacts
