import IrFacts.Proofs.Output.Rerun
import IrFacts.Proofs.Output.Sparing

/-!
# Where a run puts files

Of each source file a copy, a trap and a set are kept, and of each class a trap
with its sidecars. Everything else that a run makes lies beside one of these
places. So it can be told from them what a run spares, however it ends.
-/

set_option autoImplicit false

namespace IrFacts

namespace Config

variable (config : Config) (here : Location) (source : String)

def setPlace : Location := (config.destination.setPath source).locationFrom here

/-- Where the files of a run are put when they are complete. -/
inductive Target (p : Program) : Location → Prop
  | copy {entry : FileEntry} (file : entry ∈ p.files) (named : (Path.mk entry.path).names ≠ []) :
    Target p (config.copyPlace here entry.path)
  | trap {entry : FileEntry} (file : entry ∈ p.files) : Target p (config.trapPlace here entry.path)
  | set {entry : FileEntry} (file : entry ∈ p.files) : Target p (config.setPlace here entry.path)
  | classTrap {id : DeclId} {t : ClassTrap}
    (ofClass : ClassTrap.ofClass config.destination p id = .ok t) :
    Target p (t.trap.locationFrom here)
  | dependencies {id : DeclId} {t : ClassTrap}
    (ofClass : ClassTrap.ofClass config.destination p id = .ok t) :
    Target p (t.dependencies.locationFrom here)
  | metadata {id : DeclId} {t : ClassTrap}
    (ofClass : ClassTrap.ofClass config.destination p id = .ok t) :
    Target p (t.metadata.locationFrom here)

/-- There is room for what a source file leaves besides its trap, and beside the trap. -/
structure RoomFor (touched made : Location → Prop) : Prop where
  copy : (Path.mk source).names ≠ [] → Disk.Room touched made (config.copyPlace here source)
  set : Disk.Room touched made (config.setPlace here source)
  beside : ∀ name, made ((config.trapPlace here source).dropLast ++ [name ++ ".tmp"])

/-- There is room for new traps that are kept beside old ones, too. -/
structure FullRoomFor (touched made : Location → Prop) : Prop
    extends config.RoomFor here source touched made where
  different : ∀ name,
    made ((config.trapPlace here source).dropLast ++ [name ++ ".trap.different"])

/-- The trap of a source file may be put in its place, or one is there that nothing touches. -/
def TrapOrRoom (touched made : Location → Prop) (k : Disk) : Prop :=
  touched (config.trapPlace here source) ∧ made (config.trapPlace here source) ∨
    ¬touched (config.trapPlace here source) ∧ ∃ id, k.fileAt (config.sourceTrap source) = .ok id

variable {config here source} {p : Program} {touched made : Location → Prop}

theorem TrapOrRoom.spared {kept : Nat → Prop} {k l : Disk}
    (h : config.TrapOrRoom here source touched made k) (hk : k.here = here)
    (hspares : Disk.Spares kept touched made k l) :
    config.TrapOrRoom here source touched made l := by
  refine h.imp_right fun ⟨htrap, id, hid⟩ => ⟨htrap, id, hspares.fileAt hid ?_⟩
  rw [hk]
  exact htrap

theorem fileName?_sourceTrap (config : Config) (source : String) :
    ∃ name, (config.sourceTrap source).fileName? = some name := by
  obtain ⟨front, hfront⟩ :=
    Path.withSuffix_eq (config.trapDir.join (Path.relativeToRoot source)) ".trap"
  rw [sourceTrap, hfront]
  exact Path.fileName?_of_ending front (by decide) rfl (by decide)

theorem locationFrom_directory_sourceTrap :
    (config.sourceTrap source).directory.locationFrom here =
      (config.trapPlace here source).dropLast := by
  obtain ⟨name, hname⟩ := fileName?_sourceTrap config source
  rw [trapPlace, Path.locationFrom_directory here hname, List.dropLast_concat]

theorem copyPlace_of_names (h : (Path.mk source).names ≠ []) : config.copyPlace here source =
    config.sourceArchiveDir.locationFrom here ++ (Path.mk source).names :=
  Path.locationFrom_join_relativeToRoot here config.sourceArchiveDir h

theorem setPlace_of_names {folders : List String} {last : String}
    (h : (Path.mk source).names = folders ++ [last]) : config.setPlace here source =
      config.trapDir.locationFrom here ++ folders ++ [last ++ ".set"] :=
  Path.locationFrom_withSuffix_of_names here config.trapDir (by decide) rfl (by decide) h

theorem nameEnds_setPlace : Path.NameEnds ".set" (config.setPlace here source) :=
  Path.nameEnds_withSuffix here _ (by decide) rfl (by decide)

theorem fullRoomFor_of_targets
    (h : ∀ location, config.Target here p location → Disk.Room touched made location)
    (hdifferent : ∀ entry ∈ p.files, ∀ name,
      made ((config.trapPlace here entry.path).dropLast ++ [name ++ ".trap.different"]))
    {entry : FileEntry} (hentry : entry ∈ p.files) :
    config.FullRoomFor here entry.path touched made where
  copy hnamed := h _ (.copy hentry hnamed)
  set := h _ (.set hentry)
  beside := (h _ (.trap hentry)).beside
  different := hdifferent _ hentry

theorem roomIn_of_targets
    (h : ∀ location, config.Target here p location → Disk.Room touched made location) :
    config.destination.RoomIn p here touched made := fun _ _ ht =>
  ⟨h _ (.classTrap ht), h _ (.dependencies ht), h _ (.metadata ht)⟩

end Config

theorem Program.mem_files {p : Program} {id : FileId} {entry : FileEntry}
    (h : p.file? id = some entry) : entry ∈ p.files := Array.mem_of_getElem? h

namespace SourceTrap

open IrFacts.Task

variable {config : Config} {p : Program} {id : FileId} {entry : FileEntry} {source : String}
variable {here : Location} {kept : Nat → Prop} {touched made : Location → Prop}
variable {g : Progress} {k : Disk}

/-! ## One file -/

theorem slash_notMem_front (path : Path) : '/' ∉ (path.fileName?.getD "" ++ ".").toList := by
  cases hname : path.fileName? with
  | none => decide
  | some name => simpa using Path.slash_notMem_fileName hname

theorem sparing_withTemporaryBeside {α : Type} {path : Path} {back : String}
    {work : Path → Task OnDisk α} {name : String} (hname : path.fileName? = some name)
    (hbeside : ∀ name, made ((path.locationFrom here).dropLast ++ [name ++ ".tmp"]))
    (hback : ∃ middle, back = middle ++ ".tmp") (hslash : '/' ∉ back.toList)
    (hwork : ∀ temporary g k, k.Ready here kept → k.SpareAt kept (temporary.locationFrom here) →
      Spares kept (fun location => touched location ∨ location = temporary.locationFrom here) made
        (work temporary) g k) :
    Sparing here kept touched made (withTemporaryBeside path back work) := by
  have hdir : path.directory.locationFrom here = (path.locationFrom here).dropLast := by
    rw [Path.locationFrom_directory here hname, List.dropLast_concat]
  exact sparing_withTemporary (fun n =>
    Disk.made_temporary hbeside hdir n (slash_notMem_front path) hback hslash) hwork

/-- A source file without a name cannot be read, and is not copied. -/
theorem sparing_archive
    (h : (Path.mk source).names ≠ [] → Disk.Room touched made (config.copyPlace here source)) :
    Sparing here kept touched made (archive config source : Task OnDisk _) := by
  intro g k hk
  refine spares_bind (sparing_ask OnDisk.sparing_read g k hk) fun found g₁ k₁ hrun hspares => ?_
  split
  · exact spares_pure _
  next contents =>
  have hnamed : (Path.mk source).names ≠ [] := by
    intro hnone
    obtain ⟨hread, -, -⟩ := of_run_ask hrun
    obtain ⟨id, hid⟩ := Disk.fileAt_of_read (OnDisk.attempt_ok (Prod.ext hread.symm rfl))
    exact Disk.fileAt_nameless hnone id hid
  obtain hnone | ⟨folders, last, hlast⟩ := List.eq_nil_or_concat' (Path.mk source).names
  · exact absurd hnone hnamed
  have hroom := h hnamed
  refine sparing_bind (sparing_io OnDisk.sparing_makeFolders) (fun _ => ?_) g₁ k₁
    (hk.spared hspares)
  refine sparing_withTemporaryBeside (Path.fileName?_join_relativeToRoot _ hlast) hroom.beside
    ⟨"", rfl⟩ (by decide) fun temporary g k hk hspare => ?_
  refine spares_bind (spares_io (OnDisk.spares_write hk hspare _)) fun _ g₂ k₂ _ h₂ => ?_
  exact spares_io (OnDisk.sparing_rename (.inr rfl) (.inl hroom.touch) hroom.make k₂
    (hk.spared h₂))

theorem spares_extract {temporary : Path} (hk : k.Ready here kept)
    (hspare : k.SpareAt kept (temporary.locationFrom here)) :
    Spares kept touched made (extract config p id entry temporary) g k := by
  refine spares_bind (sparing_extracting _ _ _ _ g k hk) fun s g₁ k₁ hrun _ => ?_
  obtain rfl := disk_of_extracting hrun
  exact spares_io (OnDisk.spares_write hk hspare _)

theorem work_after {temporary : Path} {Q : Except ExtractError TrapOutcome → Disk → Prop}
    (hk : k.Ready here kept) (hspare : k.SpareAt kept (temporary.locationFrom here))
    (hset : Disk.Room touched made (config.setPlace here entry.path))
    (hclasses : config.destination.RoomIn p here touched made)
    (herror : ∀ e l, Disk.Spares kept touched made k l → Q (.error e) l)
    (hsettle : ∀ g' k', Disk.Spares kept touched made k k' →
      After (settle config temporary (config.sourceTrap entry.path)) g' k' fun r _ l => Q r l) :
    After (do
      extract config p id entry temporary
      let drained ← config.destination.drain p
      let _ ← config.destination.writeSet entry.path
      return (← settle config temporary (config.sourceTrap entry.path), drained)) g k
      fun r _ l => Q (r.map Prod.fst) l := by
  have herror' {k₁ : Disk} (h₁ : Disk.Spares kept touched made k k₁) (e : ExtractError) (l : Disk)
      (hl : Disk.Spares kept touched made k₁ l) : Q (.error e) l := herror e l (h₁.trans hl)
  have hextract : Spares kept touched made (extract config p id entry temporary) g k :=
    spares_extract hk hspare
  refine after_bind_of_spares (Q := fun r l => Q (r.map Prod.fst) l) hextract herror
    fun _ g₁ k₁ _ h₁ => ?_
  have hdrain : Spares kept touched made (config.destination.drain p) g₁ k₁ :=
    Destination.sparing_drain hclasses g₁ k₁ (hk.spared h₁)
  refine after_bind_of_spares (Q := fun r l => Q (r.map Prod.fst) l) hdrain (herror' h₁)
    fun drained g₂ k₂ _ h₂ => ?_
  have h₂ := h₁.trans h₂
  have hwriteSet : Spares kept touched made (config.destination.writeSet entry.path) g₂ k₂ :=
    Destination.sparing_writeSet hset g₂ k₂ (hk.spared h₂)
  refine after_bind_of_spares (Q := fun r l => Q (r.map Prod.fst) l) hwriteSet (herror' h₂)
    fun _ g₃ k₃ _ h₃ => ?_
  rw [after_bind]
  refine (hsettle g₃ k₃ (h₂.trans h₃)).mono ?_
  rintro (e | outcome) g' l hdone
  · exact hdone
  · exact hdone

/-- A file is made up to where its trap is put in its place. Then the trap is in the making, in a
file that was made where nothing stood. -/
theorem make_after {Q : Except ExtractError TrapOutcome → Disk → Prop} (hk : k.Ready here kept)
    (hroom : config.RoomFor here entry.path touched made)
    (hclasses : config.destination.RoomIn p here touched made)
    (herror : ∀ e l, Disk.Spares kept touched made k l → Q (.error e) l)
    (hkept : ∀ l, Disk.Spares kept touched made k l → Q (.ok .kept) l)
    (hsettle : ∀ temporary k₁ g₂ k₂, Disk.Spares kept touched made k k₁ →
      (config.checkTrapIdentical = false →
        ∃ l, Disk.Spares kept touched made k l ∧ l.present (config.sourceTrap entry.path) = false) →
      k₁.entry? (temporary.locationFrom here) = none →
      Path.NameEnds ".trap.tmp" (temporary.locationFrom here) →
      Disk.Spares kept (fun location => touched location ∨
        location = temporary.locationFrom here) made k₁ k₂ →
      After (settle config temporary (config.sourceTrap entry.path)) g₂ k₂ fun r _ l => match r with
        | .ok outcome => Q (.ok outcome) l
        | .error e => Q (.error e) (Files.remove (m := OnDisk) temporary l).2) :
    After (make config p id entry) g k fun r _ l => Q (r.map Prod.fst) l := by
  have herror' {k₁ : Disk} (h₁ : Disk.Spares kept touched made k k₁) (e : ExtractError) (l : Disk)
      (hl : Disk.Spares kept touched made k₁ l) : Q (.error e) l := herror e l (h₁.trans hl)
  have harchive : Spares kept touched made (archive config entry.path) g k :=
    sparing_archive hroom.copy g k hk
  unfold make
  refine after_bind_of_spares (Q := fun r l => Q (r.map Prod.fst) l) harchive herror
    fun _ g₁ k₁ _ h₁ => ?_
  have hk₁ := hk.spared h₁
  rw [after_present]
  split
  · exact hkept k₁ h₁
  next hpresent =>
  have hfolders : Spares kept touched made (io (config.sourceTrap entry.path).directory
      (Files.makeFolders (config.sourceTrap entry.path).directory)) g₁ k₁ :=
    sparing_io OnDisk.sparing_makeFolders g₁ k₁ hk₁
  refine after_bind_of_spares (Q := fun r l => Q (r.map Prod.fst) l) hfolders (herror' h₁)
    fun _ g₂ k₂ _ h₂ => ?_
  have h₂ := h₁.trans h₂
  have hfresh (n : Nat) : made ((Disk.within (config.sourceTrap entry.path).directory
      (Disk.temporaryName ((config.sourceTrap entry.path).fileName?.getD "" ++ ".") ".trap.tmp"
        n)).locationFrom here) :=
    Disk.made_temporary hroom.beside Config.locationFrom_directory_sourceTrap n
      (slash_notMem_front _) ⟨".trap", rfl⟩ (by decide)
  refine after_withTemporary (Q := fun r l => Q (r.map Prod.fst) l) (hk.spared h₂) hfresh
    (herror' h₂) fun n temporary k₃ htemporary hnone h₃ hspare => ?_
  have hmore (location : Location) (h : touched location) :
      touched location ∨ location = temporary.locationFrom here := .inl h
  have h₃ := h₃.mono hmore fun _ h => h
  have hk₃ := (hk.spared h₂).spared h₃
  have hends : Path.NameEnds ".trap.tmp" (temporary.locationFrom here) :=
    htemporary ▸ nameEnds_temporary _ _ n
  -- whatever fails from here on, the temporary file is removed and nothing else is lost
  have hfail (e : ExtractError) (l : Disk) (hl : Disk.Spares kept (fun location =>
      touched location ∨ location = temporary.locationFrom here) made k₃ l) :
      Q (.error e) (Files.remove (m := OnDisk) temporary l).2 :=
    herror' h₂ e _ (OnDisk.spares_removed hnone (hk₃.spared hl) (h₃.trans hl))
  refine After.mono (work_after (Q := fun r l => match r with
      | .ok outcome => Q (.ok outcome) l
      | .error e => Q (.error e) (Files.remove (m := OnDisk) temporary l).2)
    hk₃ hspare (hroom.set.mono hmore fun _ h => h) (fun id t ht => (hclasses id t ht).mono hmore)
    hfail fun g' k' h' => hsettle temporary k₂ g' k' h₂
      (fun hcheck => ⟨k₁, h₁, by simpa [hcheck] using hpresent⟩) hnone hends (h₃.trans h')) ?_
  rintro (e | outcome) g' l hdone
  · exact hdone
  · exact hdone

theorem sparing_compare (temporary trap : Path) :
    Sparing here kept touched made (compare temporary trap : Task OnDisk _) := by
  refine sparing_bind (sparing_io OnDisk.sparing_read) fun a => ?_
  refine sparing_bind (sparing_io OnDisk.sparing_read) fun b => ?_
  split
  · exact sparing_pure _
  · exact sparing_throw _

theorem sparing_setAside {temporary : Path} {trap : Path} {front : String}
    (htemporary : touched (temporary.locationFrom here))
    (hmade : ∀ n, made ((Disk.within trap.directory
      (Disk.temporaryName front ".trap.different" n)).locationFrom here)) :
    Sparing here kept touched made (do
      let different ← io trap.directory
        (Files.makeTemporary trap.directory front ".trap.different")
      io different (Files.rename temporary different)
      return TrapOutcome.different different : Task OnDisk _) := by
  intro g k hk
  refine after_makeTemporary (Q := fun _ l => Disk.Spares kept touched made k l) hk
    (fun _ _ h => h) fun n different k₁ hdifferent hnone h₁ _ => ?_
  have hplace : made (different.locationFrom here) := hdifferent ▸ hmade n
  have h₁ : Disk.Spares kept touched made k k₁ := h₁.mono (fun _ => False.elim)
    fun _ heq => heq ▸ hplace
  have hmove : Spares kept (fun location => touched location ∨
      location = different.locationFrom here) made (do
        io different (Files.rename temporary different)
        return TrapOutcome.different different : Task OnDisk _) g k₁ :=
    sparing_bind (sparing_io (OnDisk.sparing_rename (.inl htemporary) (.inr rfl) hplace))
      (fun _ => sparing_pure _) g k₁ (hk.spared h₁)
  have hmore (location : Location) (h : touched location) :
      touched location ∨ location = different.locationFrom here := .inl h
  exact hmove.mono fun _ _ _ h => ((h₁.mono hmore fun _ h => h).trans h).outside hnone

/-- A trap is moved to its place only when it may be, or when there is none that it is compared
with. -/
theorem spares_settle {temporary trap : Path} (hk : k.Ready here kept)
    (htemporary : touched (temporary.locationFrom here))
    (hdifferent : ∀ n, made ((Disk.within trap.directory (Disk.temporaryName
      (trap.fileName?.getD "" ++ ".") ".trap.different" n)).locationFrom here))
    (htrap : touched (trap.locationFrom here) ∧ made (trap.locationFrom here) ∨
      config.checkTrapIdentical = true ∧ k.present trap = true) :
    Spares kept touched made (settle config temporary trap) g k := by
  unfold settle Spares
  rw [after_present]
  split
  · refine sparing_bind (sparing_compare temporary trap) (fun same => ?_) g k hk
    split
    · exact sparing_bind (sparing_tryIo (OnDisk.sparing_remove htemporary)) fun _ => sparing_pure _
    · exact sparing_setAside htemporary hdifferent
  · next habsent =>
    rcases htrap with ⟨htouched, hmade⟩ | ⟨hcheck, hpresent⟩
    · exact sparing_bind (sparing_io (OnDisk.sparing_rename htemporary htouched hmade))
        (fun _ => sparing_pure _) g k hk
    · simp [hcheck, hpresent] at habsent

theorem made_different (h : ∀ name, made ((config.trapPlace here source).dropLast ++
    [name ++ ".trap.different"])) (n : Nat) :
    made ((Disk.within (config.sourceTrap source).directory (Disk.temporaryName
      ((config.sourceTrap source).fileName?.getD "" ++ ".") ".trap.different" n)).locationFrom
        here) := by
  rw [Disk.locationFrom_temporary here _ n (slash_notMem_front _) (by decide) (c := 't') rfl
    (by decide), Config.locationFrom_directory_sourceTrap]
  exact h _

theorem spares_make (hk : k.Ready here kept)
    (hroom : config.FullRoomFor here entry.path touched made)
    (hclasses : config.destination.RoomIn p here touched made)
    (htrap : config.TrapOrRoom here entry.path touched made k) :
    Spares kept touched made (make config p id entry) g k := by
  refine make_after (Q := fun _ l => Disk.Spares kept touched made k l) hk hroom.toRoomFor hclasses
    (fun _ _ h => h) (fun _ h => h) fun temporary k₁ g₂ k₂ h₁ habsent hnone hends h₂ => ?_
  have hmore (location : Location) (h : touched location) :
      touched location ∨ location = temporary.locationFrom here := .inl h
  have h₁' := h₁.mono hmore fun _ h => h
  have hk₂ := (hk.spared h₁).spared h₂
  have hne : config.trapPlace here entry.path ≠ temporary.locationFrom here := fun heq =>
    Path.not_nameEnds hends (by decide) (by decide)
      (heq ▸ config.nameEnds_trapPlace here entry.path)
  have htrap₂ : (touched (config.trapPlace here entry.path) ∨
      config.trapPlace here entry.path = temporary.locationFrom here) ∧
        made (config.trapPlace here entry.path) ∨
      config.checkTrapIdentical = true ∧ k₂.present (config.sourceTrap entry.path) = true := by
    rcases htrap with ⟨htouched, hmade⟩ | ⟨htouched, file, hfile⟩
    · exact .inl ⟨.inl htouched, hmade⟩
    have hplace : ¬touched ((config.sourceTrap entry.path).locationFrom k.here) :=
      hk.here ▸ htouched
    refine .inr ⟨?_, ?_⟩
    · by_contra hcheck
      obtain ⟨l, hl, hlacks⟩ := habsent (Bool.eq_false_iff.mpr hcheck)
      rw [Disk.present_of_fileAt (hl.fileAt hfile hplace)] at hlacks
      cases hlacks
    · refine Disk.present_of_fileAt ((h₁'.trans h₂).fileAt hfile ?_)
      rintro (h | h)
      · exact hplace h
      · exact hne (hk.here ▸ h)
  have hsettle : Spares kept (fun location => touched location ∨
      location = temporary.locationFrom here) made
        (settle config temporary (config.sourceTrap entry.path)) g₂ k₂ :=
    spares_settle hk₂ (.inr rfl) (made_different hroom.different) htrap₂
  refine hsettle.mono ?_
  rintro (e | outcome) g' l hl
  · exact h₁.trans (OnDisk.spares_removed hnone (hk₂.spared hl) (h₂.trans hl))
  · exact h₁.trans ((h₂.trans hl).outside hnone)

end SourceTrap

/-! ## The whole run -/

namespace Run

variable {config : Config} {p : Program} {here : Location} {kept : Nat → Prop}
variable {touched made : Location → Prop} {k : Disk}

theorem spares_file {id : FileId} {entry : FileEntry} (hk : k.Ready here kept)
    (hroom : config.FullRoomFor here entry.path touched made)
    (hclasses : config.destination.RoomIn p here touched made)
    (htrap : config.TrapOrRoom here entry.path touched made k) (index : Nat) (r : Run) :
    Disk.Spares kept touched made k ((file config p index id entry r : OnDisk _) k).2 := by
  have hmake : Task.Spares kept touched made (SourceTrap.make config p id entry)
    { counter := (r.beginFile index entry.path).counter } k :=
      SourceTrap.spares_make hk hroom hclasses htrap
  unfold Task.Spares Task.After at hmake
  unfold file
  rw [OnDisk.bind_apply]
  rcases hrun : (SourceTrap.make config p id entry : Task OnDisk _).run.run
    { counter := (r.beginFile index entry.path).counter } k with ⟨⟨outcome, g⟩, l⟩
  rw [hrun] at hmake
  dsimp only
  split
  · exact hmake
  · exact hmake

/-- **Files that are kept are spared by every run over files**, whether or not it is stopped. -/
theorem spares_files (hk : k.Ready here kept)
    (hroom : ∀ entry ∈ p.files, config.FullRoomFor here entry.path touched made)
    (hclasses : config.destination.RoomIn p here touched made)
    (htrap : ∀ entry ∈ p.files, config.TrapOrRoom here entry.path touched made k)
    (todo : List (Nat × FileId)) (r : Run) :
    Disk.Spares kept touched made k ((files config p todo r : OnDisk _) k).2 := by
  induction todo generalizing r k with
  | nil => exact .refl ..
  | cons first rest ih =>
    obtain ⟨index, id⟩ := first
    unfold files
    cases hentry : p.file? id with
    | none => exact ih hk htrap r
    | some entry =>
      have hmem := Program.mem_files hentry
      have hfile : Disk.Spares kept touched made k
          ((file config p index id entry r : OnDisk _) k).2 :=
        spares_file hk (hroom entry hmem) hclasses (htrap entry hmem) index r
      dsimp only
      rw [OnDisk.bind_apply]
      rcases hrun : (file config p index id entry r : OnDisk _) k with ⟨⟨_ | stop, r₁⟩, k₁⟩ <;>
        rw [hrun] at hfile
      · exact hfile.trans (ih (hk.spared hfile)
          (fun other hother => (htrap other hother).spared hk.here hfile) r₁)
      · exact hfile

end Run

/-- Whatever becomes of a run, only the invocation trap is changed of all the files that are kept,
if that is one of them. -/
theorem Config.spares_run {config : Config} {p : Program} {now : OnDisk Nat} {here : Location}
    {kept : Nat → Prop} {touched made : Location → Prop} {k : Disk} (hnow : ∀ k, (now k).2 = k)
    (hk : k.Ready here kept)
    (hroom : ∀ entry ∈ p.files, config.FullRoomFor here entry.path touched made)
    (hclasses : config.destination.RoomIn p here touched made)
    (htrap : ∀ entry ∈ p.files, config.TrapOrRoom here entry.path touched made k)
    (hmade : made (config.invocationTrap.locationFrom here))
    (hspare : ∀ id, k.entry? (config.invocationTrap.locationFrom here) = some (.file id) →
      ¬kept id) : Disk.Spares kept touched made k (config.run p now k).2 := by
  have hopened : Disk.Spares kept touched made k
      (Files.openAppend (m := OnDisk) config.invocationTrap k).2 :=
    OnDisk.sparing_openAppend hmade k hk
  unfold run
  rw [OnDisk.bind_apply, hnow, OnDisk.bind_apply]
  rcases hopen : Files.openAppend (m := OnDisk) config.invocationTrap k with ⟨e | handle, k₁⟩ <;>
    rw [hopen] at hopened
  · exact hopened
  have hhandle := OnDisk.not_kept_of_openAppend hk hspare hopen
  have happend {l : Disk} (hl : Disk.Spares kept touched made k l) (bytes : ByteArray) :
      Disk.Spares kept touched made k (Files.append (m := OnDisk) handle bytes l).2 :=
    hl.trans (OnDisk.spares_append hhandle bytes)
  have hfiles := hopened.trans (Run.spares_files (hk.spared hopened) hroom hclasses
    (fun entry hentry => (htrap entry hentry).spared hk.here hopened)
    ((List.range p.fileIds.length).zip p.fileIds) (Run.start config))
  dsimp only
  rw [OnDisk.bind_apply]
  rcases hrun : (Run.files config p ((List.range p.fileIds.length).zip p.fileIds)
    (Run.start config) : OnDisk _) k₁ with ⟨⟨_ | stop, r⟩, k₂⟩ <;> rw [hrun] at hfiles <;>
    dsimp only
  · rw [OnDisk.bind_apply, hnow, OnDisk.bind_apply]
    generalize (r.finish _).text.toUTF8 = bytes
    have hdone := happend hfiles bytes
    dsimp only at hdone ⊢
    rcases hr : Files.append (m := OnDisk) handle bytes k₂ with ⟨e | _, l⟩ <;> rw [hr] at hdone
    · exact hdone
    · exact hdone
  · rw [OnDisk.bind_apply]
    exact happend hfiles _

end IrFacts
