import IrFacts.Proofs.Output.Containment
import IrFacts.Proofs.Output.Rerun

/-!
# Traps that are there already

A run never alters the trap of a source file that it finds. It leaves it alone,
or compares it with the new one, which is then removed or set aside in a file of
its own, beside the old one. So of each file it can be told from its report
what was set aside.
-/

set_option autoImplicit false

namespace IrFacts

open IrFacts.Path

namespace Config

variable {config : Config} {p : Program} {here : Location} {source : String} {k : Disk}

/-! ## The folders of a run -/

/-- The folders of a run lie apart, and the invocation trap is none of the traps in them. -/
structure LiesApart (config : Config) (k : Disk) : Prop where
  traps : ¬config.trapDir.locationFrom k.here <+: config.sourceArchiveDir.locationFrom k.here
  copies : ¬config.sourceArchiveDir.locationFrom k.here <+: config.trapDir.locationFrom k.here
  invocation : ∀ source id, k.fileAt (config.sourceTrap source) = .ok id →
    k.entry? (config.invocationTrap.locationFrom k.here) ≠ some (.file id)

/-- The folder of a trap lies below the trap directory or, if the source file has no name, is that
directory or the one that it is in. -/
theorem folder_of_trapPlace : config.trapDir.locationFrom here <+:
      (config.trapPlace here source).dropLast ∨
    (config.trapPlace here source).dropLast <+: config.trapDir.locationFrom here := by
  obtain hnone | ⟨folders, last, hlast⟩ := List.eq_nil_or_concat' (Path.mk source).names
  · rcases trapPlace_nameless hnone with ⟨folder, last, hdir, hplace⟩ | hplace
    · rw [hplace, hdir, List.dropLast_concat]
      exact .inr (List.prefix_append ..)
    · rw [hplace, List.dropLast_concat]
      exact .inl List.prefix_rfl
  · rw [trapPlace_of_names hlast, List.dropLast_concat]
    exact .inl (List.prefix_append ..)

theorem LiesApart.beside (h : config.LiesApart k) (source name : String) :
    ¬Below (config.sourceArchiveDir.locationFrom k.here)
      ((config.trapPlace k.here source).dropLast ++ [name]) := by
  rintro ⟨more, hmore, hplace⟩
  have hfolder : (config.trapPlace k.here source).dropLast =
      config.sourceArchiveDir.locationFrom k.here ++ more.dropLast := by
    rw [← List.dropLast_append_of_ne_nil hmore, ← hplace, List.dropLast_concat]
  have harchive : config.sourceArchiveDir.locationFrom k.here <+:
      (config.trapPlace k.here source).dropLast := hfolder ▸ List.prefix_append ..
  have htrap : config.trapDir.locationFrom k.here <+: (config.trapPlace k.here source).dropLast ∨
      (config.trapPlace k.here source).dropLast <+: config.trapDir.locationFrom k.here :=
    folder_of_trapPlace
  rcases htrap with hbelow | habove
  · exact (List.prefix_or_prefix_of_prefix hbelow harchive).elim h.traps h.copies
  · exact h.copies (harchive.trans habove)

theorem LiesApart.trapPlace (h : config.LiesApart k) (source : String) :
    ¬Below (config.sourceArchiveDir.locationFrom k.here) (config.trapPlace k.here source) := by
  obtain ⟨folder, last, hplace⟩ := config.nameEnds_trapPlace k.here source
  have hbeside := h.beside source (last ++ ".trap")
  rwa [hplace, List.dropLast_concat, ← hplace] at hbeside

/-! ## What is not mistaken for a trap -/

/-- A trap of a class, a sidecar, a set or a temporary file does not end so. -/
def EndsApart (ending : String) : Prop :=
  ∀ other ∈ [".tmp", ".set", ".trap.gz", ".dep", ".metadata"],
    ¬other.toList <:+ ending.toList ∧ ¬ending.toList <:+ other.toList

variable {ending : String} {touched made : Location → Prop}

theorem EndsApart.not_nameEnds (h : EndsApart ending) {other : String}
    (hother : other ∈ [".tmp", ".set", ".trap.gz", ".dep", ".metadata"]) {location : Location}
    (hends : NameEnds other location) : ¬NameEnds ending location :=
  Path.not_nameEnds hends (h other hother).1 (h other hother).2

theorem EndsApart.not_temporary (h : EndsApart ending) (folder : Location) (name : String) :
    ¬NameEnds ending (folder ++ [name ++ ".tmp"]) := by
  have hends : NameEnds ".tmp" (folder ++ [name ++ ".tmp"]) := ⟨folder, name, rfl⟩
  exact h.not_nameEnds (by simp) hends

/-- There is room for whatever else a run leaves where nothing may be touched that ends so. -/
theorem roomIn_of_endsApart (h : EndsApart ending)
    (hfree : ∀ location, ¬NameEnds ending location → touched location ∧ made location) :
    config.destination.RoomIn p here touched made := by
  intro id t ht
  obtain ⟨htrap, hdep, hmeta⟩ := ClassTrap.nameEnds_of_ofClass here ht
  have hroom {location : Location} {other : String}
      (hother : other ∈ [".tmp", ".set", ".trap.gz", ".dep", ".metadata"])
      (hends : NameEnds other location) : Disk.Room touched made location := by
    obtain ⟨htouched, hmade⟩ := hfree location (h.not_nameEnds hother hends)
    exact ⟨htouched, hmade, fun name => (hfree _ (h.not_temporary _ name)).2⟩
  exact ⟨hroom (by simp) htrap, hroom (by simp) hdep, hroom (by simp) hmeta⟩

theorem roomFor_of_endsApart (h : EndsApart ending)
    (hfree : ∀ location, ¬NameEnds ending location ∨
      Below (config.sourceArchiveDir.locationFrom here) location → touched location ∧ made location)
    (source : String) : config.RoomFor here source touched made where
  copy hnamed := by
    have hbelow : Below _ (config.copyPlace here source) := copyPlace_below hnamed
    obtain ⟨htouched, hmade⟩ := hfree _ (.inr hbelow)
    exact ⟨htouched, hmade, fun name => (hfree _ (.inr (hbelow.beside _))).2⟩
  set := by
    have hset : ¬NameEnds ending (config.setPlace here source) :=
      h.not_nameEnds (by simp) nameEnds_setPlace
    obtain ⟨htouched, hmade⟩ := hfree _ (.inl hset)
    exact ⟨htouched, hmade, fun name => (hfree _ (.inl (h.not_temporary _ name))).2⟩
  beside name := (hfree _ (.inl (h.not_temporary _ name))).2

/-! ## Old traps -/

theorem fileAt_run {now : OnDisk Nat} {id : Nat} (hnow : ∀ k, (now k).2 = k) (hissued : k.Issued)
    (hapart : config.LiesApart k) (htrap : k.fileAt (config.sourceTrap source) = .ok id) :
    (config.run p now k).2.fileAt (config.sourceTrap source) = .ok id ∧
      (config.run p now k).2.contentsOf id = k.contentsOf id := by
  have hplace : k.entry? (config.trapPlace k.here source) = some (.file id) := Disk.fileAt_ok htrap
  have hends : EndsApart ".trap" := by unfold EndsApart; decide
  have hne {location : Location} (h : ¬NameEnds ".trap" location ∨
      Below (config.sourceArchiveDir.locationFrom k.here) location) :
      location ≠ config.trapPlace k.here source := by
    intro hsame
    rw [hsame] at h
    exact h.elim (· (config.nameEnds_trapPlace k.here source)) (hapart.trapPlace source)
  have hspares : Disk.Spares (· = id) (· ≠ config.trapPlace k.here source) (fun _ => True) k
      (config.run p now k).2 := by
    refine spares_run hnow ⟨rfl, fun _ hid => hid ▸ hissued _ _ hplace⟩ (fun entry _ => ?room)
      ?classes (fun entry _ => ?trap) trivial fun other hother hsame => ?invocation
    case room =>
      exact ⟨roomFor_of_endsApart hends (fun _ h => ⟨hne h, trivial⟩) entry.path,
        fun _ => trivial⟩
    case classes =>
      exact roomIn_of_endsApart hends fun _ h => ⟨hne (.inl h), trivial⟩
    case trap =>
      by_cases hsame : config.trapPlace k.here entry.path = config.trapPlace k.here source
      · refine .inr ⟨fun h => h hsame, id, ?_⟩
        rw [sourceTrap_of_trapPlace hsame]
        exact htrap
      · exact .inl ⟨hsame, trivial⟩
    case invocation =>
      rw [hsame] at hother
      exact hapart.invocation source id htrap hother
  exact ⟨hspares.fileAt htrap fun h => h rfl, hspares.contents id rfl⟩

end Config

/-! ## New traps that are set aside -/

namespace Disk

variable {k l m : Disk} {aside : Location → Prop} {new new' : List Location}

/-- Between `k` and `l` the files at these places were made, and of all places where traps are set
aside only these were touched. -/
structure SetsAside (aside : Location → Prop) (new : List Location) (k l : Disk) : Prop where
  spares : Spares (fun _ => False) (fun location => ¬aside location)
    (fun location => ¬aside location ∨ location ∈ new) k l
  nodup : new.Nodup
  fresh : ∀ location ∈ new, aside location ∧ k.entry? location = none
  made : ∀ location ∈ new, ∃ id, l.entry? location = some (.file id)

theorem Spares.setsAside {kept : Nat → Prop} (h : Spares kept (fun location => ¬aside location)
    (fun location => ¬aside location) k l) : SetsAside aside [] k l where
  spares := { h.mono (fun _ h => h) (fun _ => .inl) with contents := nofun }
  nodup := List.nodup_nil
  fresh := nofun
  made := nofun

/-- What stands at a place where traps are set aside stays there. -/
theorem SetsAside.entry (h : SetsAside aside new k l) {location : Location} {entry : Entry}
    (hat : aside location) (he : k.entry? location = some entry) :
    l.entry? location = some entry := by
  cases entry with
  | folder => exact h.spares.folder location he
  | file id => exact h.spares.file location id (fun hnot => hnot hat) he

theorem SetsAside.trans (h : SetsAside aside new k l) (h' : SetsAside aside new' l m) :
    SetsAside aside (new ++ new') k m where
  spares := by
    refine (h.spares.mono (fun _ h => h) fun _ => ?_).trans
      (h'.spares.mono (fun _ h => h) fun _ => ?_)
    · exact Or.imp_right (List.mem_append_left _)
    · exact Or.imp_right (List.mem_append_right _)
  nodup := by
    refine List.nodup_append.mpr ⟨h.nodup, h'.nodup, fun location hnew other hnew' hsame => ?_⟩
    obtain ⟨id, hid⟩ := h.made location hnew
    rw [hsame, (h'.fresh other hnew').2] at hid
    cases hid
  fresh location hmem := by
    rcases List.mem_append.mp hmem with hnew | hnew'
    · exact h.fresh location hnew
    · obtain ⟨hat, hnone⟩ := h'.fresh location hnew'
      refine ⟨hat, ?_⟩
      cases he : k.entry? location with
      | none => rfl
      | some entry =>
        rw [h.entry hat he] at hnone
        cases hnone
  made location hmem := by
    rcases List.mem_append.mp hmem with hnew | hnew'
    · obtain ⟨id, hid⟩ := h.made location hnew
      exact ⟨id, h'.entry (h.fresh location hnew).1 hid⟩
    · exact h'.made location hnew'

theorem SetsAside.remove {here : Location} (h : SetsAside aside new k l) (hl : l.here = here)
    {temporary : Path} (htemporary : ¬aside (temporary.locationFrom here)) :
    SetsAside aside new k (Files.remove (m := OnDisk) temporary l).2 := by
  have hremove : Spares (fun _ => False) (fun location => ¬aside location)
      (fun location => ¬aside location) l (Files.remove (m := OnDisk) temporary l).2 :=
    OnDisk.sparing_remove htemporary l ⟨hl, nofun⟩
  have hboth := h.trans hremove.setsAside
  rwa [List.append_nil] at hboth

end Disk

/-- A file that is moved, or stays where it was, leaves a file where it was to be moved. -/
theorem OnDisk.file_of_rename {source target : Path} {id : Nat} {k : Disk}
    (h : k.entry? (target.locationFrom k.here) = some (.file id)) :
    ∃ id, Disk.entry? (Files.rename (m := OnDisk) source target k).2
      (target.locationFrom k.here) = some (.file id) := by
  rcases hr : Files.rename (m := OnDisk) source target k with ⟨e | _, l⟩
  · exact ⟨id, attempt_error hr ▸ h⟩
  · obtain ⟨moved, -, hne, rfl⟩ := Disk.rename_ok (attempt_ok hr)
    exact ⟨moved, Disk.entry?_setEntry_self hne _⟩

/-- What may have been set aside for a source file, by what became of it. When it fails after a
file was made for its trap, the file is left behind. -/
def Config.SetAside (config : Config) (here : Location) (source : String) :
    Option TrapOutcome → List Location → Prop
  | some (.different path), new => new = [path.locationFrom here] ∧
    ∃ name, path.locationFrom here =
      (config.trapPlace here source).dropLast ++ [name ++ ".trap.different"]
  | some _, new => new = []
  | none, new => new.length ≤ 1

namespace SourceTrap

open IrFacts.Task

variable {config : Config} {p : Program} {id : FileId} {entry : FileEntry} {here : Location}
variable {g : Progress} {k : Disk} {aside : Location → Prop} {temporary : Path}

theorem setAside_after {source : String} (hk : k.here = here)
    (htemporary : ¬aside (temporary.locationFrom here))
    (haside : ∀ name, aside ((config.trapPlace here source).dropLast ++
      [name ++ ".trap.different"])) :
    let trap := config.sourceTrap source
    After (do
      let different ← io trap.directory
        (Files.makeTemporary trap.directory (trap.fileName?.getD "" ++ ".") ".trap.different")
      io different (Files.rename temporary different)
      return TrapOutcome.different different) g k fun r _ l =>
        ∃ new, Disk.SetsAside aside new k l ∧ config.SetAside here source r.toOption new := by
  intro trap
  have hready : k.Ready here fun _ => False := ⟨hk, nofun⟩
  have herror (e : ExtractError) (l : Disk) (h : Disk.Spares (fun _ => False)
      (fun location => ¬aside location) (fun location => ¬aside location) k l) :
      ∃ new, Disk.SetsAside aside new k l ∧
        config.SetAside here source
          (Except.error e : Except ExtractError TrapOutcome).toOption new :=
    ⟨[], h.setsAside, Nat.zero_le 1⟩
  refine after_makeTemporary (Q := fun r l => ∃ new, Disk.SetsAside aside new k l ∧
      config.SetAside here source r.toOption new) hready herror
    fun n different k₁ hdifferent hnone h₁ hspare => ?_
  obtain ⟨name, hname⟩ : ∃ name, different.locationFrom here =
      (config.trapPlace here source).dropLast ++ [name ++ ".trap.different"] := by
    rw [hdifferent, Disk.locationFrom_temporary here _ n (slash_notMem_front _) (by decide)
      (c := 't') rfl (by decide), Config.locationFrom_directory_sourceTrap]
    exact ⟨_, rfl⟩
  have hk₁ : k₁.here = here := h₁.here.trans hk
  have hmove : Disk.Spares (fun _ => False) (fun location => ¬aside location ∨
      location = different.locationFrom here) (fun location => ¬aside location ∨
        location ∈ [different.locationFrom here]) k₁
      (Files.rename (m := OnDisk) temporary different k₁).2 :=
    OnDisk.sparing_rename (.inl htemporary) (.inr rfl) (.inr List.mem_cons_self) k₁ ⟨hk₁, nofun⟩
  have h₁ : Disk.Spares (fun _ => False) (fun location => ¬aside location ∨
      location = different.locationFrom here) (fun location => ¬aside location ∨
        location ∈ [different.locationFrom here]) k k₁ :=
    h₁.mono (fun _ => False.elim) fun _ heq => .inr (List.mem_singleton.mpr heq)
  obtain ⟨made, -, hentry⟩ := hspare
  have hafter : Disk.SetsAside aside [different.locationFrom here] k
      (Files.rename (m := OnDisk) temporary different k₁).2 := by
    refine ⟨(h₁.trans hmove).outside hnone, by simp, fun location hat => ?_,
      fun location hat => ?_⟩ <;> rw [List.mem_singleton.mp hat]
    · exact ⟨hname ▸ haside name, hnone⟩
    · have hfile : ∃ id, Disk.entry? (Files.rename (m := OnDisk) temporary different k₁).2
          (different.locationFrom k₁.here) = some (.file id) :=
        OnDisk.file_of_rename (hk₁.symm ▸ hentry)
      rwa [hk₁] at hfile
  rw [after_bind]
  unfold After
  rw [run_operation]
  rcases hr : Files.rename (m := OnDisk) temporary different k₁ with ⟨e | _, l⟩ <;>
    rw [hr] at hafter
  · exact ⟨_, hafter, Nat.le_refl 1⟩
  · exact ⟨_, hafter, rfl, name, hname⟩

/-- A trap that is not different is put in its place, or removed. -/
theorem settle_setsAside {source : String} (hk : k.here = here)
    (htemporary : ¬aside (temporary.locationFrom here))
    (htrap : ¬aside (config.trapPlace here source))
    (haside : ∀ name, aside ((config.trapPlace here source).dropLast ++
      [name ++ ".trap.different"])) :
    After (settle config temporary (config.sourceTrap source)) g k fun r _ l =>
      ∃ new, Disk.SetsAside aside new k l ∧ config.SetAside here source r.toOption new := by
  let Q (k : Disk) (r : Except ExtractError TrapOutcome) (l : Disk) : Prop :=
    ∃ new, Disk.SetsAside aside new k l ∧ config.SetAside here source r.toOption new
  have herror {k : Disk} (e : ExtractError) (l : Disk) (h : Disk.Spares (fun _ => False)
      (fun location => ¬aside location) (fun location => ¬aside location) k l) :
      Q k (.error e) l := ⟨[], h.setsAside, Nat.zero_le 1⟩
  have hready : k.Ready here fun _ => False := ⟨hk, nofun⟩
  unfold settle
  rw [after_present]
  split
  · have hcompare : Spares (fun _ => False) (fun location => ¬aside location)
        (fun location => ¬aside location) (compare temporary (config.sourceTrap source)) g k :=
      sparing_compare temporary _ g k hready
    refine after_bind_of_spares (Q := Q k) hcompare herror fun same g₁ k₁ _ h₁ => ?_
    have hready₁ := hready.spared h₁
    split
    · have hremove : Spares (fun _ => False) (fun location => ¬aside location)
          (fun location => ¬aside location) (tryIo (Files.remove temporary)) g₁ k₁ :=
        sparing_tryIo (OnDisk.sparing_remove htemporary) g₁ k₁ hready₁
      refine after_bind_of_spares (Q := Q k) hremove (fun e l h => herror e l (h₁.trans h))
        fun _ g₂ k₂ _ h₂ => ?_
      exact ⟨[], (h₁.trans h₂).setsAside, rfl⟩
    · refine (setAside_after hready₁.here htemporary haside).mono ?_
      rintro r _ l ⟨new, hnew, hset⟩
      exact ⟨new, h₁.setsAside.trans hnew, hset⟩
  · have hmove : Spares (fun _ => False) (fun location => ¬aside location)
        (fun location => ¬aside location) (io (config.sourceTrap source)
          (Files.rename temporary (config.sourceTrap source))) g k :=
      sparing_io (OnDisk.sparing_rename htemporary htrap htrap) g k hready
    refine after_bind_of_spares (Q := Q k) hmove herror fun _ g₁ k₁ _ h₁ => ?_
    exact ⟨[], h₁.setsAside, rfl⟩

theorem make_setsAside (hk : k.here = here)
    (hroom : config.RoomFor here entry.path (fun location => ¬aside location)
      fun location => ¬aside location)
    (hclasses : config.destination.RoomIn p here (fun location => ¬aside location)
      fun location => ¬aside location)
    (htemporary : ∀ location, Path.NameEnds ".trap.tmp" location → ¬aside location)
    (htrap : ¬aside (config.trapPlace here entry.path))
    (haside : ∀ name, aside ((config.trapPlace here entry.path).dropLast ++
      [name ++ ".trap.different"])) :
    After (make config p id entry) g k fun r _ l => ∃ new, Disk.SetsAside aside new k l ∧
      config.SetAside here entry.path (r.map Prod.fst).toOption new := by
  let Q (r : Except ExtractError TrapOutcome) (l : Disk) : Prop :=
    ∃ new, Disk.SetsAside aside new k l ∧ config.SetAside here entry.path r.toOption new
  have hready : k.Ready here fun _ => False := ⟨hk, nofun⟩
  refine make_after (Q := Q) hready hroom hclasses (fun _ _ h => ⟨[], h.setsAside, Nat.zero_le 1⟩)
    (fun _ h => ⟨[], h.setsAside, rfl⟩) fun temporary k₁ g₂ k₂ h₁ _ _ hends h₂ => ?_
  have hnot := htemporary _ hends
  have h₂ : Disk.Spares (fun _ => False) (fun location => ¬aside location)
      (fun location => ¬aside location) k₁ k₂ :=
    h₂.mono (fun location h => h.elim (fun h => h) fun hsame => hsame ▸ hnot) fun _ h => h
  have hbefore := h₁.trans h₂
  refine (settle_setsAside (hready.spared hbefore).here hnot htrap haside).mono ?_
  rintro (e | outcome) _ l ⟨new, hnew, hset⟩
  · have hl : l.here = here := hnew.spares.here.trans (hready.spared hbefore).here
    exact ⟨new, hbefore.setsAside.trans (hnew.remove hl hnot), hset⟩
  · exact ⟨new, hbefore.setsAside.trans hnew, hset⟩

end SourceTrap

/-! ## The whole run -/

namespace Config

variable {config : Config} {p : Program} {k : Disk}

/-- Where traps are set aside: outside the archive, where copies may end in any way. -/
def Aside (config : Config) (here location : Location) : Prop :=
  NameEnds ".trap.different" location ∧
    ¬Below (config.sourceArchiveDir.locationFrom here) location

theorem rooms_offAside (config : Config) (p : Program) (here : Location) (source : String) :
    config.RoomFor here source (fun location => ¬config.Aside here location)
        (fun location => ¬config.Aside here location) ∧
      config.destination.RoomIn p here (fun location => ¬config.Aside here location)
        (fun location => ¬config.Aside here location) := by
  have hends : EndsApart ".trap.different" := by unfold EndsApart; decide
  have hfree (location : Location) (h : ¬NameEnds ".trap.different" location ∨
      Below (config.sourceArchiveDir.locationFrom here) location) :
      ¬config.Aside here location := fun haside =>
    h.elim (fun hnot => hnot haside.1) fun hbelow => haside.2 hbelow
  exact ⟨roomFor_of_endsApart hends (fun location h => ⟨hfree location h, hfree location h⟩) source,
    roomIn_of_endsApart hends fun location h => ⟨hfree location (.inl h), hfree location (.inl h)⟩⟩

theorem LiesApart.made_setsAside (h : config.LiesApart k) {id : FileId} {entry : FileEntry}
    {g : Progress} {l : Disk} (hl : l.here = k.here) :
    Task.After (SourceTrap.make config p id entry) g l fun r _ m =>
      ∃ new, Disk.SetsAside (config.Aside k.here) new l m ∧
        config.SetAside k.here entry.path (r.map Prod.fst).toOption new := by
  obtain ⟨hroom, hclasses⟩ := rooms_offAside config p k.here entry.path
  refine SourceTrap.make_setsAside hl hroom hclasses (fun location hends haside => ?_)
    (fun haside => ?_) fun name => ⟨⟨_, name, rfl⟩, h.beside entry.path _⟩
  · exact Path.not_nameEnds hends (by decide) (by decide) haside.1
  · have htrap := config.nameEnds_trapPlace k.here entry.path
    exact Path.not_nameEnds htrap (by decide) (by decide) haside.1

end Config

namespace Run

variable {config : Config} {p : Program} {r r' : Run} {k l l' : Disk}

theorem outcome_report (path : String) (m n : Nat)
    (outcome : Except ExtractError (TrapOutcome × DrainSummary)) :
    (report path m n outcome).outcome = (outcome.map Prod.fst).toOption := by
  rcases outcome with e | ⟨outcome, external⟩ <;> rfl

theorem Passes.setsAside {todo : List (FileId × FileEntry)} (h : Passes config p todo r l r' l')
    (hapart : config.LiesApart k) (hl : l.here = k.here) : ∃ reports news,
      r'.reports.reverse = r.reports.reverse ++ reports ∧
      Disk.SetsAside (config.Aside k.here) news.flatten l l' ∧
      List.Forall₂ (fun report new => config.SetAside k.here report.path report.outcome new)
        reports news := by
  induction h with
  | @done r l =>
    have hnone := Disk.Spares.refl (fun _ => False) (fun location => ¬config.Aside k.here location)
      (fun location => ¬config.Aside k.here location) l
    exact ⟨[], [], (List.append_nil _).symm, hnone.setsAside, .nil⟩
  | @file id entry more r r₁ r₂ l l₁ l₂ outcome g made counter reports _ ih =>
    have hmade : Task.After (SourceTrap.make config p id entry) { counter := r.counter } l
        fun r _ m => ∃ new, Disk.SetsAside (config.Aside k.here) new l m ∧
          config.SetAside k.here entry.path (r.map Prod.fst).toOption new :=
      hapart.made_setsAside hl
    unfold Task.After at hmade
    rw [made] at hmade
    obtain ⟨new, hnew, hset⟩ := hmade
    obtain ⟨rest, news, hreports, hnews, hrest⟩ := ih (hnew.spares.here.trans hl)
    refine ⟨report entry.path r.counter.errors g.counter.errors outcome :: rest, new :: news, ?_,
      hnew.trans hnews, .cons ?_ hrest⟩
    · rw [hreports, reports, List.reverse_cons, List.append_assoc, List.singleton_append]
    · rw [path_report, outcome_report]
      exact hset

end Run

namespace Config

variable {config : Config} {p : Program} {k : Disk}

/-- **A run never alters the trap of a source file that is there.** Its place and its contents
stay what they were, whatever becomes of the run and of the files in it. In a run that ends, each
report tells what was set aside for its file: one new trap beside the old one if the two are
different, and none if there is no difference, or if the trap was left alone or written. No other
trap is set aside. -/
theorem run_keepsTraps {now : OnDisk Nat} (hnow : ∀ k, (now k).2 = k) (hissued : k.Issued)
    (hapart : config.LiesApart k) :
    (∀ source id, k.fileAt (config.sourceTrap source) = .ok id →
      (config.run p now k).2.fileAt (config.sourceTrap source) = .ok id ∧
        (config.run p now k).2.contentsOf id = k.contentsOf id) ∧
    ∀ summary k', config.run p now k = (.ok summary, k') → ∃ news : List (List Location),
      List.Forall₂ (fun report new => config.SetAside k.here report.path report.outcome new)
        summary.files news ∧
      news.flatten.Nodup ∧
      (∀ location ∈ news.flatten, config.Aside k.here location ∧ k.entry? location = none ∧
        ∃ id, k'.entry? location = some (.file id)) ∧
      ∀ location id, config.Aside k.here location → k'.entry? location = some (.file id) →
        k.entry? location = some (.file id) ∨ location ∈ news.flatten ∨
          location = config.invocationTrap.locationFrom k.here := by
  refine ⟨fun source id htrap => fileAt_run hnow hissued hapart htrap, fun summary k' hrun => ?_⟩
  obtain ⟨handle, k₁, r, k₂, bytes, hopen, hpasses, happend, hfiles, -⟩ := run_passes hnow hrun
  let invocation := config.invocationTrap.locationFrom k.here
  have hopened : Disk.Spares (fun _ => False) (fun _ => False)
      (fun location => location = invocation) k k₁ := by
    have hsparing : OnDisk.Sparing k.here (fun _ => False) (fun _ => False)
        (fun location => location = invocation)
        (Files.openAppend (m := OnDisk) config.invocationTrap) :=
      OnDisk.sparing_openAppend rfl
    have hspares := hsparing k ⟨rfl, nofun⟩
    rwa [hopen] at hspares
  obtain ⟨reports, news, hreports, hnews, htold⟩ := hpasses.setsAside hapart hopened.here
  obtain rfl := Disk.append_ok (OnDisk.attempt_ok happend)
  refine ⟨news, ?_, hnews.nodup, fun location hmem => ?_, fun location id haside hfile => ?_⟩
  · rw [hfiles, hreports]
    exact htold
  · obtain ⟨haside, hnone⟩ := hnews.fresh location hmem
    refine ⟨haside, ?_, hnews.made location hmem⟩
    cases hentry : k.entry? location with
    | none => rfl
    | some entry =>
      have hstill : k₁.entry? location = some entry := by
        cases entry with
        | folder => exact hopened.folder location hentry
        | file id => exact hopened.file location id (fun h => h) hentry
      rw [hnone] at hstill
      cases hstill
  · rcases hnews.spares.fresh location id hfile with hbefore | hnot | hnew
    · rcases hopened.fresh location id hbefore with hold | hsame
      · exact .inl hold
      · exact .inr (.inr hsame)
    · exact absurd haside hnot
    · exact .inr (.inl hnew)

/-- A disk on which the trap of one source file is there. -/
def oldTrap : Disk :=
  let folders := (Disk.ofFolder ["home"]).setEntry ["home", "trap"] .folder
  (folders.addFile ["home", "trap", "a.kt.trap"]).2.setContents 0 "old".toUTF8

theorem entry?_oldTrap {location : Location} {id : Nat}
    (h : oldTrap.entry? location = some (.file id)) :
    location = ["home", "trap", "a.kt.trap"] ∧ id = 0 := by
  rcases Disk.entry?_setEntry h with ⟨hlocation, hnew⟩ | hbefore
  · cases hnew
    exact ⟨hlocation, rfl⟩
  · rcases Disk.entry?_setEntry hbefore with ⟨-, hnew⟩ | hblank
    · cases hnew
    · exact absurd hblank (Disk.entry?_ofFolder _ _ _)

/-- The old trap is compared with the new one, which is set aside. -/
theorem run_keepsTraps_oldTrap :
    let now : OnDisk Nat := pure 0
    let config := { limitOfThree with checkTrapIdentical := true }
    let k' := (config.run Walk.missingTwo now oldTrap).2
    let aside : Path := ⟨"trap/a.kt.trap.000002.trap.different"⟩
    (∀ k, (now k).2 = k) ∧ oldTrap.Issued ∧ config.LiesApart oldTrap ∧
      oldTrap.fileAt (config.sourceTrap "a.kt") = .ok 0 ∧
      (config.run Walk.missingTwo now oldTrap).1 = .ok (reportOnMissing (.different aside)) ∧
      k'.fileAt (config.sourceTrap "a.kt") = .ok 0 ∧ k'.contentsOf 0 = "old".toUTF8 ∧
      oldTrap.entry? ["home", "trap", "a.kt.trap.000002.trap.different"] = none ∧
      ∃ id, k'.entry? ["home", "trap", "a.kt.trap.000002.trap.different"] = some (.file id) := by
  intro now config k' aside
  have hnow : ∀ k, (now k).2 = k := fun _ => rfl
  have hissued : oldTrap.Issued := fun location id h => by
    rw [(entry?_oldTrap h).2]
    decide
  have hapart : config.LiesApart oldTrap := by
    refine ⟨by decide +kernel, by decide +kernel, fun source id _ hinvocation => ?_⟩
    exact absurd (entry?_oldTrap hinvocation).1 (by decide +kernel)
  have htrap : oldTrap.fileAt (config.sourceTrap "a.kt") = .ok 0 := by decide +kernel
  have hindexed : (List.range Walk.missingTwo.fileIds.length).zip Walk.missingTwo.fileIds =
      [(0, ⟨0⟩)] := by decide +kernel
  have hrun : (config.run Walk.missingTwo now oldTrap).1 =
      .ok (reportOnMissing (.different aside)) := by
    simp only [config, run, hindexed, Run.files, Run.file, SourceTrap.make, SourceTrap.settle,
      compare_of toList_eq_data]
    decide +kernel
  obtain ⟨hkept, haside⟩ := run_keepsTraps (p := Walk.missingTwo) hnow hissued hapart
  obtain ⟨hfile, hcontents⟩ := hkept "a.kt" 0 htrap
  obtain ⟨news, htold, -, hnew, -⟩ := haside _ k' (Prod.ext hrun rfl)
  obtain ⟨new, rest, ⟨rfl, -⟩, -, rfl⟩ := List.forall₂_cons_left_iff.mp htold
  obtain ⟨-, hnone, hmade⟩ := hnew _ (List.mem_append_left _ List.mem_cons_self)
  have hplace : aside.locationFrom oldTrap.here =
      ["home", "trap", "a.kt.trap.000002.trap.different"] := by decide +kernel
  rw [hplace] at hnone hmade
  exact ⟨hnow, hissued, hapart, htrap, hrun, hfile, hcontents, hnone, hmade⟩

end Config

end IrFacts
