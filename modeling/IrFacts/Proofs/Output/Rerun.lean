import IrFacts.Proofs.Diagnostics.RateLimit
import IrFacts.Proofs.Output.SourceTraps
import IrFacts.Proofs.Output.Vouching
import IrFacts.Run.Basic

/-!
# Running again

The second run over the same program makes the traps of the first one again, as
long as no diagnostic is left out in either. A limit is shared by all files and
by the classes that are drained between them, and classes that are up to date
are not extracted again. So once a limit is reached, the same file may find
more of it left in the second run, and write another trap.
-/

set_option autoImplicit false

namespace IrFacts

/-- The source files of a program, with their numbers. -/
def Program.entries (p : Program) : List (FileId × FileEntry) :=
  p.fileIds.filterMap fun id => (p.file? id).map fun entry => (id, entry)

theorem Program.entries_files {p : Program} (h : p.files.size ≤ UInt32.size) :
    p.entries.map Prod.snd = p.files.toList := by
  let indices := List.finRange p.files.toList.length
  have hfound (i : Fin p.files.toList.length) (_ : i ∈ indices) :
      p.file? ⟨UInt32.ofNat i.val⟩ = some p.files.toList[i] := by
    have hsize : i < p.files.size := i.isLt
    simp [Program.file?, Nat.mod_eq_of_lt (Nat.lt_of_lt_of_le hsize h), hsize]
  have hentries : p.entries.map Prod.snd =
      indices.filterMap fun i => p.file? ⟨UInt32.ofNat i.val⟩ := by
    simp [indices, Program.entries, Program.fileIds, ← List.map_coe_finRange_eq_range,
      List.map_filterMap, List.filterMap_map, Function.comp_def]
  rw [hentries, List.filterMap_eq_map_iff_forall_eq_some.mpr hfound]
  exact List.map_getElem_finRange p.files.toList

namespace Config

/-- The traps of source files have paths of their own, and no file is copied to where one of them
belongs, nor is the invocation trap kept there. -/
structure TrapsApart (config : Config) (here : Location) (paths : List String) : Prop where
  distinct : (paths.map config.sourceTrap).Nodup
  copies : ∀ a ∈ paths, ∀ b ∈ paths, config.copyPlace here a ≠ config.trapPlace here b
  invocation : ∀ path ∈ paths,
    config.invocationTrap.locationFrom here ≠ config.trapPlace here path

def ReachedBy (config : Config) (here : Location) (paths : List String) (location : Location) :
    Prop :=
  ∃ path ∈ paths, config.Reached here path location

variable {config : Config} {here : Location} {path : String} {paths : List String}

theorem TrapsApart.tail (h : config.TrapsApart here (path :: paths)) :
    config.TrapsApart here paths where
  distinct := (List.nodup_cons.mp h.distinct).2
  copies a ha b hb := h.copies a (List.mem_cons_of_mem path ha) b (List.mem_cons_of_mem path hb)
  invocation a ha := h.invocation a (List.mem_cons_of_mem path ha)

theorem of_reached_trapPlace {other : String}
    (h : config.Reached here path (config.trapPlace here other)) :
    config.copyPlace here path = config.trapPlace here other ∨
      config.trapPlace here path = config.trapPlace here other := by
  rcases h with (hends | hcopy) | htrap
  · exact absurd (config.nameEnds_trapPlace here other) hends
  · exact .inl hcopy.symm
  · exact .inr htrap.symm

/-- One file does not reach into the place of another one's trap. -/
theorem TrapsApart.not_reached (h : config.TrapsApart here (path :: paths)) {other : String}
    (hother : other ∈ paths) :
    ¬config.Reached here path (config.trapPlace here other) ∧
      ¬config.Reached here other (config.trapPlace here path) := by
  have hmem := List.mem_cons_of_mem path hother
  have hfirst : path ∈ path :: paths := List.mem_cons_self
  have hne : config.trapPlace here other ≠ config.trapPlace here path := fun he =>
    (List.nodup_cons.mp h.distinct).1 (List.mem_map.mpr ⟨other, hother, sourceTrap_of_trapPlace he⟩)
  constructor
  · intro hreached
    rcases of_reached_trapPlace hreached with hcopy | htrap
    · exact h.copies path hfirst other hmem hcopy
    · exact hne htrap.symm
  · intro hreached
    rcases of_reached_trapPlace hreached with hcopy | htrap
    · exact h.copies other hmem path hfirst hcopy
    · exact hne htrap

end Config

namespace Run

variable {config : Config} {p : Program} {r r' : Run} {k k' : Disk}

/-! ## Files one after the other -/

/-- A run over files that is not stopped: each is made in its turn, and reported on. -/
inductive Passes (config : Config) (p : Program) :
    List (FileId × FileEntry) → Run → Disk → Run → Disk → Prop
  | done {r : Run} {k : Disk} : Passes config p [] r k r k
  | file {id : FileId} {entry : FileEntry} {more : List (FileId × FileEntry)} {r r₁ r₂ : Run}
      {k k₁ k₂ : Disk} {outcome : Except ExtractError (TrapOutcome × DrainSummary)} {g : Progress}
      (made : (SourceTrap.make config p id entry : Task OnDisk _).run.run
        { counter := r.counter } k = ((outcome, g), k₁))
      (counter : r₁.counter = g.counter)
      (reports : r₁.reports =
        report entry.path r.counter.errors g.counter.errors outcome :: r.reports)
      (rest : Passes config p more r₁ k₁ r₂ k₂) : Passes config p ((id, entry) :: more) r k r₂ k₂

theorem file_passes {index : Nat} {id : FileId} {entry : FileEntry}
    (h : (file config p index id entry r : OnDisk _) k = ((none, r'), k')) : ∃ outcome g,
      (SourceTrap.make config p id entry : Task OnDisk _).run.run { counter := r.counter } k =
        ((outcome, g), k') ∧ r'.counter = g.counter ∧ r'.reports =
          report entry.path r.counter.errors g.counter.errors outcome :: r.reports := by
  unfold file at h
  rw [OnDisk.bind_apply] at h
  rcases hmake : (SourceTrap.make config p id entry : Task OnDisk _).run.run
    { counter := r.counter } k with ⟨⟨outcome, g⟩, l⟩
  have hmake' : (SourceTrap.make config p id entry : Task OnDisk _).run.run
    { counter := (r.beginFile index entry.path).counter } k = ((outcome, g), l) := hmake
  rw [hmake'] at h
  dsimp only at h
  split at h
  · cases h
  · cases h
    exact ⟨outcome, g, rfl, rfl, rfl⟩

theorem files_pass {todo : List (Nat × FileId)}
    (h : (files config p todo r : OnDisk _) k = ((none, r'), k')) :
    Passes config p ((todo.map Prod.snd).filterMap fun id =>
      (p.file? id).map fun entry => (id, entry)) r k r' k' := by
  induction todo generalizing r k with
  | nil =>
    cases h
    exact .done
  | cons first rest ih =>
    obtain ⟨index, id⟩ := first
    unfold files at h
    cases hentry : p.file? id with
    | none =>
      rw [hentry] at h
      rw [List.map_cons, List.filterMap_cons, hentry]
      exact ih h
    | some entry =>
      rw [hentry] at h
      dsimp only at h
      rw [OnDisk.bind_apply] at h
      rcases hfile : (file config p index id entry r : OnDisk _) k with ⟨⟨stop?, r₁⟩, k₁⟩
      rw [hfile] at h
      cases stop? with
      | some stop => cases h
      | none =>
        obtain ⟨outcome, g, hmade, hcounter, hreports⟩ := file_passes hfile
        rw [List.map_cons, List.filterMap_cons, hentry]
        exact .file hmade hcounter hreports (ih h)

/-! ## What is left alone -/

def pathsOf (todo : List (FileId × FileEntry)) : List String := todo.map fun file => file.2.path

theorem mem_pathsOf {todo : List (FileId × FileEntry)} {file : FileId × FileEntry}
    (h : file ∈ todo) : file.2.path ∈ pathsOf todo := List.mem_map_of_mem h

theorem made_keeps {id : FileId} {entry : FileEntry} {g g' : Progress} {here : Location}
    {outcome : Except ExtractError (TrapOutcome × DrainSummary)} (hk : k.here = here)
    (h : (SourceTrap.make config p id entry : Task OnDisk _).run.run g k = ((outcome, g'), k')) :
    g.counter.Precedes g'.counter ∧ Disk.Frame (config.Reached here entry.path) k k' := by
  have hmake : Task.Confined here (config.Reached here entry.path)
    (SourceTrap.make config p id entry : Task OnDisk _) := SourceTrap.confined_make
  obtain ⟨hcounter, hframe, -⟩ := hmake g k hk
  rw [h] at hcounter hframe
  exact ⟨hcounter, hframe⟩

theorem Passes.keeps {todo : List (FileId × FileEntry)} (h : Passes config p todo r k r' k')
    {here : Location} (hk : k.here = here) : r.counter.Precedes r'.counter ∧
      Disk.Frame (config.ReachedBy here (pathsOf todo)) k k' ∧ r.reports ⊆ r'.reports := by
  induction h with
  | done => exact ⟨.refl _, .refl _ _, List.Subset.refl _⟩
  | @file id entry more r r₁ r₂ k k₁ k₂ outcome g made counter reports _ ih =>
    obtain ⟨hcounter, hframe⟩ := made_keeps hk made
    obtain ⟨hcounter', hframe', hreports⟩ := ih (hframe.here.trans hk)
    refine ⟨(counter ▸ hcounter).trans hcounter', ?_, fun report hreport => hreports ?_⟩
    · refine (hframe.mono fun location hreached => ?_).trans (hframe'.mono fun location => ?_)
      · exact ⟨entry.path, List.mem_cons_self, hreached⟩
      · rintro ⟨path, hpath, hreached⟩
        exact ⟨path, List.mem_cons_of_mem _ hpath, hreached⟩
    · rw [reports]
      exact List.mem_cons_of_mem _ hreport

theorem path_report (path : String) (m n : Nat)
    (outcome : Except ExtractError (TrapOutcome × DrainSummary)) :
    (report path m n outcome).path = path := by
  rcases outcome with e | ⟨outcome, external⟩ <;> rfl

theorem Passes.reports {todo : List (FileId × FileEntry)} (h : Passes config p todo r k r' k') :
    r'.reports.reverse.map (·.path) = r.reports.reverse.map (·.path) ++ pathsOf todo := by
  induction h with
  | done => exact (List.append_nil _).symm
  | file _ _ reports _ ih =>
    rw [ih, reports, List.reverse_cons, List.map_append, List.map_singleton, path_report,
      List.append_assoc]
    rfl

/-! ## Two runs -/

open SourceTrap

theorem Passes.held {todo : List (FileId × FileEntry)} (h : Passes config p todo r k r' k')
    {here : Location} {start : Nat} (hk : k.here = here) (hissued : k.Issued)
    (hstart : start ≤ k.nextFile) (hapart : config.TrapsApart here (pathsOf todo))
    (hnone : ∀ path ∈ pathsOf todo, ∀ file,
      k.entry? (config.trapPlace here path) ≠ some (.file file))
    (hok : ∀ report ∈ r'.reports, report.result ≠ .failed) (hlimited : r'.counter.limited = []) :
    ∀ file ∈ todo, Held config p start file.1 file.2 k' := by
  induction h with
  | done => exact nofun
  | @file id entry more r r₁ r₂ k k₁ k₂ outcome g made counter reports passes ih =>
    subst hk
    obtain ⟨-, hframe⟩ := made_keeps rfl made
    obtain ⟨hcounter, hrest, hreports⟩ := passes.keeps hframe.here
    have hissued₁ := hframe.issued hissued
    have hfirst : Held config p start id entry k₁ := by
      have hreport := hok _ (hreports (reports ▸ List.mem_cons_self))
      cases outcome with
      | error e => exact absurd rfl hreport
      | ok result =>
        have hyields : Task.Yields (make config p id entry) { counter := r.counter } k
            fun _ g' k' => g'.counter.limited = [] → Held config p start id entry k' :=
          make_held hissued hstart
            (hapart.copies entry.path List.mem_cons_self entry.path List.mem_cons_self)
            (hnone entry.path List.mem_cons_self)
        exact hyields.of_run made (counter ▸ hcounter.limited hlimited)
    have hnone₁ : ∀ path ∈ pathsOf more, ∀ file,
        k₁.entry? (config.trapPlace k.here path) ≠ some (.file file) := by
      intro path hpath file hfile
      refine hnone path (List.mem_cons_of_mem _ hpath) file ?_
      exact (hframe.file (hapart.not_reached hpath).1).mp hfile
    intro file hfile
    rcases List.mem_cons.mp hfile with rfl | hmore
    · refine hfirst.frame hissued₁ hrest ?_
      rintro ⟨path, hpath, hreached⟩
      rw [hframe.here] at hreached
      exact (hapart.not_reached hpath).2 hreached
    · exact ih hframe.here hissued₁ (Nat.le_trans hstart hframe.next) hapart.tail hnone₁ hok
        hlimited file hmore

theorem Passes.identical {todo : List (FileId × FileEntry)} (h : Passes config p todo r k r' k')
    {here : Location} {start : Nat} (hk : k.here = here) (hissued : k.Issued)
    (hcheck : config.checkTrapIdentical = true) (hapart : config.TrapsApart here (pathsOf todo))
    (hheld : ∀ file ∈ todo, Held config p start file.1 file.2 k)
    (hlimited : r'.counter.limited = []) :
    ∀ report ∈ r'.reports, report ∈ r.reports ∨
      (report.result ≠ .failed → report.outcome = some .identical) := by
  induction h with
  | done => exact fun _ => .inl
  | @file id entry more r r₁ r₂ k k₁ k₂ outcome g made counter reports passes ih =>
    subst hk
    obtain ⟨-, hframe⟩ := made_keeps rfl made
    obtain ⟨hcounter, -, -⟩ := passes.keeps hframe.here
    have hheld₁ : ∀ file ∈ more, Held config p start file.1 file.2 k₁ := fun file hfile =>
      (hheld file (List.mem_cons_of_mem _ hfile)).frame hissued hframe
        (hapart.not_reached (mem_pathsOf hfile)).1
    intro found hfound
    rcases ih hframe.here (hframe.issued hissued) hapart.tail hheld₁ hlimited found hfound with
      hbefore | hidentical
    · rw [reports] at hbefore
      rcases List.mem_cons.mp hbefore with rfl | hearlier
      · refine .inr fun hok => ?_
        cases outcome with
        | error e => exact absurd rfl hok
        | ok result =>
          have hyields : Task.Yields (make config p id entry) { counter := r.counter } k
              fun r g' _ => g'.counter.limited = [] → r.1 = .identical :=
            make_identical hissued hcheck
              (hapart.copies entry.path List.mem_cons_self entry.path List.mem_cons_self)
              (hheld (id, entry) List.mem_cons_self)
          exact congrArg some (hyields.of_run made (counter ▸ hcounter.limited hlimited))
      · exact .inl hearlier
    · exact .inr hidentical

end Run

/-! ## The whole run -/

namespace Config

variable {config : Config} {p : Program} {now : OnDisk Nat} {k k' : Disk} {summary : RunSummary}

/-- What has been counted when all files of a run have been extracted. -/
def counted (config : Config) (p : Program) : OnDisk Counter := do
  match ← Files.openAppend config.invocationTrap with
  | .error _ => return { limit := config.diagnosticLimit }
  | .ok _ =>
    let indexed := (List.range p.fileIds.length).zip p.fileIds
    let (_, r) ← Run.files config p indexed (Run.start config)
    return r.counter

/-- A run that ends goes over all files between opening the invocation trap and adding to it. -/
theorem run_files (hnow : ∀ k, (now k).2 = k) (h : config.run p now k = (.ok summary, k')) :
    ∃ handle k₁ r k₂ elapsed,
      Files.openAppend (m := OnDisk) config.invocationTrap k = (.ok handle, k₁) ∧
      (Run.files config p ((List.range p.fileIds.length).zip p.fileIds) (Run.start config) :
        OnDisk _) k₁ = ((none, r), k₂) ∧
      Files.append (m := OnDisk) handle (r.finish elapsed).text.toUTF8 k₂ = (.ok (), k') ∧
      summary.files = r.reports.reverse := by
  unfold run at h
  rw [OnDisk.bind_apply, hnow, OnDisk.bind_apply] at h
  rcases hopen : Files.openAppend (m := OnDisk) config.invocationTrap k with ⟨e | handle, k₁⟩ <;>
    rw [hopen] at h
  · cases h
  dsimp only at h
  rw [OnDisk.bind_apply] at h
  rcases hfiles : (Run.files config p ((List.range p.fileIds.length).zip p.fileIds)
    (Run.start config) : OnDisk _) k₁ with ⟨⟨_ | stop, r⟩, k₂⟩ <;> rw [hfiles] at h
  · dsimp only at h
    rw [OnDisk.bind_apply, hnow, OnDisk.bind_apply] at h
    generalize Run.elapsed config _ _ = elapsed at h
    rcases happend : Files.append (m := OnDisk) handle (r.finish elapsed).text.toUTF8 k₂ with
      ⟨e | _, k₃⟩ <;> rw [happend] at h <;> cases h
    exact ⟨handle, k₁, r, k₂, elapsed, rfl, hfiles, happend, rfl⟩
  · cases h

theorem run_passes (hnow : ∀ k, (now k).2 = k) (h : config.run p now k = (.ok summary, k')) :
    ∃ handle k₁ r k₂ bytes,
      Files.openAppend (m := OnDisk) config.invocationTrap k = (.ok handle, k₁) ∧
      Run.Passes config p p.entries (Run.start config) k₁ r k₂ ∧
      Files.append (m := OnDisk) handle bytes k₂ = (.ok (), k') ∧
      summary.files = r.reports.reverse ∧ (config.counted p k).1 = r.counter := by
  obtain ⟨handle, k₁, r, k₂, elapsed, hopen, hfiles, happend, hreports⟩ := run_files hnow h
  have hpasses := Run.files_pass hfiles
  rw [List.map_snd_zip (by simp)] at hpasses
  refine ⟨handle, k₁, r, k₂, _, hopen, hpasses, happend, hreports, ?_⟩
  unfold counted
  rw [OnDisk.bind_apply, hopen]
  dsimp only
  rw [OnDisk.bind_apply, hfiles]
  rfl

theorem limited_of_noLimit (hnow : ∀ k, (now k).2 = k) (h : config.run p now k = (.ok summary, k'))
    (hlimit : config.diagnosticLimit = 0) : (config.counted p k).1.limited = [] := by
  obtain ⟨handle, k₁, r, k₂, bytes, -, hpasses, -, -, hcounted⟩ := run_passes hnow h
  have hsame : r.counter.limit = config.diagnosticLimit := (hpasses.keeps rfl).1.limit
  rw [hcounted]
  exact Counter.limited_eq_nil_iff.mpr (.inl (hsame.trans hlimit))

theorem not_failed_of_failedFiles (h : summary.failedFiles = 0) :
    ∀ report ∈ summary.files, report.result ≠ .failed := by
  intro report hreport hfailed
  have hmem : report ∈ summary.files.filter fun report => report.result = .failed :=
    List.mem_filter.mpr ⟨hreport, decide_eq_true hfailed⟩
  rw [List.length_eq_zero_iff.mp h] at hmem
  cases hmem

theorem frame_openAppend {path : Path} {handle : Nat}
    (h : Files.openAppend (m := OnDisk) path k = (.ok handle, k')) :
    Disk.Frame (fun location => location = path.locationFrom k.here) k k' := by
  have hframes : OnDisk.Frames k.here (fun location => location = path.locationFrom k.here)
    (Files.openAppend (m := OnDisk) path) := OnDisk.frames_openAppend rfl
  have hframe := hframes k rfl
  rwa [h] at hframe

theorem held_append {start handle : Nat} {bytes : ByteArray} {id : FileId} {entry : FileEntry}
    (h : SourceTrap.Held config p start id entry k) (hhandle : handle < start)
    (happend : Files.append (m := OnDisk) handle bytes k = (.ok (), k')) :
    SourceTrap.Held config p start id entry k' := by
  obtain rfl := Disk.append_ok (OnDisk.attempt_ok happend)
  rcases h with hfolder | ⟨text, htext, hstores⟩
  · exact .inl hfolder
  · exact .inr ⟨text, htext, Disk.Stores.setContents (k := k.counted) hstores hhandle _⟩

theorem issued_append {handle : Nat} {bytes : ByteArray} (hk : k.Issued)
    (happend : Files.append (m := OnDisk) handle bytes k = (.ok (), k')) :
    k'.Issued ∧ k'.here = k.here := by
  obtain rfl := Disk.append_ok (OnDisk.attempt_ok happend)
  exact ⟨hk, rfl⟩

/-- **A second run confirms the first.** If no file fails in a run, and no trap of a source file
was there before, then a second run that compares traps finds each of them identical, as long as
no diagnostic is left out in either. -/
theorem rerun_identical {first second : RunSummary} {k₁ k₂ : Disk} (hnow : ∀ k, (now k).2 = k)
    (hissued : k.Issued) (hapart : config.TrapsApart k.here (Run.pathsOf p.entries))
    (hempty : ∀ path ∈ Run.pathsOf p.entries, ∀ file,
      k.entry? (config.trapPlace k.here path) ≠ some (.file file))
    (hfirst : config.run p now k = (.ok first, k₁)) (hok : first.failedFiles = 0)
    (hsecond : { config with checkTrapIdentical := true }.run p now k₁ = (.ok second, k₂))
    (hlimited : (config.counted p k).1.limited = [])
    (hlimited' : ({ config with checkTrapIdentical := true }.counted p k₁).1.limited = []) :
    second.files.map (·.path) = Run.pathsOf p.entries ∧
      ∀ report ∈ second.files, report.result ≠ .failed → report.outcome = some .identical := by
  obtain ⟨handle, l₁, r, l₂, bytes, hopen, hpasses, happend, hreports, hcounted⟩ :=
    run_passes hnow hfirst
  obtain ⟨handle', l₃, r', l₄, bytes', hopen', hpasses', -, hreports', hcounted'⟩ :=
    run_passes hnow hsecond
  have hframe := frame_openAppend hopen
  have hissued₁ := hframe.issued hissued
  have hnone : ∀ path ∈ Run.pathsOf p.entries, ∀ file,
      l₁.entry? (config.trapPlace k.here path) ≠ some (.file file) := fun path hpath file hfile =>
    hempty path hpath file ((hframe.file (hapart.invocation path hpath).symm).mp hfile)
  have hnofail : ∀ report ∈ r.reports, report.result ≠ .failed := fun report hreport =>
    not_failed_of_failedFiles hok report (hreports ▸ List.mem_reverse.mpr hreport)
  have hheld := hpasses.held hframe.here hissued₁ (Nat.le_refl _) hapart hnone hnofail
    (hcounted ▸ hlimited)
  obtain ⟨-, hmade, -⟩ := hpasses.keeps hframe.here
  obtain ⟨hissued₂, hhere₂⟩ := issued_append (hmade.issued hissued₁) happend
  have hhere₂ : k₁.here = k.here := hhere₂.trans (hmade.here.trans hframe.here)
  have hframe' := frame_openAppend hopen'
  have hhere₃ : l₃.here = k.here := hframe'.here.trans hhere₂
  have hheld' : ∀ file ∈ p.entries, SourceTrap.Held config p l₁.nextFile file.1 file.2 l₃ := by
    intro file hfile
    have hstill := held_append (hheld file hfile) (OnDisk.lt_nextFile_of_openAppend hissued hopen)
      happend
    refine hstill.frame hissued₂ hframe' ?_
    rw [hhere₂]
    exact (hapart.invocation _ (Run.mem_pathsOf hfile)).symm
  have hidentical := hpasses'.identical hhere₃ (hframe'.issued hissued₂) rfl
    ⟨hapart.distinct, hapart.copies, hapart.invocation⟩ hheld' (hcounted' ▸ hlimited')
  rw [hreports']
  refine ⟨hpasses'.reports, fun report hreport => ?_⟩
  rcases hidentical report (List.mem_reverse.mp hreport) with hbefore | hsame
  · cases hbefore
  · exact hsame

theorem compare_of {bytesIn : ByteArray → Trap.Bytes} (h : ∀ b : ByteArray, b.toList = bytesIn b)
    (temporary trap : Path) : (SourceTrap.compare temporary trap : Task OnDisk Bool) = (do
      let a ← Task.io trap (Files.read temporary)
      let b ← Task.io trap (Files.read trap)
      match Trap.equivalent (bytesIn a) (bytesIn b) with
      | .ok same => return same
      | .error .invalidText => throw (.io trap .notText)) := by
  obtain rfl : ByteArray.toList = bytesIn := funext h
  rfl

def limitOfThree : Config :=
  { invocationTrap := ⟨"inv"⟩, trapDir := ⟨"trap"⟩, sourceArchiveDir := ⟨"src"⟩
    checkTrapIdentical := false, exitAfterExtraction := false, compilationStartMs := none
    diagnosticLimit := 3 }

/-- The one file of `missingTwo`, of which the trap is written or found. -/
def reportOnMissing (outcome : TrapOutcome) : RunSummary :=
  ⟨[{ path := "a.kt", result := .recoverableErrors, outcome := some outcome, external := {} }]⟩

/-- Two diagnostics are counted in each run, and a third one would reach the limit. -/
theorem rerun_identical_missingTwo :
    let now : OnDisk Nat := pure 0
    let p := Walk.missingTwo
    let config := limitOfThree
    let k : Disk := .ofFolder ["home"]
    let k₁ := (config.run p now k).2
    let again := { config with checkTrapIdentical := true }
    (∀ k, (now k).2 = k) ∧ k.Issued ∧ config.TrapsApart k.here (Run.pathsOf p.entries) ∧
      (∀ path ∈ Run.pathsOf p.entries, ∀ file,
        k.entry? (config.trapPlace k.here path) ≠ some (.file file)) ∧
      config.run p now k = (.ok (reportOnMissing .written), k₁) ∧
      (reportOnMissing .written).failedFiles = 0 ∧
      (again.run p now k₁).1 = .ok (reportOnMissing .identical) ∧
      (config.counted p k).1.limited = [] ∧ (again.counted p k₁).1.limited = [] ∧
      (reportOnMissing .identical).files.map (·.path) = Run.pathsOf p.entries ∧
      ∀ report ∈ (reportOnMissing .identical).files,
        report.result ≠ .failed → report.outcome = some .identical := by
  intro now p config k k₁ again
  have hnow : ∀ k, (now k).2 = k := fun _ => rfl
  have hblank : ∀ location id, k.entry? location ≠ some (.file id) := Disk.entry?_ofFolder _
  have hissued : k.Issued := fun location id hentry => absurd hentry (hblank location id)
  have hpaths : Run.pathsOf p.entries = ["a.kt"] := by decide +kernel
  have hapart : config.TrapsApart k.here (Run.pathsOf p.entries) := by
    rw [hpaths]
    exact ⟨by decide +kernel, by decide +kernel, by decide +kernel⟩
  have hempty : ∀ path ∈ Run.pathsOf p.entries, ∀ file,
      k.entry? (config.trapPlace k.here path) ≠ some (.file file) := fun _ _ => hblank _
  have hfirst : (config.run p now k).1 = .ok (reportOnMissing .written) := by decide +kernel
  have hindexed : (List.range p.fileIds.length).zip p.fileIds = [(0, ⟨0⟩)] := by decide +kernel
  have hlimited : (config.counted p k).1.limited = [] := by decide +kernel
  have hsecond : (again.run p now k₁).1 = .ok (reportOnMissing .identical) := by
    simp only [again, run, hindexed, Run.files, Run.file, SourceTrap.make, SourceTrap.settle,
      compare_of toList_eq_data]
    decide +kernel
  have hlimited' : (again.counted p k₁).1.limited = [] := by
    simp only [again, counted, hindexed, Run.files, Run.file, SourceTrap.make,
      SourceTrap.settle, compare_of toList_eq_data]
    decide +kernel
  exact ⟨hnow, hissued, hapart, hempty, Prod.ext hfirst rfl, rfl, hsecond, hlimited, hlimited',
    rerun_identical hnow hissued hapart hempty (Prod.ext hfirst rfl) rfl (Prod.ext hsecond rfl)
      hlimited hlimited'⟩

end Config

end IrFacts
