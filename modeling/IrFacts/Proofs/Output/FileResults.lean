import IrFacts.Proofs.Diagnostics.Reports
import IrFacts.Proofs.Output.DrainLog
import IrFacts.Proofs.Output.InvocationTrap

/-!
# What becomes of the files of a run

A file that fails, at whatever operation, fails alone: as long as the
extractions themselves end, the run goes on to the next file. What it reports
on a file depends on the work on this file and on the problems that were met in
it, and the invocation trap tells of all files in their order.
-/

set_option autoImplicit false

namespace IrFacts

/-! ## Tasks that are not stopped -/

namespace Task

variable {α β : Type}

/-- Whatever fails in it, the task is not stopped, and what it leaves waiting was accepted once. -/
def Steady (m : Task OnDisk α) : Prop :=
  ∀ g k, g.queue.Sound → After m g k fun r g' _ =>
    g'.queue.Sound ∧ ∀ stop, r ≠ .error (.stopped stop)

def quiet : Conduct where
  leads g g' := g'.queue = g.queue
  mayStop := False
  same hqueue _ := hqueue
  trans h h' := h'.trans h

theorem steady_of_quiet {m : Task OnDisk α} (h : ∀ here, ∃ touched, Obeys quiet here touched m) :
    Steady m := by
  intro g k hsound
  obtain ⟨touched, hobeys⟩ := h k.here
  obtain ⟨hqueue, -, hstop⟩ := hobeys g k rfl
  exact ⟨hqueue.symm ▸ hsound, hstop⟩

theorem steady_pure (a : α) : Steady (pure a : Task OnDisk α) := fun _ _ hsound => ⟨hsound, nofun⟩

theorem steady_io {path : Path} {operation : OnDisk (Except FileError α)} :
    Steady (io path operation) := by
  intro g k hsound
  refine ⟨hsound, fun stop hr => ?_⟩
  have hr : (operation k).1.mapError (ExtractError.io path) = .error (.stopped stop) := hr
  cases hop : (operation k).1 <;> rw [hop] at hr <;> cases hr

theorem steady_ask {question : OnDisk α} : Steady (ask question) :=
  fun _ _ hsound => ⟨hsound, nofun⟩

theorem steady_bind {m : Task OnDisk α} {f : α → Task OnDisk β} (hm : Steady m)
    (hf : ∀ a, Steady (f a)) : Steady (m >>= f) := by
  intro g k hsound
  rw [after_bind]
  refine (hm g k hsound).mono ?_
  rintro (e | a) g' k' ⟨hsound', hstop⟩
  · exact ⟨hsound', fun stop he => hstop stop (by cases he; rfl)⟩
  · exact hf a g' k' hsound'

theorem steady_withTemporary {folder : Path} {front back : String} {work : Path → Task OnDisk α}
    (hwork : ∀ path, Steady (work path)) : Steady (withTemporary folder front back work) := by
  refine steady_bind steady_io fun path g k hsound => ?_
  rw [after_tryCatch]
  refine (hwork path g k hsound).mono ?_
  rintro (e | a) g' k' ⟨hsound', hstop⟩
  · exact ⟨hsound', hstop⟩
  · exact ⟨hsound', nofun⟩

end Task

namespace SourceTrap

open IrFacts.Task

variable {config : Config} {p : Program} {id : FileId} {entry : FileEntry}

def FileEnds (config : Config) (p : Program) (id : FileId) (entry : FileEntry) : Prop :=
  ∃ s, Extract.Ends p (session config entry {} .empty) (p.walk.extractFile id) () s

theorem FileEnds.after (h : FileEnds config p id entry) (counter : Counter)
    (queue : ClassQueue) : ∃ s, Extract.Ends p (session config entry counter queue)
      (p.walk.extractFile id) () s := by
  obtain ⟨s₀, h₀⟩ := h
  have hsame : (session config entry {} .empty).SameReferences
      (session config entry counter queue) := ⟨⟨rfl, rfl, rfl, rfl, rfl⟩, rfl⟩
  exact oblivious_file.ends hsame h₀

theorem steady_extract (h : FileEnds config p id entry) (temporary : Path) :
    Steady (extract config p id entry temporary : Task OnDisk _) := by
  refine steady_bind (fun g k hsound => ?_) fun _ => steady_io
  obtain ⟨s, hs⟩ := h.after g.counter g.queue
  unfold After
  rw [run_extracting, show p.walk.extractFile id p { file := _, counter := g.counter
                                                     queue := g.queue, dependencies := none } =
    .ok ((), s) from hs]
  obtain ⟨es, hrun⟩ := oblivious_file.runs hs
  have hextends : (session config entry g.counter g.queue).queue.Extends (fun _ => True)
      s.queue := by
    rw [hrun]
    exact Event.run_extends _ fun _ _ _ => trivial
  exact ⟨hsound.extends hextends, nofun⟩

end SourceTrap

theorem Destination.steady_drain {d : Destination} {p : Program} (hterm : d.Terminates p) :
    Task.Steady (d.drain p : Task OnDisk _) := by
  intro g k hsound
  have hfuel : room p g.queue + (if g.queue.waiting = [] then 1 else 2) ≤
      p.declarations.size + 2 := by
    unfold room
    split <;> omega
  obtain ⟨s, log, g', k', -, hrun, -, hnone, new, -, hnodup, -⟩ :=
    drainWithin_run hterm (s := {}) hsound hfuel (k := k)
  unfold Task.After
  rw [show (d.drain p : Task OnDisk _).run.run g k = ((.ok s, g'), k') from hrun]
  exact ⟨⟨hnodup, hnone ▸ List.nil_sublist _⟩, nofun⟩

namespace SourceTrap

open IrFacts.Task

variable {config : Config} {p : Program} {id : FileId} {entry : FileEntry}

theorem steady_make (hfile : FileEnds config p id entry)
    (hclasses : config.destination.Terminates p) :
    Steady (make config p id entry : Task OnDisk _) := by
  have harchive : Steady (archive config entry.path : Task OnDisk _) :=
    steady_of_quiet fun _ => ⟨_, obeys_archive⟩
  have hset : Steady (config.destination.writeSet entry.path : Task OnDisk _) :=
    steady_of_quiet fun _ => ⟨_, Destination.obeys_writeSet⟩
  have hsettle (temporary : Path) :
      Steady (settle config temporary (config.sourceTrap entry.path) : Task OnDisk _) :=
    steady_of_quiet fun _ => ⟨fun _ => True, obeys_settle trivial trivial fun _ _ => trivial⟩
  refine steady_bind harchive fun _ => steady_bind steady_ask fun present => ?_
  split
  · exact steady_pure _
  refine steady_bind steady_io fun _ => steady_withTemporary fun temporary => ?_
  refine steady_bind (steady_extract hfile temporary) fun _ => ?_
  refine steady_bind (Destination.steady_drain hclasses) fun drained => ?_
  exact steady_bind hset fun _ => steady_bind (hsettle temporary) fun _ => steady_pure _

/-! ## What is reported -/

/-- The extractions on behalf of a source file: its own, and those of classes. -/
inductive Extraction (config : Config) (p : Program) (id : FileId) : Extract Unit → Prop
  | file : Extraction config p id (p.walk.extractFile id)
  | classTrap {other : DeclId} {t : ClassTrap}
    (ofClass : ClassTrap.ofClass config.destination p other = .ok t) :
    Extraction config p id (t.extraction p)

/-- Problems are reported in extractions of some kind, and nothing else is counted. -/
def reporting (p : Program) (kind : Extract Unit → Prop) : Conduct where
  leads g g' := ∃ problems, Extract.Reports p kind g.counter problems g'.counter
  mayStop := True
  same _ hcounter := ⟨[], hcounter ▸ .none⟩
  trans := fun ⟨_, h⟩ ⟨_, h'⟩ => ⟨_, h.trans h'⟩

theorem reporting_ofCounts (p : Program) (kind : Extract Unit → Prop) :
    (reporting p kind).OfCounts where
  leads hcounter := ⟨[], hcounter ▸ .none⟩
  mayStop := trivial

theorem reporting_extracts {kind : Extract Unit → Prop} {extraction : Extract Unit}
    (hkind : kind extraction) (h : Extract.Oblivious p extraction) :
    (reporting p kind).Extracts p extraction := by
  intro g s s' hcounter hends
  obtain ⟨es, rfl⟩ := h.runs hends
  have hreports : Extract.Reports p kind s.counter (Event.problems es ++ [])
      (Event.run es s).counter := .more hkind hends .none
  rw [hcounter] at hreports
  exact ⟨_, hreports⟩

/-- What is counted while a file is made was reported in its extraction, or in those of classes. -/
theorem make_reports {g g' : Progress} {k k' : Disk}
    {outcome : Except ExtractError (TrapOutcome × DrainSummary)}
    (h : (make config p id entry : Task OnDisk _).run.run g k = ((outcome, g'), k')) :
    ∃ problems, Extract.Reports p (Extraction config p id) g.counter problems g'.counter := by
  have hmake : Obeys (reporting p (Extraction config p id)) k.here
      (config.Reached k.here entry.path) (make config p id entry : Task OnDisk _) :=
    obeys_make (reporting_ofCounts ..)
      (fun other t ht => reporting_extracts (.classTrap ht) (ClassTrap.oblivious_extraction t p))
      (reporting_extracts .file oblivious_file)
  have hreports := (hmake g k rfl).1
  rwa [h] at hreports

end SourceTrap

/-- What a file comes to, by what became of the work on it and the problems that were met. -/
def FileResult.of {α : Type} (outcome : Except ExtractError α) (problems : List Problem) :
    FileResult :=
  match outcome with
  | .error _ => .failed
  | .ok _ => if problems.any (·.severity.isError) then .recoverableErrors else .ok

namespace Run

variable {config : Config} {p : Program} {r r' : Run} {k k' : Disk}

/-- Files are made one after the other, each from where the one before has left the counts and the
disk, and reported on. -/
inductive Makes (config : Config) (p : Program) :
    List (FileId × FileEntry) → Counter → Disk → List FileReport → Prop
  | done {c : Counter} {k : Disk} : Makes config p [] c k []
  | file {id : FileId} {entry : FileEntry} {more : List (FileId × FileEntry)} {c : Counter}
      {k k₁ : Disk} {outcome : Except ExtractError (TrapOutcome × DrainSummary)} {g : Progress}
      {problems : List Problem} {report : FileReport} {reports : List FileReport}
      (made : (SourceTrap.make config p id entry : Task OnDisk _).run.run { counter := c } k =
        ((outcome, g), k₁))
      (reported : Extract.Reports p (SourceTrap.Extraction config p id) c problems g.counter)
      (path : report.path = entry.path) (result : report.result = .of outcome problems)
      (rest : Makes config p more g.counter k₁ reports) :
      Makes config p ((id, entry) :: more) c k (report :: reports)

theorem result_report {c d : Counter} {kind : Extract Unit → Prop} {problems : List Problem}
    (h : Extract.Reports p kind c problems d) (path : String)
    (outcome : Except ExtractError (TrapOutcome × DrainSummary)) :
    (report path c.errors d.errors outcome).result = .of outcome problems := by
  rcases outcome with e | ⟨outcome, external⟩
  · rfl
  · have hgrows : c.errors < d.errors ↔ problems.any (·.severity.isError) = true := by
      rw [h.errors, Problem.errorsAmong, Nat.lt_add_right_iff_pos, List.countP_pos_iff,
        List.any_eq_true]
    simp only [report, FileResult.of, hgrows]

theorem Passes.makes {todo : List (FileId × FileEntry)} (h : Passes config p todo r k r' k') :
    ∃ reports, r'.reports.reverse = r.reports.reverse ++ reports ∧
      Makes config p todo r.counter k reports := by
  induction h with
  | done => exact ⟨[], (List.append_nil _).symm, .done⟩
  | @file id entry more r r₁ r₂ k k₁ k₂ outcome g made counter reports _ ih =>
    obtain ⟨rest, hrest, hmakes⟩ := ih
    obtain ⟨problems, hproblems⟩ := SourceTrap.make_reports made
    rw [counter] at hmakes
    refine ⟨report entry.path r.counter.errors g.counter.errors outcome :: rest, ?_,
      .file made hproblems (path_report ..) (result_report hproblems ..) hmakes⟩
    rw [hrest, reports, List.reverse_cons, List.append_assoc]
    rfl

/-! ## The run goes on -/

theorem file_goesOn {id : FileId} {entry : FileEntry}
    (hfile : SourceTrap.FileEnds config p id entry) (hclasses : config.destination.Terminates p)
    (index : Nat) (r : Run) (k : Disk) :
    ∃ r' k', (file config p index id entry r : OnDisk _) k = ((none, r'), k') := by
  have hmake := (SourceTrap.steady_make hfile hclasses
    { counter := (r.beginFile index entry.path).counter } k ⟨.nil, .slnil⟩).2
  unfold file
  rw [OnDisk.bind_apply]
  rcases hrun : (SourceTrap.make config p id entry : Task OnDisk _).run.run
    { counter := (r.beginFile index entry.path).counter } k with ⟨⟨outcome, g⟩, l⟩
  rw [hrun] at hmake
  dsimp only
  split
  · next stop => exact absurd rfl (hmake stop)
  · exact ⟨_, _, rfl⟩

theorem files_goOn {todo : List (Nat × FileId)} (hfiles : ∀ id ∈ todo.map Prod.snd, ∀ entry,
      p.file? id = some entry → SourceTrap.FileEnds config p id entry)
    (hclasses : config.destination.Terminates p) (r : Run) (k : Disk) :
    ∃ r' k', (files config p todo r : OnDisk _) k = ((none, r'), k') := by
  induction todo generalizing r k with
  | nil => exact ⟨r, k, rfl⟩
  | cons first rest ih =>
    obtain ⟨index, id⟩ := first
    have hrest := ih fun other hother => hfiles other (List.mem_cons_of_mem _ hother)
    unfold files
    cases hentry : p.file? id with
    | none => exact hrest r k
    | some entry =>
      have hends := hfiles id List.mem_cons_self entry hentry
      obtain ⟨r₁, k₁, hfile⟩ := file_goesOn hends hclasses index r k
      dsimp only
      rw [OnDisk.bind_apply, hfile]
      exact hrest r₁ k₁

end Run

namespace Config

variable {config : Config} {p : Program} {now : OnDisk Nat} {k : Disk}

def FilesEnd (config : Config) (p : Program) : Prop :=
  ∀ file ∈ p.entries, SourceTrap.FileEnds config p file.1 file.2

/-- The invocation trap can be opened, and added to when the files are done, and nothing else is
put in its place. -/
structure InvocationSpared (config : Config) (p : Program) (k : Disk) : Prop where
  apart : config.SparesInvocation p k.here
  opens : ∃ handle, (Files.openAppend (m := OnDisk) config.invocationTrap k).1 = .ok handle
  adds :
    let opened := (Files.openAppend (m := OnDisk) config.invocationTrap k).2
    let done := ((Run.files config p ((List.range p.fileIds.length).zip p.fileIds)
      (Run.start config) : OnDisk _) opened).2
    done.refuses done.calls = none

/-- What is added to a file is added, unless the disk refuses. -/
theorem append_of_not_refused (h : k.refuses k.calls = none) (handle : Nat) (bytes : ByteArray) :
    ∃ l, Files.append (m := OnDisk) handle bytes k = (.ok (), l) := by
  simp only [Files.append, OnDisk.attempt, h]
  exact ⟨_, rfl⟩

theorem run_ends (hnow : ∀ k, (now k).2 = k) (hfiles : config.FilesEnd p)
    (hclasses : config.destination.Terminates p) (hspared : config.InvocationSpared p k) :
    ∃ summary k', config.run p now k = (.ok summary, k') := by
  obtain ⟨handle, hopens⟩ := hspared.opens
  have hadds := hspared.adds
  rcases hopen : Files.openAppend (m := OnDisk) config.invocationTrap k with ⟨opened, k₁⟩
  rw [hopen] at hopens hadds
  obtain rfl : opened = .ok handle := hopens
  have hall : ∀ id ∈ ((List.range p.fileIds.length).zip p.fileIds).map Prod.snd, ∀ entry,
      p.file? id = some entry → SourceTrap.FileEnds config p id entry := by
    intro id hid entry hentry
    rw [List.map_snd_zip (by simp)] at hid
    exact hfiles (id, entry) (List.mem_filterMap.mpr ⟨id, hid, by rw [hentry]; rfl⟩)
  obtain ⟨r, k₂, hrun⟩ := Run.files_goOn hall hclasses (Run.start config) k₁
  dsimp only at hadds
  rw [hrun] at hadds
  unfold run
  rw [OnDisk.bind_apply, hnow, OnDisk.bind_apply, hopen]
  dsimp only
  rw [OnDisk.bind_apply, hrun]
  dsimp only
  rw [OnDisk.bind_apply, hnow, OnDisk.bind_apply]
  generalize (r.finish _).text.toUTF8 = bytes
  obtain ⟨k₃, happend⟩ := append_of_not_refused hadds handle bytes
  rw [happend]
  exact ⟨_, _, rfl⟩

/-- **What becomes of one file is no matter of another one.** As long as the extractions end and
the invocation trap is spared, a run gives one report for each source file, in their order,
whatever fails in the files. A file has failed if the work on it has, and has met errors if an
error was reported in its extraction or in those of the classes that were drained for it. The
invocation trap tells of every file that it was begun with, by the label of its path, and how it
went, and of nothing else in between. -/
theorem run_tells (hnow : ∀ k, (now k).2 = k) (hissued : k.Issued)
    (hsize : p.files.size ≤ UInt32.size) (hfiles : config.FilesEnd p)
    (hclasses : config.destination.Terminates p) (hspared : config.InvocationSpared p k) :
    let keys := Run.keys (Run.pathsOf p.entries)
    let invocation := config.invocationTrap.locationFrom k.here
    ∃ summary k', config.run p now k = (.ok summary, k') ∧
      p.entries.map Prod.snd = p.files.toList ∧
      summary.files.map (·.path) = p.files.toList.map (·.path) ∧
      Run.Makes config p p.entries { limit := config.diagnosticLimit }
        (Files.openAppend (m := OnDisk) config.invocationTrap k).2 summary.files ∧
      ∃ lines : List Trap.Line,
        k'.bytesAt invocation = k.bytesAt invocation ++ (Trap.textOf lines).toUTF8 ∧
        Trap.factsOfFiles lines = summary.files.zipIdx.flatMap (Run.tale keys) ∧
        lines.filter Trap.Line.introduces = Run.definitions keys ∧
        ∀ entry ∈ p.files, .define (Run.labelIn keys (Run.fileKey entry.path))
          (Run.fileKey entry.path) ∈ lines := by
  intro keys invocation
  obtain ⟨summary, k', hrun⟩ := run_ends hnow hfiles hclasses hspared
  obtain ⟨-, -, lines, hbytes, hdefined, htold⟩ := run_adds hnow hissued hspared.apart hrun
  obtain ⟨handle, k₁, r, k₂, bytes, hopen, hpasses, -, hsummary, -⟩ := run_passes hnow hrun
  obtain ⟨reports, hreports, hmakes⟩ := hpasses.makes
  have hentries := Program.entries_files hsize
  have hpaths : Run.pathsOf p.entries = p.files.toList.map (·.path) := by
    rw [← hentries, List.map_map]
    rfl
  refine ⟨summary, k', hrun, hentries, ?_, ?_, lines, hbytes, htold, hdefined,
    fun entry hentry => ?_⟩
  · rw [hsummary, hpasses.reports, ← hpaths]
    rfl
  · rw [hopen, hsummary, hreports]
    exact hmakes
  · have hkey : Run.fileKey entry.path ∈ keys := Run.fileKey_mem_keys (by
      rw [hpaths]
      exact List.mem_map_of_mem (Array.mem_toList_iff.mpr hentry))
    exact List.mem_of_mem_filter (hdefined ▸ Run.define_mem_definitions hkey)

/-- Two files, of which the second one lists a declaration that the program does not have. -/
def missingOne : Program :=
  { files := #[{ path := "a.kt" }, { path := "b.kt", declarations := [⟨0⟩] }]
    declarations := #[], classIndex := [] }

/-- A disk that refuses to make the temporary file for the first trap. -/
def refusesTrap : Disk :=
  { Disk.ofFolder ["home"] with refuses := fun calls => if calls = 3 then some .notText else none }

def reportsOnMissingOne : RunSummary :=
  ⟨[{ path := "a.kt", result := .failed, outcome := none, external := {} },
    { path := "b.kt", result := .recoverableErrors, outcome := some .written, external := {} }]⟩

/-- The first file fails and the second one does not: the one error in it is told of. -/
theorem run_tells_refusesTrap :
    let now : OnDisk Nat := pure 0
    let config := limitOfThree
    let p := missingOne
    let k := refusesTrap
    (∀ k, (now k).2 = k) ∧ k.Issued ∧ p.files.size ≤ UInt32.size ∧ config.FilesEnd p ∧
      config.destination.Terminates p ∧ config.InvocationSpared p k ∧
      ∃ k', config.run p now k = (.ok reportsOnMissingOne, k') ∧
        ∃ lines : List Trap.Line,
          k'.bytesAt ["home", "inv"] = (Trap.textOf lines).toUTF8 ∧
          Trap.factsOfFiles lines =
            [.compilationCompilingFiles Run.compilation 0 (.number 100),
              .compilationCompilingFilesCompleted Run.compilation 0 2,
              .compilationCompilingFiles Run.compilation 1 (.number 101),
              .compilationCompilingFilesCompleted Run.compilation 1 1] := by
  intro now config p k
  have hnow : ∀ k, (now k).2 = k := fun _ => rfl
  have hissued : k.Issued := fun location id hentry =>
    absurd hentry (Disk.entry?_ofFolder ["home"] location id)
  have hsize : p.files.size ≤ UInt32.size := by decide
  have hentries : p.entries =
      [(⟨0⟩, { path := "a.kt" }), (⟨1⟩, { path := "b.kt", declarations := [⟨0⟩] })] :=
    rfl
  have hfiles : config.FilesEnd p := by
    have hends {id : FileId} {entry : FileEntry} (h : (p.walk.extractFile id p
        (SourceTrap.session config entry {} .empty)).isOk = true) :
        SourceTrap.FileEnds config p id entry := by
      obtain ⟨_, s, hs⟩ := Extract.ends_of_isOk h
      exact ⟨s, hs⟩
    intro file hfile
    simp only [hentries, List.mem_cons, List.not_mem_nil, or_false] at hfile
    rcases hfile with rfl | rfl
    · exact hends (by decide +kernel)
    · exact hends (by decide +kernel)
  have hclasses : config.destination.Terminates p := fun id t ht => by
    obtain ⟨name, -, hname, -⟩ := ClassTrap.ofClass_ok ht
    rw [binaryName?_of_undeclared rfl] at hname
    cases hname
  have hinvocation : config.invocationTrap.locationFrom ["home"] = ["home", "inv"] := by
    decide +kernel
  have hspared : config.InvocationSpared p k := by
    refine ⟨?_, ?_, by decide +kernel⟩
    · refine sparesInvocation_of_outside (leadsDown_of_undeclared rfl (by decide +kernel)) ?_
      exact hinvocation ▸ limitOfThree_outside
    · exact ⟨0, by decide +kernel⟩
  have hvalue : (config.run p now k).1 = .ok reportsOnMissingOne := by decide +kernel
  have hkeys : Run.keys (Run.pathsOf p.entries) = ["a.kt;sourcefile", "b.kt;sourcefile"] := by
    decide +kernel
  obtain ⟨summary, k', hrun, -, -, -, lines, hbytes, htold, -, -⟩ :=
    run_tells hnow hissued hsize hfiles hclasses hspared
  rw [hrun] at hvalue
  obtain rfl : summary = reportsOnMissingOne := Except.ok.inj hvalue
  have hempty : k.bytesAt ["home", "inv"] = .empty := by decide +kernel
  rw [show config.invocationTrap.locationFrom k.here = ["home", "inv"] from hinvocation, hempty,
    ByteArray.empty_append] at hbytes
  refine ⟨hnow, hissued, hsize, hfiles, hclasses, hspared, k', hrun, lines, hbytes, ?_⟩
  rw [htold, hkeys]
  rfl

end Config

end IrFacts
