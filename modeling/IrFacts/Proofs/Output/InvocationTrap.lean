import IrFacts.Proofs.Output.Containment
import IrFacts.Proofs.Output.Rerun
import IrFacts.Proofs.Run.Invocation

/-!
# The invocation trap

Every run adds its own lines at the end of the invocation trap, and leaves what
was there before. It numbers its labels from the first number on, like any
writer does. So after several runs a label stands for one key as long as the
runs met the same keys in the same order, as far as the shorter of them goes.
-/

set_option autoImplicit false

namespace IrFacts

namespace Disk

variable {k l : Disk} {location : Location} {id : Nat}

def bytesAt (k : Disk) (location : Location) : ByteArray :=
  match k.entry? location with
  | some (.file id) => k.contentsOf id
  | _ => .empty

theorem bytesAt_of_file (h : k.entry? location = some (.file id)) :
    k.bytesAt location = k.contentsOf id := by
  rw [bytesAt, h]

theorem bytesAt_of_openAppend {path : Path}
    (h : Files.openAppend (m := OnDisk) path k = (.ok id, l)) :
    l.entry? (path.locationFrom k.here) = some (.file id) ∧
      l.contentsOf id = k.bytesAt (path.locationFrom k.here) := by
  rcases openAppend_ok (OnDisk.attempt_ok h) with ⟨hentry, rfl⟩ | ⟨hnone, hadd⟩
  · exact ⟨hentry, (bytesAt_of_file hentry).symm⟩
  · have hnew : k.bytesAt (path.locationFrom k.here) = .empty := by
      rw [bytesAt, show k.entry? (path.locationFrom k.here) = none from hnone]
    cases hadd
    refine ⟨entry?_setEntry_self (fun hroot => ?_) _, ?_⟩
    · have hroot : path.locationFrom k.counted.here = [] := hroot
      rw [hroot] at hnone
      cases hnone
    · rw [hnew]
      exact contentsOf_setContents_self _ _

theorem bytesAt_of_append {bytes : ByteArray} (h : k.entry? location = some (.file id))
    (happend : Files.append (m := OnDisk) id bytes k = (.ok (), l)) :
    l.bytesAt location = k.contentsOf id ++ bytes := by
  obtain rfl := append_ok (OnDisk.attempt_ok happend)
  let added := k.counted.setContents id (k.counted.contentsOf id ++ bytes)
  have hentry : added.entry? location = some (.file id) := h
  rw [bytesAt_of_file hentry]
  exact contentsOf_setContents_self _ _

end Disk

/-! ## What a run adds -/

namespace Run

variable {config : Config} {p : Program} {r r' : Run} {k k' : Disk}

theorem file_tells {index : Nat} {id : FileId} {entry : FileEntry}
    (h : (file config p index id entry r : OnDisk _) k = ((none, r'), k')) : ∃ report,
      r'.writer = tell r.writer (report, index) ∧ r'.reports = report :: r.reports := by
  unfold file at h
  rw [OnDisk.bind_apply] at h
  rcases hmake : (SourceTrap.make config p id entry : Task OnDisk _).run.run
    { counter := (r.beginFile index entry.path).counter } k with ⟨⟨outcome, g⟩, l⟩
  rw [hmake] at h
  dsimp only at h
  split at h
  · cases h
  · cases h
    refine ⟨_, ?_, rfl⟩
    rw [tell, path_report]
    rfl

theorem files_tell {ids : List FileId} {first : Nat}
    (hfound : ∀ id ∈ ids, ∃ entry, p.file? id = some entry)
    (h : (files config p ((List.range' first ids.length).zip ids) r : OnDisk _) k =
      ((none, r'), k')) : ∃ reports : List FileReport,
      r'.writer = (reports.zipIdx first).foldl tell r.writer ∧
        r'.reports = reports.reverse ++ r.reports := by
  induction ids generalizing first r k with
  | nil =>
    cases h
    exact ⟨[], rfl, rfl⟩
  | cons id rest ih =>
    obtain ⟨entry, hentry⟩ := hfound id List.mem_cons_self
    rw [List.length_cons, List.range'_succ, List.zip_cons_cons] at h
    unfold files at h
    rw [hentry] at h
    dsimp only at h
    rw [OnDisk.bind_apply] at h
    rcases hfile : (file config p first id entry r : OnDisk _) k with ⟨⟨_ | stop, r₁⟩, k₁⟩ <;>
      rw [hfile] at h
    · obtain ⟨report, hwriter, hreports⟩ := file_tells hfile
      obtain ⟨reports, hrest, hmore⟩ := ih (fun id hid => hfound id (List.mem_cons_of_mem _ hid)) h
      refine ⟨report :: reports, ?_, ?_⟩
      · rw [hrest, hwriter]
        rfl
      · rw [hmore, hreports, List.reverse_cons, List.append_assoc]
        rfl
    · cases h

end Run

theorem Program.file?_of_mem_fileIds {p : Program} {id : FileId} (h : id ∈ p.fileIds) :
    ∃ entry, p.file? id = some entry := by
  obtain ⟨i, hi, rfl⟩ := List.mem_map.mp h
  have hsmall : (UInt32.ofNat i).toNat < p.files.size := by
    rw [UInt32.toNat_ofNat']
    exact Nat.lt_of_le_of_lt (Nat.mod_le _ _) (List.mem_range.mp hi)
  exact ⟨_, Array.getElem?_eq_getElem hsmall⟩

namespace Config

variable {config : Config} {p : Program} {k k' : Disk} {summary : RunSummary}

/-- Nothing that a run makes is put where the invocation trap is. -/
def SparesInvocation (config : Config) (p : Program) (here : Location) : Prop :=
  ∀ location, config.Target here p location → location ≠ config.invocationTrap.locationFrom here

theorem sparesInvocation_of_outside {here : Location} (hp : p.LeadsDown)
    (h : ¬config.Inside here (config.invocationTrap.locationFrom here)) :
    config.SparesInvocation p here := fun _ ht hsame => h (hsame ▸ ht.inside hp)

/-- The invocation trap is where it was, and what is in it, however the files of a run went. -/
theorem SparesInvocation.files {handle : Nat} (h : config.SparesInvocation p k.here)
    (hissued : k.Issued)
    (hhandle : k.entry? (config.invocationTrap.locationFrom k.here) = some (.file handle))
    (todo : List (Nat × FileId)) (r : Run) :
    Disk.Spares (· = handle) (· ≠ config.invocationTrap.locationFrom k.here) (fun _ => True) k
      ((Run.files config p todo r : OnDisk _) k).2 := by
  have hrooms (location : Location) (ht : config.Target k.here p location) :
      Disk.Room (· ≠ config.invocationTrap.locationFrom k.here) (fun _ => True) location :=
    ⟨h location ht, trivial, fun _ => trivial⟩
  refine Run.spares_files ⟨rfl, fun id hid => hid ▸ hissued _ _ hhandle⟩
    (fun entry hentry => fullRoomFor_of_targets hrooms (fun _ _ _ => trivial) hentry)
    (roomIn_of_targets hrooms) (fun entry hentry => .inl ⟨?_, trivial⟩) todo r
  exact h _ (.trap hentry)

/-- **What a run adds to the invocation trap.** It defines the labels of its keys in their order,
no other one, and tells of its files in theirs. -/
theorem run_adds {now : OnDisk Nat} (hnow : ∀ k, (now k).2 = k) (hissued : k.Issued)
    (hspares : config.SparesInvocation p k.here)
    (h : config.run p now k = (.ok summary, k')) :
    let keys := Run.keys (Run.pathsOf p.entries)
    k'.here = k.here ∧ k'.Issued ∧ ∃ lines : List Trap.Line,
      k'.bytesAt (config.invocationTrap.locationFrom k.here) =
        k.bytesAt (config.invocationTrap.locationFrom k.here) ++ (Trap.textOf lines).toUTF8 ∧
      lines.filter Trap.Line.introduces = Run.definitions keys ∧
      Trap.factsOfFiles lines = summary.files.zipIdx.flatMap (Run.tale keys) := by
  intro keys
  obtain ⟨handle, k₁, r, k₂, elapsed, hopen, hfiles, happend, hsummary⟩ := run_files hnow h
  have hopened := frame_openAppend hopen
  obtain ⟨hentry, hcontents⟩ := Disk.bytesAt_of_openAppend hopen
  have hspared := SparesInvocation.files (hopened.here.symm ▸ hspares) (hopened.issued hissued)
    (hopened.here.symm ▸ hentry) ((List.range p.fileIds.length).zip p.fileIds) (Run.start config)
  rw [hfiles, hopened.here] at hspared
  have hadded : Disk.Spares (fun _ => False) (fun _ => False) (fun _ => False) k₂ k' := by
    have hspares : Disk.Spares (fun _ => False) (fun _ => False) (fun _ => False) k₂
        (Files.append (m := OnDisk) handle (r.finish elapsed).text.toUTF8 k₂).2 :=
      OnDisk.spares_append (fun h => h) _
    rwa [happend] at hspares
  have hpaths := (Run.files_pass hfiles).reports
  rw [List.map_snd_zip (by simp)] at hpaths
  rw [List.range_eq_range'] at hfiles
  obtain ⟨reports, hwriter, hreports⟩ :=
    Run.files_tell (fun _ => Program.file?_of_mem_fileIds) hfiles
  have hall : r.reports.reverse = reports := by simp [hreports, Run.start]
  rw [hall] at hpaths hsummary
  have hrecords := Run.records_finish (r := r)
    (hwriter ▸ Run.records_tells (Run.records_start config) reports.zipIdx) elapsed
  have htold : reports.zipIdx.map (·.1.path) = Run.pathsOf p.entries := by
    have hfirst := List.zipIdx_map_fst 0 reports
    rw [← show reports.map (·.path) = Run.pathsOf p.entries from hpaths]
    nth_rewrite 2 [← hfirst]
    rw [List.map_map]
    rfl
  rw [htold] at hrecords
  refine ⟨hadded.here.trans (hspared.here.trans hopened.here),
    hadded.issued (hspared.issued (hopened.issued hissued)), (r.finish elapsed).sink.lines, ?_,
    hrecords.defined, hsummary ▸ hrecords.told⟩
  have hstill : k₂.entry? (config.invocationTrap.locationFrom k.here) = some (.file handle) :=
    hspared.file _ handle (fun h => h rfl) hentry
  rw [Disk.bytesAt_of_append hstill happend, hspared.contents handle rfl, hcontents,
    Trap.Writer.text, hrecords.whole.text]
  rfl

end Config

/-! ## Labels of several runs -/

namespace Trap

def OneKey (lines : List Line) : Prop :=
  ∀ label key key', .define label key ∈ lines → .define label key' ∈ lines → key = key'

end Trap

namespace Run

/-- One of two lists of keys goes on where the other ends. -/
def Agree (keys keys' : List String) : Prop := keys <+: keys' ∨ keys' <+: keys

theorem agree_iff {keys keys' : List String} : Agree keys keys' ↔
    ∀ (i : Nat) (key key' : String), keys[i]? = some key → keys'[i]? = some key' → key = key' := by
  have hsame {short long : List String} (h : short <+: long) {i : Nat} {key key' : String}
      (hkey : short[i]? = some key) (hkey' : long[i]? = some key') : key = key' := by
    obtain ⟨hi, rfl⟩ := List.getElem?_eq_some_iff.mp hkey
    exact Option.some.inj ((List.prefix_iff_getElem?.mp h i hi).symm.trans hkey')
  have hfront {short long : List String} (hlength : short.length ≤ long.length)
      (h : ∀ (i : Nat) (key key' : String), short[i]? = some key → long[i]? = some key' →
        key = key') :
      short <+: long := by
    refine List.prefix_iff_getElem?.mpr fun i hi => ?_
    have hlong := List.getElem?_eq_getElem (Nat.lt_of_lt_of_le hi hlength)
    rw [hlong, h i _ _ (List.getElem?_eq_getElem hi) hlong]
  constructor
  · rintro (h | h) i key key' hkey hkey'
    · exact hsame h hkey hkey'
    · exact (hsame h hkey' hkey).symm
  · intro h
    rcases Nat.le_total keys.length keys'.length with hlength | hlength
    · exact .inl (hfront hlength h)
    · exact .inr (hfront hlength fun i key key' hkey hkey' => (h i key' key hkey' hkey).symm)

theorem define_mem_iff {lines : List Trap.Line} {keys : List String} {label : Label}
    {key : String} (h : lines.filter Trap.Line.introduces = definitions keys) :
    .define label key ∈ lines ↔
      ∃ i, keys[i]? = some key ∧ label = .number (LabelTable.first + i) := by
  have hmem : .define label key ∈ lines ↔ .define label key ∈ definitions keys := by
    rw [← h, List.mem_filter]
    exact (and_iff_left rfl).symm
  rw [hmem, definitions, List.mem_mapIdx]
  constructor
  · rintro ⟨i, hi, hdefine⟩
    cases hdefine
    exact ⟨i, List.getElem?_eq_getElem hi, rfl⟩
  · rintro ⟨i, hkey, rfl⟩
    obtain ⟨hi, rfl⟩ := List.getElem?_eq_some_iff.mp hkey
    exact ⟨i, hi, rfl⟩

theorem define_mem_flatten_iff {all : List (List String)} {parts : List (List Trap.Line)}
    (h : List.Forall₂ (fun paths part => part.filter Trap.Line.introduces =
      definitions (keys paths)) all parts) {label : Label} {key : String} :
    .define label key ∈ parts.flatten ↔ ∃ paths ∈ all, ∃ i, (keys paths)[i]? = some key ∧
      label = .number (LabelTable.first + i) := by
  induction h with
  | nil => simp
  | cons hpart _ ih =>
    simp only [List.flatten_cons, List.mem_append, List.exists_mem_cons_iff,
      define_mem_iff hpart, ih]

/-- Each label has one key in the lines of several runs just if the keys of any two of them
agree. -/
theorem oneKey_iff {all : List (List String)} {parts : List (List Trap.Line)}
    (h : List.Forall₂ (fun paths part => part.filter Trap.Line.introduces =
      definitions (keys paths)) all parts) :
    Trap.OneKey parts.flatten ↔
      ∀ paths ∈ all, ∀ others ∈ all, Agree (keys paths) (keys others) := by
  constructor
  · intro hone paths hpaths others hothers
    refine agree_iff.mpr fun i key key' hkey hkey' => ?_
    exact hone (.number (LabelTable.first + i)) key key'
      ((define_mem_flatten_iff h).mpr ⟨paths, hpaths, i, hkey, rfl⟩)
      ((define_mem_flatten_iff h).mpr ⟨others, hothers, i, hkey', rfl⟩)
  · intro hagree label key key' hkey hkey'
    obtain ⟨paths, hpaths, i, hi, rfl⟩ := (define_mem_flatten_iff h).mp hkey
    obtain ⟨others, hothers, j, hj, hnumber⟩ := (define_mem_flatten_iff h).mp hkey'
    have hsame : i = j := Nat.add_left_cancel (Label.number.inj hnumber)
    exact agree_iff.mp (hagree paths hpaths others hothers) i key key' hi (hsame ▸ hj)

end Run

namespace Config

/-- Runs that add to the same invocation trap, each over the files at these paths. In between,
other things may happen to the disk. -/
inductive Runs (invocation : Path) : Disk → List (List String) → Disk → Prop
  | done {k : Disk} : Runs invocation k [] k
  | run {config : Config} {p : Program} {now : OnDisk Nat} {summary : RunSummary} {k k₁ k₂ : Disk}
      {more : List (List String)} (adds : config.invocationTrap = invocation)
      (clock : ∀ k, (now k).2 = k) (spares : config.SparesInvocation p k.here)
      (ends : config.run p now k = (.ok summary, k₁)) (rest : Runs invocation k₁ more k₂) :
      Runs invocation k (Run.pathsOf p.entries :: more) k₂
  | between {k k₁ k₂ : Disk} {all : List (List String)} (here : k₁.here = k.here)
      (issued : k₁.Issued) (keeps : k₁.bytesAt (invocation.locationFrom k.here) =
        k.bytesAt (invocation.locationFrom k.here)) (rest : Runs invocation k₁ all k₂) :
      Runs invocation k all k₂

/-- **The labels of an invocation trap to which several runs have added.** Each run defines the
labels of its own keys, from the first number on. So each label has one key in all that the runs
have added just if the keys of any two runs agree, as far as the shorter list of them goes. -/
theorem runs_label {invocation : Path} {all : List (List String)} {k k' : Disk}
    (hissued : k.Issued) (h : Runs invocation k all k') : ∃ parts : List (List Trap.Line),
      k'.bytesAt (invocation.locationFrom k.here) =
        k.bytesAt (invocation.locationFrom k.here) ++ (Trap.textOf parts.flatten).toUTF8 ∧
      List.Forall₂ (fun paths part => part.filter Trap.Line.introduces =
        Run.definitions (Run.keys paths)) all parts ∧
      (Trap.OneKey parts.flatten ↔
        ∀ paths ∈ all, ∀ others ∈ all, Run.Agree (Run.keys paths) (Run.keys others)) := by
  suffices hparts : ∃ parts : List (List Trap.Line),
      k'.bytesAt (invocation.locationFrom k.here) =
        k.bytesAt (invocation.locationFrom k.here) ++ (Trap.textOf parts.flatten).toUTF8 ∧
      List.Forall₂ (fun paths part => part.filter Trap.Line.introduces =
        Run.definitions (Run.keys paths)) all parts by
    obtain ⟨parts, hbytes, hdefined⟩ := hparts
    exact ⟨parts, hbytes, hdefined, Run.oneKey_iff hdefined⟩
  induction h with
  | done => exact ⟨[], ByteArray.append_empty.symm, .nil⟩
  | @run config p now summary k k₁ k₂ more adds clock spares ends _ ih =>
    obtain ⟨hhere, hissued₁, lines, hbytes, hdefined, -⟩ := run_adds clock hissued spares ends
    obtain ⟨parts, hmore, hparts⟩ := ih hissued₁
    rw [adds] at hbytes
    refine ⟨lines :: parts, ?_, .cons hdefined hparts⟩
    rw [hhere] at hmore
    rw [hmore, hbytes, List.flatten_cons, Trap.textOf_append, ByteArray.append_assoc]
    exact congrArg _ String.toByteArray_append.symm
  | between here issued keeps _ ih =>
    obtain ⟨parts, hmore, hparts⟩ := ih issued
    rw [here, keeps] at hmore
    exact ⟨parts, hmore, hparts⟩

theorem binaryName?_of_undeclared {p : Program} (h : p.declarations = #[]) (id : DeclId) :
    p.binaryName? id = none := by
  simp [Program.binaryName?, Program.classChain?, Program.walkLimit, Program.chainWithin,
    Program.decl?, h]

theorem leadsDown_of_undeclared {p : Program} (h : p.declarations = #[])
    (hnamed : ∀ entry ∈ p.files, (Path.mk entry.path).names ≠ []) : p.LeadsDown where
  files := hnamed
  classes id name hname := by
    rw [binaryName?_of_undeclared h] at hname
    cases hname

theorem limitOfThree_outside : ¬limitOfThree.Inside ["home"] ["home", "inv"] := by
  have htraps : limitOfThree.trapDir.locationFrom ["home"] = ["home", "trap"] := by
    decide +kernel
  have harchive : limitOfThree.sourceArchiveDir.locationFrom ["home"] = ["home", "src"] := by
    decide +kernel
  rw [Inside, htraps, harchive]
  rintro (⟨more, -, h⟩ | ⟨more, -, h⟩) <;> simp at h

/-- A program with one file, in which nothing is declared. -/
def blankFile (path : String) : Program :=
  { files := #[{ path }], declarations := #[], classIndex := [] }

def reportOnBlank (path : String) : RunSummary :=
  ⟨[{ path, result := .ok, outcome := some .written, external := {} }]⟩

/-- After a run over one file and a run over another one the first label stands for both. -/
theorem runs_label_twoFiles :
    let now : OnDisk Nat := pure 0
    let config := limitOfThree
    let k : Disk := .ofFolder ["home"]
    let k₁ := (config.run (blankFile "a.kt") now k).2
    let k₂ := (config.run (blankFile "b.kt") now k₁).2
    k.Issued ∧ Runs ⟨"inv"⟩ k [["a.kt"], ["b.kt"]] k₂ ∧ ∃ parts : List (List Trap.Line),
      k₂.bytesAt ["home", "inv"] = (Trap.textOf parts.flatten).toUTF8 ∧
      .define (.number 100) "a.kt;sourcefile" ∈ parts.flatten ∧
      .define (.number 100) "b.kt;sourcefile" ∈ parts.flatten ∧ ¬Trap.OneKey parts.flatten := by
  intro now config k k₁ k₂
  have hissued : k.Issued := fun location id hentry =>
    absurd hentry (Disk.entry?_ofFolder _ location id)
  have hinvocation : config.invocationTrap.locationFrom ["home"] = ["home", "inv"] := by
    decide +kernel
  have hspares (path : String) (hnamed : (Path.mk path).names ≠ []) :
      config.SparesInvocation (blankFile path) ["home"] := by
    refine sparesInvocation_of_outside (leadsDown_of_undeclared rfl ?_) ?_
    · simpa [blankFile] using hnamed
    · rw [hinvocation]
      exact limitOfThree_outside
  have hfirst : (config.run (blankFile "a.kt") now k).1 = .ok (reportOnBlank "a.kt") := by
    decide +kernel
  have hsecond : (config.run (blankFile "b.kt") now k₁).1 = .ok (reportOnBlank "b.kt") := by
    decide +kernel
  have hnow : ∀ k, (now k).2 = k := fun _ => rfl
  have hhere : k₁.here = ["home"] :=
    (run_adds hnow hissued (hspares "a.kt" (by decide +kernel)) (Prod.ext hfirst rfl)).1
  have hrun₁ : config.run (blankFile "a.kt") now k = (.ok (reportOnBlank "a.kt"), k₁) :=
    Prod.ext hfirst rfl
  have hrun₂ : config.run (blankFile "b.kt") now k₁ = (.ok (reportOnBlank "b.kt"), k₂) :=
    Prod.ext hsecond rfl
  have hruns : Runs ⟨"inv"⟩ k [["a.kt"], ["b.kt"]] k₂ := by
    refine .run rfl hnow (hspares "a.kt" (by decide +kernel)) hrun₁ (.run rfl hnow ?_ hrun₂ .done)
    exact hhere ▸ hspares "b.kt" (by decide +kernel)
  obtain ⟨parts, hbytes, hdefined, hone⟩ := runs_label hissued hruns
  have hempty : k.bytesAt ["home", "inv"] = .empty := by decide +kernel
  rw [show (Path.mk "inv").locationFrom k.here = ["home", "inv"] from hinvocation, hempty,
    ByteArray.empty_append] at hbytes
  have hkey (path key : String) (hpath : path ∈ ["a.kt", "b.kt"])
      (hfirst : (Run.keys [path])[0]? = some key) : .define (.number 100) key ∈ parts.flatten :=
    (Run.define_mem_flatten_iff hdefined).mpr
      ⟨[path], by simpa using hpath, 0, hfirst, by decide⟩
  refine ⟨hissued, hruns, parts, hbytes, hkey "a.kt" _ (by simp) (by decide +kernel),
    hkey "b.kt" _ (by simp) (by decide +kernel), fun h => ?_⟩
  have hagree := hone.mp h ["a.kt"] (by simp) ["b.kt"] (by simp)
  exact absurd hagree (by unfold Run.Agree; decide +kernel)

end Config

end IrFacts
