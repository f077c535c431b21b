import IrFacts.Proofs.Files.FileNames
import IrFacts.Proofs.Files.Stores
import IrFacts.Proofs.Output.Confined
import IrFacts.Proofs.Trap.Verdicts
import IrFacts.Run.SourceTrap

/-!
# What becomes of the trap of a source file

The place of a trap is left alone until the new trap is complete. So the trap
that stands there is still what it was when the two are compared, and the new
one holds all that the extraction wrote, whatever the classes did that were
drained in between.
-/

set_option autoImplicit false

namespace IrFacts

/-! ## Where a source file leaves something -/

namespace Config

variable (config : Config) (here : Location) (source : String)

def trapPlace : Location := (config.sourceTrap source).locationFrom here

def copyPlace : Location := (config.archived source).locationFrom here

theorem nameEnds_trapPlace : Path.NameEnds ".trap" (config.trapPlace here source) :=
  Path.nameEnds_withSuffix here _ (by decide) rfl (by decide)

/-- Where something is written until the trap is complete: no trap of a source file lies here,
but for one that the copy is written over. -/
def Around (location : Location) : Prop :=
  ¬Path.NameEnds ".trap" location ∨ location = config.copyPlace here source

/-- Where something is written for a source file. -/
def Reached (location : Location) : Prop :=
  config.Around here source location ∨ location = config.trapPlace here source

variable {config here source}

theorem trapPlace_of_names {folders : List String} {last : String}
    (h : (Path.mk source).names = folders ++ [last]) : config.trapPlace here source =
      config.trapDir.locationFrom here ++ folders ++ [last ++ ".trap"] :=
  Path.locationFrom_withSuffix_of_names here config.trapDir (by decide) rfl (by decide) h

theorem trapPlace_nameless (h : (Path.mk source).names = []) :
    (∃ folder last, config.trapDir.locationFrom here = folder ++ [last] ∧
      config.trapPlace here source = folder ++ [last ++ ".trap"]) ∨
    config.trapPlace here source = config.trapDir.locationFrom here ++ [".trap"] := by
  have hempty : Path.relativeToRoot source = ⟨""⟩ := by rw [Path.relativeToRoot, h]; rfl
  have hlocation : (config.trapDir.join ⟨""⟩).locationFrom here =
      config.trapDir.locationFrom here := Path.locationFrom_join here _ rfl
  unfold trapPlace sourceTrap
  rw [hempty]
  cases hname : (config.trapDir.join ⟨""⟩).fileName? with
  | none =>
    right
    rw [← hlocation]
    exact Path.locationFrom_withSuffix_nameless here (by decide) rfl (by decide) hname
  | some name =>
    left
    rw [← hlocation]
    obtain ⟨folder, hfolder, hplace⟩ := Path.locationFrom_withSuffix here
      (show '/' ∉ ".trap".toList by decide) rfl (by decide) hname
    exact ⟨folder, name, hfolder, hplace⟩

theorem sourceTrap_of_trapPlace {a b : String}
    (h : config.trapPlace here a = config.trapPlace here b) :
    config.sourceTrap a = config.sourceTrap b := by
  suffices hnames : (Path.mk a).names = (Path.mk b).names by
    simp only [sourceTrap, Path.relativeToRoot, hnames]
  have happend {last last' : String} (he : last ++ ".trap" = last' ++ ".trap") : last = last' :=
    (String.append_left_inj _).mp he
  -- a trap with names lies below the trap directory, and behind a name that is not empty
  have hdiffer {source other : String} {folders : List String} {last : String}
      (hsource : (Path.mk source).names = folders ++ [last]) (hother : (Path.mk other).names = []) :
      config.trapPlace here source ≠ config.trapPlace here other := by
    intro hsame
    rw [trapPlace_of_names hsource] at hsame
    rcases trapPlace_nameless hother with
      ⟨folder, name, hdir, hplace⟩ | hplace
    · have hlength := congrArg List.length (hsame.trans hplace)
      rw [hdir] at hlength
      simp at hlength
    · obtain ⟨-, hlast⟩ := List.append_inj' (hsame.trans hplace) rfl
      have hempty : last = "" := happend (List.singleton_inj.mp hlast)
      have hmem : last ∈ (Path.mk source).names := by simp [hsource]
      have hname := (Path.mem_names hmem).1.1
      rw [hempty] at hname
      cases hname
  rcases List.eq_nil_or_concat' (Path.mk a).names with ha | ⟨folders, last, ha⟩ <;>
    rcases List.eq_nil_or_concat' (Path.mk b).names with hb | ⟨folders', last', hb⟩
  · rw [ha, hb]
  · exact absurd h.symm (hdiffer hb ha)
  · exact absurd h (hdiffer ha hb)
  · rw [trapPlace_of_names ha, trapPlace_of_names hb] at h
    obtain ⟨hfolders, hlast⟩ := List.append_inj' h rfl
    rw [ha, hb, List.append_cancel_left hfolders, happend (List.singleton_inj.mp hlast)]

theorem not_around (h : config.copyPlace here source ≠ config.trapPlace here source) :
    ¬config.Around here source (config.trapPlace here source) := by
  rintro (hends | hcopy)
  · exact hends (config.nameEnds_trapPlace here source)
  · exact h hcopy.symm

theorem around_of_off {location : Location} (h : OffSourceTraps location) :
    config.Around here source location := .inl h.1

/-- What has six letters and digits before its ending is no trap. -/
theorem around_temporary (folder : Path) (front : String) {back : String} (n : Nat)
    (hback : back ∈ [".tmp", ".trap.tmp", ".trap.different"]) :
    config.Around here source
      ((Disk.within folder (Disk.temporaryName front back n)).locationFrom here) := by
  have hends {ending : String} {c : Char} (hslash : '/' ∉ ending.toList)
      (hlast : ending.toList.getLast? = some c) (hc : c ≠ '.') : Path.NameEnds ending
        ((Disk.within folder (Disk.temporaryName front ending n)).locationFrom here) :=
    (Disk.nameEnds_temporary here folder front ending n hslash hlast hc).of_append
  simp only [List.mem_cons, List.not_mem_nil, or_false] at hback
  rcases hback with rfl | rfl | rfl
  · exact .inl (Path.not_nameEnds (hends (by decide) rfl (by decide)) (by decide) (by decide))
  · exact .inl (Path.not_nameEnds (hends (by decide) rfl (by decide)) (by decide) (by decide))
  · exact .inl (Path.not_nameEnds (hends (by decide) rfl (by decide)) (by decide) (by decide))

end Config

namespace SourceTrap

open IrFacts.Task

variable {config : Config} {p : Program} {id : FileId} {entry : FileEntry} {here : Location}

variable {c : Conduct}

theorem obeys_withTemporaryBeside {α : Type} {touched : Location → Prop} {path : Path}
    {back : String} {work : Path → Task OnDisk α}
    (hfresh : ∀ front n, touched ((Disk.within path.directory
      (Disk.temporaryName front back n)).locationFrom here))
    (hwork : ∀ front n, Obeys c here touched
      (work (Disk.within path.directory (Disk.temporaryName front back n)))) :
    Obeys c here touched (withTemporaryBeside path back work) :=
  obeys_withTemporary (hfresh _) (hwork _)

theorem obeys_archive {source : String} :
    Obeys c here (config.Around here source) (archive config source : Task OnDisk _) := by
  refine obeys_bind (obeys_ask (OnDisk.frames_read _)) fun found _ => ?_
  split
  · exact obeys_pure _
  · have hfresh (front : String) (n : Nat) : config.Around here source
        ((Disk.within (config.archived source).directory
          (Disk.temporaryName front ".tmp" n)).locationFrom here) :=
      Config.around_temporary _ front n (by decide)
    refine obeys_bind (obeys_io (OnDisk.frames_makeFolders _)) fun _ _ => ?_
    refine obeys_withTemporaryBeside hfresh fun front n => ?_
    exact obeys_bind (obeys_io (OnDisk.frames_write (hfresh front n) _)) fun _ _ =>
      obeys_io (OnDisk.frames_rename (hfresh front n) (.inr rfl))

theorem obeys_extract (hc : c.OfCounts) (he : c.Extracts p (p.walk.extractFile id))
    {touched : Location → Prop} {temporary : Path}
    (htemporary : touched (temporary.locationFrom here)) :
    Obeys c here touched (extract config p id entry temporary : Task OnDisk _) :=
  obeys_bind (obeys_extracting hc he _ _) fun _ _ => obeys_io (OnDisk.frames_write htemporary _)

theorem obeys_compare {touched : Location → Prop} {temporary trap : Path} :
    Obeys c here touched (compare temporary trap : Task OnDisk _) := by
  refine obeys_bind (obeys_io (OnDisk.frames_read _)) fun a _ => ?_
  refine obeys_bind (obeys_io (OnDisk.frames_read _)) fun b _ => ?_
  split
  · exact obeys_pure _
  · exact obeys_throw nofun

theorem obeys_settle {touched : Location → Prop} {temporary trap : Path}
    (htemporary : touched (temporary.locationFrom here))
    (htrap : touched (trap.locationFrom here))
    (hdifferent : ∀ front n, touched ((Disk.within trap.directory
      (Disk.temporaryName front ".trap.different" n)).locationFrom here)) :
    Obeys c here touched (settle config temporary trap : Task OnDisk _) := by
  have hmove {target : Path} (htarget : touched (target.locationFrom here))
      (outcome : TrapOutcome) : Obeys c here touched (do
        Task.io target (Files.rename temporary target)
        return outcome : Task OnDisk _) :=
    obeys_bind (obeys_io (OnDisk.frames_rename htemporary htarget)) fun _ _ =>
      obeys_pure _
  refine obeys_bind (obeys_ask (OnDisk.frames_present _)) fun present _ => ?_
  split
  · refine obeys_bind obeys_compare fun same _ => ?_
    split
    · exact obeys_bind (obeys_tryIo (OnDisk.frames_remove htemporary)) fun _ _ =>
        obeys_pure _
    · refine obeys_bind (obeys_io (OnDisk.frames_makeTemporary (hdifferent _)))
        fun different hdiff => ?_
      obtain ⟨n, rfl⟩ := path_of_mayReturn hdiff
      exact hmove (hdifferent _ n) _
  · exact hmove htrap _

theorem oblivious_file : Extract.Oblivious p (p.walk.extractFile id) :=
  (Extract.plain_extractFile (Extract.keepsPlain_walk p p.fuel p.fuel) id).oblivious

theorem extracts_counting : counting.Extracts p (p.walk.extractFile id) :=
  counting_extracts oblivious_file

/-! ## What is written -/

/-- The session in which a source file is extracted, after what was counted and scheduled so
far. -/
def session (config : Config) (entry : FileEntry) (counter : Counter) (queue : ClassQueue) :
    Session :=
  let writer := (Trap.Writer.ofSink .unbounded).header config.invocationTrap.text
  { file := Trap.FileWriter.source writer entry.path entry.lines, counter, queue }

def fullText? (config : Config) (p : Program) (id : FileId) (entry : FileEntry) : Option String :=
  match p.walk.extractFile id p (session config entry { limit := 0 } .empty) with
  | .ok (_, s) => some s.file.writer.text
  | .error _ => none

theorem extract_yields_full {temporary : Path} {g : Progress} {k : Disk} {start : Nat}
    {bytes : ByteArray} (hstores : k.Stores start (temporary.locationFrom k.here) bytes) :
    Yields (extract config p id entry temporary) g k fun _ g' k' => g'.counter.limited = [] →
      ∃ text, fullText? config p id entry = some text ∧
        k'.Stores start (temporary.locationFrom k'.here) text.toUTF8 := by
  refine yields_bind (yields_extracting fun s hs => yields_io fun _ hwrite hlimited => ?_)
  refine ⟨s.file.writer.text, ?_, OnDisk.stores_write hstores (Prod.ext hwrite rfl)⟩
  have hstart : Session.UntilLimit (session config entry g.counter g.queue)
      (session config entry { limit := 0 } .empty) :=
    ⟨⟨rfl, rfl, rfl, rfl, rfl⟩, rfl, fun _ => rfl⟩
  obtain ⟨t, ht, hsame⟩ := oblivious_file.untilLimit hstart hs
  rw [fullText?, show p.walk.extractFile id p (session config entry { limit := 0 } .empty) =
    .ok ((), t) from ht, hsame.file hlimited]

/-! ## The comparison -/

theorem equivalent_self {bytes : Trap.Bytes} {same : Bool}
    (h : Trap.equivalent bytes bytes = .ok same) : same = true := by
  rw [Trap.equivalent, Trap.compareLines_self] at h
  split at h <;> cases h
  rfl

theorem compare_yields {temporary trap : Path} {g : Progress} {k : Disk} :
    Yields (compare temporary trap) g k fun same _ _ =>
      ∃ new old, k.entry? (temporary.locationFrom k.here) = some (.file new) ∧
        k.entry? (trap.locationFrom k.here) = some (.file old) ∧
        (k.contentsOf new = k.contentsOf old → same = true) := by
  refine yields_bind (yields_io fun a ha => yields_bind (yields_io fun b hb => ?_))
  rcases hread : Files.read (m := OnDisk) temporary k with ⟨r, l⟩
  rw [hread] at ha hb
  obtain rfl : r = .ok a := ha
  obtain ⟨rfl, new, hnew, rfl⟩ := Disk.read_ok (OnDisk.attempt_ok hread)
  obtain ⟨-, old, hold, rfl⟩ := Disk.read_ok (OnDisk.attempt_ok (Prod.ext hb rfl))
  have hsame {same : Bool} (h : Trap.equivalent (k.contentsOf new).toList
      (k.contentsOf old).toList = .ok same) (heq : k.contentsOf new = k.contentsOf old) :
      same = true := by
    rw [heq] at h
    exact equivalent_self h
  split
  · next same h => exact yields_pure ⟨new, old, hnew, hold, hsame h⟩
  · exact yields_throw _

theorem settle_stores {temporary trap : Path} {g : Progress} {k : Disk} {start : Nat}
    {bytes : ByteArray} (hnew : k.Stores start (temporary.locationFrom k.here) bytes)
    (hnone : ∀ file, k.entry? (trap.locationFrom k.here) ≠ some (.file file)) :
    Yields (settle config temporary trap) g k fun _ _ k' =>
      k'.Stores start (trap.locationFrom k'.here) bytes := by
  unfold settle
  refine yields_bind (yields_ask ?_)
  split
  · refine yields_bind (compare_yields.mono ?_)
    rintro same g' k' ⟨-, old, -, hold, -⟩
    exact absurd hold (hnone old)
  · refine yields_bind (yields_io fun _ hmove => yields_pure ?_)
    exact OnDisk.stores_rename hnew (Prod.ext hmove rfl)

/-- A new trap is identical to the one in its place, if this is a file with the same contents. -/
theorem settle_identical {temporary trap : Path} {g : Progress} {k : Disk} {m n : Nat}
    {bytes : ByteArray} (hcheck : config.checkTrapIdentical = true)
    (hnew : k.Stores m (temporary.locationFrom k.here) bytes)
    (hold : k.entry? (trap.locationFrom k.here) = some .folder ∨
      k.Stores n (trap.locationFrom k.here) bytes) :
    Yields (settle config temporary trap) g k fun outcome _ _ => outcome = .identical := by
  obtain ⟨there, hthere⟩ : ∃ there, k.entry? (trap.locationFrom k.here) = some there := by
    rcases hold with hfolder | ⟨file, -, hfile, -⟩
    · exact ⟨_, hfolder⟩
    · exact ⟨_, hfile⟩
  unfold settle
  refine yields_bind (yields_ask ?_)
  split
  · refine yields_bind (compare_yields.mono ?_)
    rintro same g' k' ⟨new, old, hnewfile, holdfile, hsame⟩
    obtain rfl : same = true := by
      rcases hold with hfolder | ⟨file, -, hfile, -, hcontents⟩
      · cases hfolder.symm.trans holdfile
      · obtain ⟨made, -, hmade, -, hfull⟩ := hnew
        cases Disk.file_inj hmade hnewfile
        cases Disk.file_inj hfile holdfile
        exact hsame (hfull.trans hcontents.symm)
    exact yields_bind fun _ _ => yields_pure rfl
  · next hpresent =>
    refine yields_bind (yields_io fun _ hmove => ?_)
    have hfound : k.present trap = true := OnDisk.present_of_rename hthere (Prod.ext hmove rfl)
    exact absurd (by rw [hcheck]; exact hfound) hpresent

/-! ## The whole of it -/

theorem obeys_make (hc : c.OfCounts) (hclasses : config.destination.Extracts p c)
    (hfile : c.Extracts p (p.walk.extractFile id)) :
    Obeys c here (config.Reached here entry.path) (make config p id entry : Task OnDisk _) := by
  have htemporary {back : String} (hback : back ∈ [".tmp", ".trap.tmp", ".trap.different"])
      (folder : Path) (front : String) (n : Nat) : config.Around here entry.path
        ((Disk.within folder (Disk.temporaryName front back n)).locationFrom here) :=
    Config.around_temporary folder front n hback
  unfold make
  refine obeys_bind (obeys_archive.mono fun _ => .inl) fun _ _ => ?_
  refine obeys_bind (obeys_ask (OnDisk.frames_present _)) fun present _ => ?_
  split
  · exact obeys_pure _
  refine obeys_bind (obeys_io (OnDisk.frames_makeFolders _)) fun _ _ => ?_
  refine obeys_withTemporaryBeside (fun front n => .inl (htemporary (by decide) _ front n))
    fun front n => ?_
  refine obeys_bind (obeys_extract hc hfile (.inl (htemporary (by decide) _ front n)))
    fun _ _ => ?_
  refine obeys_bind ((Destination.obeys_drain hc hclasses).mono
    fun _ h => .inl (Config.around_of_off h)) fun drained _ => ?_
  refine obeys_bind (Destination.obeys_writeSet.mono
    fun _ h => .inl (Config.around_of_off h)) fun _ _ => ?_
  refine obeys_bind (obeys_settle (.inl (htemporary (by decide) _ front n)) (.inr rfl)
    fun front n => .inl (htemporary (by decide) _ front n)) fun _ _ => obeys_pure _

theorem confined_make : Confined here (config.Reached here entry.path)
    (make config p id entry : Task OnDisk _) :=
  obeys_make counting_ofCounts Destination.extracts_counting extracts_counting

theorem yields_withTemporaryBeside {α : Type} {path : Path} {back : String}
    {work : Path → Task OnDisk α} {g : Progress} {k : Disk} {P : α → Progress → Disk → Prop}
    {touched : Location → Prop} (hk : k.Issued)
    (hfresh : ∀ front n, touched ((Disk.within path.directory
      (Disk.temporaryName front back n)).locationFrom k.here))
    (hwork : ∀ front n bytes k₁, Disk.Frame touched k k₁ →
      k₁.Stores k.nextFile ((Disk.within path.directory
        (Disk.temporaryName front back n)).locationFrom k₁.here) bytes →
      Yields (work (Disk.within path.directory (Disk.temporaryName front back n))) g k₁ P) :
    Yields (withTemporaryBeside path back work) g k P := by
  refine yields_withTemporary fun temporary hpath => ?_
  have hframe := OnDisk.frames_makeTemporary (hfresh (path.fileName?.getD "" ++ ".")) k rfl
  obtain ⟨bytes, hstores⟩ := OnDisk.stores_makeTemporary hk (Prod.ext hpath rfl)
  obtain ⟨n, rfl⟩ := OnDisk.makeTemporary_path hpath
  exact hwork _ n bytes _ hframe hstores

theorem nameEnds_temporary (folder : Path) (front : String) (n : Nat) :
    Path.NameEnds ".trap.tmp"
      ((Disk.within folder (Disk.temporaryName front ".trap.tmp" n)).locationFrom here) :=
  (Disk.nameEnds_temporary here folder front _ n (by decide) rfl (by decide)).of_append

/-- A trap in the making that is whole, unless a limit has been reached. -/
def Whole (config : Config) (p : Program) (id : FileId) (entry : FileEntry) (start : Nat)
    (temporary : Path) (g : Progress) (k : Disk) : Prop :=
  g.counter.limited = [] → ∃ text, fullText? config p id entry = some text ∧
    k.Stores start (temporary.locationFrom k.here) text.toUTF8

theorem Whole.off {start : Nat} {temporary : Path} {g g' : Progress} {k k' : Disk}
    (h : Whole config p id entry start temporary g k) (hk : k.Issued)
    (hends : Path.NameEnds ".trap.tmp" (temporary.locationFrom k.here))
    (hoff : g.counter.Precedes g'.counter ∧ Disk.Frame OffSourceTraps k k') :
    Whole config p id entry start temporary g' k' := by
  intro hlimited
  obtain ⟨text, htext, hstores⟩ := h (hoff.1.limited hlimited)
  refine ⟨text, htext, ?_⟩
  rw [hoff.2.here]
  exact hstores.frame hk hoff.2 fun hother => hother.2 hends

/-- Until a trap in the making is put in its place, that place is left alone, and then the trap
is whole. -/
theorem work_yields {temporary : Path} {start : Nat} {bytes : ByteArray} {g : Progress} {k : Disk}
    {Q : TrapOutcome → Disk → Prop} (hk : k.Issued)
    (hends : ∀ here, Path.NameEnds ".trap.tmp" (temporary.locationFrom here))
    (hmade : k.Stores start (temporary.locationFrom k.here) bytes)
    (hsettle : ∀ text g₁ k₁, Disk.Frame (config.Around k.here entry.path) k k₁ →
      fullText? config p id entry = some text →
      k₁.Stores start (temporary.locationFrom k₁.here) text.toUTF8 →
      Yields (settle config temporary (config.sourceTrap entry.path)) g₁ k₁
        fun outcome _ k₂ => Q outcome k₂) :
    Yields (do
      extract config p id entry temporary
      let drained ← config.destination.drain p
      let _ ← config.destination.writeSet entry.path
      return (← settle config temporary (config.sourceTrap entry.path), drained)) g k
      fun r g' k' => g'.counter.limited = [] → Q r.1 k' := by
  have haround (here : Location) :
      config.Around here entry.path (temporary.locationFrom here) :=
    .inl (Path.not_nameEnds (hends here) (by decide) (by decide))
  have hextract : Confined k.here (config.Around k.here entry.path)
    (extract config p id entry temporary : Task OnDisk _) :=
    obeys_extract counting_ofCounts extracts_counting (haround k.here)
  have hwritten : Yields (extract config p id entry temporary) g k fun _ g₁ k₁ =>
      Disk.Frame (config.Around k.here entry.path) k k₁ ∧
        Whole config p id entry start temporary g₁ k₁ := fun a ha =>
    ⟨(hextract.yields rfl a ha).2, extract_yields_full hmade a ha⟩
  refine yields_bind (hwritten.mono fun _ g₁ k₁ ⟨hframe₁, hwhole₁⟩ => ?_)
  refine yields_bind ((config.destination.confined_drain.yields rfl).mono
    fun drained g₂ k₂ hdrained => ?_)
  have hframe₂ := hframe₁.trans (hdrained.2.mono fun _ => Config.around_of_off)
  have hwhole₂ := hwhole₁.off (hframe₁.issued hk) (hends _) hdrained
  refine yields_bind ((config.destination.confined_writeSet.yields rfl).mono
    fun _ g₃ k₃ hset => ?_)
  have hframe₃ := hframe₂.trans (hset.2.mono fun _ => Config.around_of_off)
  have hwhole₃ := hwhole₂.off (hframe₂.issued hk) (hends _) hset
  refine yields_bind fun outcome houtcome => yields_pure fun hlimited => ?_
  have hcounts : Confined k₃.here (fun _ => True)
      (settle config temporary (config.sourceTrap entry.path) : Task OnDisk _) :=
    obeys_settle trivial trivial fun _ _ => trivial
  have hbefore := (hcounts.yields rfl outcome houtcome).1.limited hlimited
  obtain ⟨text, htext, hstores⟩ := hwhole₃ hbefore
  exact hsettle text g₃ k₃ hframe₃ htext hstores outcome houtcome

/-- Up to where a trap is put in its place, that place is left alone, and then the new trap is
whole. -/
theorem make_yields {g : Progress} {k : Disk} {Q : TrapOutcome → Disk → Prop} (hk : k.Issued)
    (hkept : config.checkTrapIdentical = false → ∀ k₁,
      Disk.Frame (config.Around k.here entry.path) k k₁ →
      k₁.present (config.sourceTrap entry.path) = true → Q .kept k₁)
    (hsettle : ∀ temporary text g₁ k₁, Disk.Frame (config.Around k.here entry.path) k k₁ →
      fullText? config p id entry = some text →
      k₁.Stores k.nextFile (temporary.locationFrom k₁.here) text.toUTF8 →
      Yields (settle config temporary (config.sourceTrap entry.path)) g₁ k₁
        fun outcome _ k₂ => Q outcome k₂) :
    Yields (make config p id entry) g k fun r g' k' => g'.counter.limited = [] → Q r.1 k' := by
  unfold make
  have harchive : Confined k.here (config.Around k.here entry.path)
    (archive config entry.path : Task OnDisk _) := obeys_archive
  refine yields_bind ((harchive.yields rfl).mono fun _ g₁ k₁ ⟨_, hframe₁⟩ => ?_)
  refine yields_bind (yields_ask ?_)
  split
  · next hpresent =>
    obtain ⟨hcheck, hthere⟩ : config.checkTrapIdentical = false ∧
        k₁.present (config.sourceTrap entry.path) = true := by
      simpa [Files.present] using hpresent
    exact yields_pure fun _ => hkept hcheck k₁ hframe₁ hthere
  · refine yields_bind (yields_io fun _ _ => ?_)
    generalize hk₂ : (Files.makeFolders (m := OnDisk) _ _).2 = k₂
    have hframe₂ : Disk.Frame (config.Around k.here entry.path) k k₂ :=
      hframe₁.trans (hk₂ ▸ OnDisk.frames_makeFolders _ k₁ rfl)
    have hfresh (front : String) (n : Nat) : config.Around k.here entry.path
        ((Disk.within (config.sourceTrap entry.path).directory
          (Disk.temporaryName front ".trap.tmp" n)).locationFrom k₂.here) :=
      hframe₂.here ▸ Config.around_temporary _ front n (by decide)
    refine yields_withTemporaryBeside (hframe₂.issued hk) hfresh
      fun front n bytes k₃ hframe₃ hmade => ?_
    refine work_yields (hframe₃.issued (hframe₂.issued hk)) (fun _ => nameEnds_temporary _ front n)
      (hmade.mono hframe₂.next) fun text g₄ k₄ hframe₄ htext hstores => ?_
    have hframe₃ := hframe₂.trans hframe₃
    rw [hframe₃.here] at hframe₄
    exact hsettle _ text g₄ k₄ (hframe₃.trans hframe₄) htext hstores

/-! ## Traps in their places -/

/-- Where the trap of a source file belongs there is a folder, or the whole trap, in a file whose
number is `start` or a later one. -/
def Held (config : Config) (p : Program) (start : Nat) (id : FileId) (entry : FileEntry)
    (k : Disk) : Prop :=
  k.entry? (config.trapPlace k.here entry.path) = some .folder ∨
    ∃ text, fullText? config p id entry = some text ∧
      k.Stores start (config.trapPlace k.here entry.path) text.toUTF8

theorem Held.frame {start : Nat} {k k' : Disk} {touched : Location → Prop}
    (h : Held config p start id entry k) (hk : k.Issued) (hframe : Disk.Frame touched k k')
    (ht : ¬touched (config.trapPlace k.here entry.path)) : Held config p start id entry k' := by
  unfold Held
  rw [hframe.here]
  rcases h with hfolder | ⟨text, htext, hstores⟩
  · rcases hframe.entry _ ht with hsame | ⟨-, hmade⟩
    · exact .inl (hsame.trans hfolder)
    · exact .inl hmade
  · exact .inr ⟨text, htext, hstores.frame hk hframe ht⟩

/-- Where no file stood the trap comes to stand, unless a folder was in its place. -/
theorem make_held {start : Nat} {g : Progress} {k : Disk} (hk : k.Issued)
    (hstart : start ≤ k.nextFile)
    (hapart : config.copyPlace k.here entry.path ≠ config.trapPlace k.here entry.path)
    (hnone : ∀ file, k.entry? (config.trapPlace k.here entry.path) ≠ some (.file file)) :
    Yields (make config p id entry) g k fun _ g' k' => g'.counter.limited = [] →
      Held config p start id entry k' := by
  have hplace := Config.not_around hapart
  refine make_yields (Q := fun _ k' => Held config p start id entry k') hk
    (fun _ k₁ hframe hthere => ?_) fun temporary text g₁ k₁ hframe htext hstores => ?_
  · obtain ⟨front, htrap⟩ : ∃ front, config.sourceTrap entry.path = ⟨front ++ ".trap"⟩ :=
      Path.withSuffix_eq _ ".trap"
    rw [htrap] at hthere
    obtain ⟨found, hfound⟩ := Disk.entry_of_present (by decide) rfl (by decide) hthere
    rw [← htrap] at hfound
    cases found with
    | folder => exact .inl hfound
    | file file =>
      rw [hframe.here] at hfound
      exact absurd ((hframe.file hplace).mp hfound) (hnone file)
  · have hnone₁ (file : Nat) :
        k₁.entry? ((config.sourceTrap entry.path).locationFrom k₁.here) ≠ some (.file file) := by
      rw [hframe.here]
      exact fun hfile => hnone file ((hframe.file hplace).mp hfile)
    exact (settle_stores hstores hnone₁).mono fun _ _ k₂ hsettled =>
      .inr ⟨text, htext, hsettled.mono hstart⟩

theorem make_identical {start : Nat} {g : Progress} {k : Disk} (hk : k.Issued)
    (hcheck : config.checkTrapIdentical = true)
    (hapart : config.copyPlace k.here entry.path ≠ config.trapPlace k.here entry.path)
    (hheld : Held config p start id entry k) :
    Yields (make config p id entry) g k fun r g' _ => g'.counter.limited = [] →
      r.1 = .identical := by
  refine make_yields (Q := fun outcome _ => outcome = .identical) hk (fun hnocheck => ?_)
    fun temporary text g₁ k₁ hframe htext hstores => ?_
  · rw [hcheck] at hnocheck
    cases hnocheck
  · refine settle_identical (n := start) hcheck hstores ?_
    rcases hheld.frame hk hframe (Config.not_around hapart) with hfolder | ⟨other, hother, hold⟩
    · exact .inl hfolder
    · obtain rfl : text = other := Option.some.inj (htext.symm.trans hother)
      exact .inr hold

end SourceTrap

end IrFacts
