import IrFacts.Proofs.Files.Ancestors
import IrFacts.Proofs.Run.Invocation
import Mathlib.Data.List.Nodup

/-!
# Folders form a forest

Files are entered with the folders above them, up to the first folder that is known. That is
enough, because a known folder has been entered with those above it. So whatever paths are
registered, and in whatever order, each file and each folder is told of once and stands in the
folder that it is in and in no other.
-/

set_option autoImplicit false

namespace IrFacts.Trap

/-- A file or a folder. -/
inductive Entry where
  | file (text : String)
  | folder (text : String)
deriving DecidableEq

namespace Entry

def path : Entry → Path
  | .file text => ⟨text⟩
  | .folder text => ⟨text⟩

def key : Entry → String
  | .file text => Run.fileKey text
  | .folder text => Run.folderKey ⟨text⟩

/-- The folder that an entry is in. A root and a first relative component are in none. -/
def up? (e : Entry) : Option Entry :=
  if 1 < e.path.components.length then e.path.parent?.map fun q => .folder q.text else none

/-- The registered files and the folders above them. -/
def Asked (paths : List String) : Entry → Prop
  | .file text => text ∈ paths
  | .folder text => text ≠ "" ∧ ∃ file ∈ paths, Path.mk text ∈ (Path.mk file).parents

instance (paths : List String) (e : Entry) : Decidable (e.Asked paths) :=
  match e with
  | .file text => inferInstanceAs (Decidable (text ∈ paths))
  | .folder text => inferInstanceAs
      (Decidable (text ≠ "" ∧ ∃ file ∈ paths, Path.mk text ∈ (Path.mk file).parents))

def introduction (label : Label) : Entry → Fact
  | .file text => .files label text (Path.mk text).stem (Path.mk text).extension 0
  | .folder text => .folders label text

def placement? (label : Entry → Label) (e : Entry) : Option Fact :=
  e.up?.map fun u => .containerparent (label u) (label e)

theorem key_injective : Function.Injective key := by
  have hdiffer (text text' : String) : text ++ ";sourcefile" ≠ text' ++ ";folder" := by
    intro h
    have hlast := congrArg (fun s : String => s.toList.getLast?) h
    simp [String.toList_append, List.getLast?_append] at hlast
  intro e f h
  cases e with
  | file text =>
    cases f with
    | file text' => exact congrArg file ((String.append_left_inj ";sourcefile").mp h)
    | folder text' => exact absurd h (hdiffer _ _)
  | folder text =>
    cases f with
    | file text' => exact absurd h.symm (hdiffer _ _)
    | folder text' => exact congrArg folder ((String.append_left_inj ";folder").mp h)

variable {e u : Entry} {q : Path} {paths : List String}

theorem up?_of_parent? (h : e.path.parent? = some q) (hname : q.text ≠ "") :
    e.up? = some (.folder q.text) := by
  rcases e.path.parent?_spec with ⟨-, hnone⟩ | ⟨-, hempty⟩ | ⟨hlength, -⟩
  · rw [hnone] at h
    cases h
  · rw [hempty] at h
    cases h
    exact absurd rfl hname
  · rw [up?, if_pos hlength, h]
    rfl

theorem up?_of_top (h : ∀ q, e.path.parent? = some q → q.text = "") : e.up? = none := by
  refine if_neg fun hlength => ?_
  obtain ⟨q, hq, hname, -⟩ := Path.exists_parent? hlength
  exact hname (h q hq)

theorem exists_of_up? (h : e.up? = some u) : ∃ q, u = .folder q.text ∧
    1 < e.path.components.length ∧ e.path.parent? = some q ∧ q.text ≠ "" := by
  unfold up? at h
  split at h
  · next hlength =>
    obtain ⟨q, hq, hname, -⟩ := Path.exists_parent? hlength
    rw [hq] at h
    cases h
    exact ⟨q, rfl, hlength, hq, hname⟩
  · cases h

theorem Asked.up (h : e.Asked paths) (hu : e.up? = some u) : u.Asked paths := by
  obtain ⟨q, rfl, -, hq, hname⟩ := exists_of_up? hu
  refine ⟨hname, ?_⟩
  cases e with
  | file text =>
    have hparents : (Path.mk text).parents = q :: q.parents := Path.parents_eq_cons.mpr ⟨hq, rfl⟩
    exact ⟨text, h, hparents ▸ List.mem_cons_self⟩
  | folder text =>
    obtain ⟨-, file, hfile, hmem⟩ := h
    exact ⟨file, hfile, Path.mem_parents_parent? hmem hq⟩

def labelAmong (e : Entry) (entries : List Entry) : Label :=
  Run.labelIn (entries.map key) e.key

theorem key_mem {entries : List Entry} : e.key ∈ entries.map key ↔ e ∈ entries :=
  List.mem_map_of_injective key_injective

theorem labelAmong_append {entries : List Entry} (h : e ∈ entries) (more : List Entry) :
    e.labelAmong (entries ++ more) = e.labelAmong entries := by
  rw [labelAmong, List.map_append]
  exact Run.labelIn_of_prefix (List.prefix_append _ _) (key_mem.mpr h)

theorem labelAmong_injective {entries : List Entry} {f : Entry} (he : e ∈ entries)
    (h : e.labelAmong entries = f.labelAmong entries) : e = f := by
  have hindex : (entries.map key).idxOf e.key = (entries.map key).idxOf f.key := by
    simpa [labelAmong, Run.labelIn] using h
  exact key_injective ((List.idxOf_inj (key_mem.mpr he)).mp hindex)

end Entry

def Sink.told (s : Sink) : List Fact := s.lines.filterMap Line.fact?

namespace Writer

/-- A writer that was given files only. The entries that it has met are told of, and those that are
placed stand in the folders that they are in. -/
structure Shelves (w : Writer) (paths : List String) (entries placed : List Entry) : Prop where
  records : w.Records (entries.map Entry.key) []
  asked : ∀ e ∈ entries, e.Asked paths
  closed : ∀ e ∈ placed, ∀ u, e.up? = some u → u ∈ entries
  /-- For any naming that agrees with the table, so that it need not be told how labels last. -/
  told : ∀ label, (∀ e ∈ entries, label e = e.labelAmong entries) →
    w.sink.told.Perm
      (entries.map (fun e => e.introduction (label e)) ++ placed.filterMap (Entry.placement? label))

variable {w : Writer}

theorem told_fact (h : w.Unfailing) (f : Fact) : (w.fact f).sink.told = w.sink.told ++ [f] := by
  rw [Sink.told, show (w.fact f).sink.lines = w.sink.lines ++ [.fact f] from puts_lines h [_],
    List.filterMap_append]
  rfl

theorem told_lookup (h : w.Unfailing) (key : String) :
    (w.lookup key).2.sink.told = w.sink.told := by
  rw [Writer.lookup, LabelTable.lookup]
  cases w.labels.find? key with
  | some label => rfl
  | none =>
    dsimp only
    rw [put_with_labels, Sink.told,
      show (w.put _).sink.lines = w.sink.lines ++ [_] from puts_lines h [_], List.filterMap_append]
    exact List.append_nil _

namespace Shelves

variable {paths : List String} {entries placed : List Entry} {e u : Entry}

theorem lookup_known (h : w.Shelves paths entries placed) (he : e ∈ entries) :
    w.lookup e.key = (.existing (e.labelAmong entries), w) :=
  h.records.lookup_known (Entry.key_mem.mpr he)

/-- An entry that is met for the first time is named and told of. -/
theorem meets (h : w.Shelves paths entries placed) (hnew : e ∉ entries) (hasked : e.Asked paths) :
    ∃ w', w.lookup e.key = (.created (e.labelAmong (entries ++ [e])), w') ∧
      (w'.fact (e.introduction (e.labelAmong (entries ++ [e])))).Shelves paths (entries ++ [e])
        placed := by
  have hkey : e.key ∉ entries.map Entry.key := fun hmem => hnew (Entry.key_mem.mp hmem)
  obtain ⟨w', hlookup, hw'⟩ := h.records.lookup_new hkey
  have hkeys : entries.map Entry.key ++ [e.key] = (entries ++ [e]).map Entry.key := by simp
  rw [hkeys] at hlookup hw'
  refine ⟨w', hlookup, ?_, ?_, ?_, fun label hlabel => ?_⟩
  · cases e <;> exact hw'.fact rfl
  · intro f hf
    rcases List.mem_append.mp hf with hf | hf
    · exact h.asked f hf
    · exact List.mem_singleton.mp hf ▸ hasked
  · exact fun f hf u hu => List.mem_append_left _ (h.closed f hf u hu)
  · have hsaid : w'.sink.told = w.sink.told := by
      rw [← told_lookup h.records.unfailing e.key, hlookup]
    have hold := h.told label fun f hf => by
      rw [hlabel f (List.mem_append_left _ hf), Entry.labelAmong_append hf]
    have he : label e = e.labelAmong (entries ++ [e]) := hlabel e (by simp)
    rw [told_fact hw'.unfailing, hsaid, ← he, List.map_append, List.append_assoc]
    refine (hold.append_right _).trans ?_
    rw [List.append_assoc]
    exact List.perm_append_comm.append_left _

theorem places (h : w.Shelves paths entries placed) (he : e ∈ entries) (hu : u ∈ entries)
    (hup : e.up? = some u) :
    (w.fact (.containerparent (u.labelAmong entries) (e.labelAmong entries))).Shelves paths entries
      (placed ++ [e]) := by
  refine ⟨h.records.fact rfl, h.asked, fun f hf v hv => ?_, fun label hlabel => ?_⟩
  · rcases List.mem_append.mp hf with hf | hf
    · exact h.closed f hf v hv
    · rw [List.mem_singleton.mp hf, hup] at hv
      cases hv
      exact hu
  · have hplacement : e.placement? label =
        some (.containerparent (u.labelAmong entries) (e.labelAmong entries)) := by
      rw [Entry.placement?, hup, ← hlabel e he, ← hlabel u hu]
      rfl
    rw [told_fact h.records.unfailing, List.filterMap_append, List.filterMap_cons_some hplacement,
      List.filterMap_nil, ← List.append_assoc]
    exact (h.told label hlabel).append_right _

theorem places_top (h : w.Shelves paths entries placed) (hup : e.up? = none) :
    w.Shelves paths entries (placed ++ [e]) := by
  refine ⟨h.records, h.asked, fun f hf v hv => ?_, fun label hlabel => ?_⟩
  · rcases List.mem_append.mp hf with hf | hf
    · exact h.closed f hf v hv
    · rw [List.mem_singleton.mp hf, hup] at hv
      cases hv
  · have hplacement : e.placement? label = none := by
      rw [Entry.placement?, hup]
      rfl
    rw [List.filterMap_append, List.filterMap_cons_none hplacement, List.filterMap_nil,
      List.append_nil]
    exact h.told label hlabel

/-- The folders above an entry are entered up to the first that is known, where all are placed. -/
theorem enterFolders (h : w.Shelves paths (placed ++ [e]) placed) {folders : List Path}
    (hfolders : e.path.parents = folders) : ∃ entries, placed ++ [e] <+: entries ∧
      (w.enterFolders (e.labelAmong (placed ++ [e])) folders).Shelves paths entries entries := by
  -- The folders are the parents of `e`, which is the only entry without a place: each step places
  -- it, and goes on with the folder that it was put into if that was new.
  induction folders generalizing w placed e with
  | nil =>
    have hnone := Path.parents_eq_nil.mp hfolders
    refine ⟨_, List.prefix_rfl, h.places_top (Entry.up?_of_top fun q hq => ?_)⟩
    rw [hnone] at hq
    cases hq
  | cons folder rest ih =>
    obtain ⟨hparent, hrest⟩ := Path.parents_eq_cons.mp hfolders
    rw [Writer.enterFolders]
    by_cases hname : folder.text = ""
    · rw [if_pos hname]
      refine ⟨_, List.prefix_rfl, h.places_top (Entry.up?_of_top fun q hq => ?_)⟩
      rw [hparent] at hq
      cases hq
      exact hname
    · have hup := Entry.up?_of_parent? hparent hname
      rw [if_neg hname, show folder.text ++ ";folder" = (Entry.folder folder.text).key from rfl]
      by_cases hknown : Entry.folder folder.text ∈ placed ++ [e]
      · rw [h.lookup_known hknown]
        exact ⟨_, List.prefix_rfl, h.places (by simp) hknown hup⟩
      · obtain ⟨w', hlookup, hw'⟩ := h.meets hknown ((h.asked e (by simp)).up hup)
        have hplaced := hw'.places (e := e) (u := .folder folder.text) (by simp) (by simp) hup
        rw [Entry.labelAmong_append (e := e) (by simp)] at hplaced
        obtain ⟨entries, hprefix, hentries⟩ := ih hplaced hrest
        rw [hlookup]
        exact ⟨entries, (List.prefix_append _ _).trans hprefix, hentries⟩

theorem fileLabel (h : w.Shelves paths entries entries) {text : String} (htext : text ∈ paths) :
    ∃ entries', entries <+: entries' ∧ .file text ∈ entries' ∧
      (w.fileLabel text true).2.Shelves paths entries' entries' := by
  rw [Writer.fileLabel, show text ++ ";sourcefile" = (Entry.file text).key from rfl]
  by_cases hknown : Entry.file text ∈ entries
  · rw [h.lookup_known hknown]
    exact ⟨entries, List.prefix_rfl, hknown, h⟩
  · obtain ⟨w', hlookup, hw'⟩ := h.meets hknown htext
    obtain ⟨entries', hprefix, hentries'⟩ := hw'.enterFolders rfl
    rw [hlookup]
    exact ⟨entries', (List.prefix_append _ _).trans hprefix, hprefix.subset (by simp), hentries'⟩

theorem mem_of_parent (h : w.Shelves paths entries entries) (he : e ∈ entries) {q : Path}
    (hq : q ∈ e.path.parents) (hname : q.text ≠ "") : .folder q.text ∈ entries := by
  generalize hlist : e.path.parents = folders at hq
  induction folders generalizing e with
  | nil => cases hq
  | cons folder rest ih =>
    obtain ⟨hparent, hrest⟩ := Path.parents_eq_cons.mp hlist
    rcases List.mem_cons.mp hq with rfl | habove
    · exact h.closed e he _ (Entry.up?_of_parent? hparent hname)
    · by_cases hfolder : folder.text = ""
      · obtain rfl : folder = ⟨""⟩ := congrArg Path.mk hfolder
        have hnone : (Path.mk "").parents = [] := by decide
        rw [← hrest, hnone] at habove
        cases habove
      · exact ih (h.closed e he _ (Entry.up?_of_parent? hparent hfolder)) hrest habove

theorem mem_iff (h : w.Shelves paths entries entries)
    (hfiles : ∀ text ∈ paths, .file text ∈ entries) : e ∈ entries ↔ e.Asked paths := by
  refine ⟨h.asked e, fun hasked => ?_⟩
  cases e with
  | file text => exact hfiles text hasked
  | folder text =>
    obtain ⟨hname, file, hfile, hmem⟩ := hasked
    exact h.mem_of_parent (hfiles file hfile) hmem hname

end Shelves

end Writer

/-! ## Registering files -/

/-- A file that is entered into the tables. -/
inductive Registration where
  | sourceFile (text : String)
  | source (text : String) (lines : LineTable)
  | classFile (text : String)
  | retarget (target : Target) (text : String) (lines : Option LineTable)

namespace Registration

def text : Registration → String
  | .sourceFile text => text
  | .source text _ => text
  | .classFile text => text
  | .retarget _ text _ => text

def run (w : Writer) : Registration → Writer
  | .sourceFile text => (w.sourceFile text).2
  | .source text lines => (FileWriter.source w text lines).writer
  | .classFile text => (FileWriter.classFile w text).writer
  | .retarget target text lines => (FileWriter.retarget ⟨w, target⟩ text lines true).2.writer

theorem run_eq (w : Writer) (r : Registration) : r.run w = (w.fileLabel r.text true).2 := by
  cases r <;> rfl

end Registration

theorem Writer.Shelves.registers {w : Writer} {paths : List String} {entries : List Entry}
    (h : w.Shelves paths entries entries) (rs : List Registration)
    (hrs : ∀ r ∈ rs, r.text ∈ paths) : ∃ entries', entries <+: entries' ∧
      (∀ r ∈ rs, .file r.text ∈ entries') ∧
      (rs.foldl Registration.run w).Shelves paths entries' entries' := by
  induction rs generalizing w entries with
  | nil => exact ⟨entries, List.prefix_rfl, fun r hr => absurd hr List.not_mem_nil, h⟩
  | cons r rs ih =>
    obtain ⟨hr, hrs⟩ := List.forall_mem_cons.mp hrs
    obtain ⟨middle, hprefix, hfile, hmiddle⟩ := h.fileLabel hr
    rw [← Registration.run_eq] at hmiddle
    obtain ⟨entries', hprefix', hfiles, hentries'⟩ := ih hmiddle hrs
    exact ⟨entries', hprefix.trans hprefix', List.forall_mem_cons.mpr
      ⟨hprefix'.subset hfile, hfiles⟩, hentries'⟩

/-! ## What is told of files and folders -/

def Entry.introducedBy (e : Entry) (f : Fact) : Bool :=
  match e, f.args with
  | .file text, [_, .text name, _, _, _] => f.relation = "files" && name = text
  | .folder text, [_, .text name] => f.relation = "folders" && name = text
  | _, _ => false

/-- Whether a fact puts an entity into a folder. -/
def Fact.places (child : Label) (f : Fact) : Bool :=
  match f.args with
  | [_, .label l] => f.relation = "containerparent" && l = child
  | _ => false

theorem Entry.introducedBy_introduction (e f : Entry) (l : Label) :
    e.introducedBy (f.introduction l) = (f == e) := by
  cases e <;> cases f <;>
    simp [introducedBy, introduction, Fact.files, Fact.folders, Bool.beq_eq_decide_eq]

theorem Fact.places_introduction (child l : Label) (e : Entry) :
    (e.introduction l).places child = false := by
  cases e <;> rfl

/-- The files that are registered and the folders above them, with their labels: what is told of
them makes a forest. -/
structure Forest (paths : List String) (label : Entry → Label) (told : List Fact) : Prop where
  distinct : ∀ e f : Entry, e.Asked paths → f.Asked paths → label e = label f → e = f
  introduced : ∀ e : Entry, e.Asked paths →
    e.introduction (label e) ∈ told ∧ told.countP e.introducedBy = 1
  /-- An entry is in its parent, which has all of its components but the last. -/
  placed : ∀ e : Entry, e.Asked paths → 1 < e.path.components.length →
    ∃ q, e.path.parent? = some q ∧ q.components = e.path.components.dropLast ∧
      (Entry.folder q.text).Asked paths ∧
      .containerparent (label (.folder q.text)) (label e) ∈ told ∧
      told.countP (Fact.places (label e)) = 1
  /-- A root and a first relative component are nowhere. -/
  top : ∀ e : Entry, e.Asked paths → e.path.components.length ≤ 1 →
    told.countP (Fact.places (label e)) = 0
  only : ∀ f ∈ told, ∃ e : Entry, e.Asked paths ∧ (f = e.introduction (label e) ∨
    1 < e.path.components.length ∧ ∃ q, e.path.parent? = some q ∧
      f = .containerparent (label (.folder q.text)) (label e))

theorem Entry.introducedBy_containerparent (e : Entry) (parent child : Label) :
    e.introducedBy (.containerparent parent child) = false := by
  cases e <;> rfl

namespace Writer.Shelves

variable {w : Writer} {paths : List String} {entries : List Entry} {e : Entry}

theorem countP_introducedBy (h : w.Shelves paths entries entries) (he : e ∈ entries) :
    w.sink.told.countP e.introducedBy = 1 := by
  have htold := h.told (·.labelAmong entries) fun _ _ => rfl
  have hone : entries.countP (e.introducedBy ∘ fun f => f.introduction (f.labelAmong entries)) =
      entries.count e :=
    List.countP_congr fun f _ => by rw [Function.comp, Entry.introducedBy_introduction]
  have hnone : entries.countP (fun f =>
      ((f.placement? (·.labelAmong entries)).map e.introducedBy).getD false) = 0 := by
    refine List.countP_eq_zero.mpr fun f _ => ?_
    cases hup : f.up? <;> simp [Entry.placement?, hup, Entry.introducedBy_containerparent]
  rw [htold.countP_eq, List.countP_append, List.countP_map, List.countP_filterMap, hone, hnone,
    List.count_eq_one_of_mem (.of_map _ h.records.nodup) he]

/-- An entry is put into a folder once, if it is in one. -/
theorem countP_places (h : w.Shelves paths entries entries) (he : e ∈ entries) :
    w.sink.told.countP (Fact.places (e.labelAmong entries)) = if e.up?.isSome then 1 else 0 := by
  have htold := h.told (·.labelAmong entries) fun _ _ => rfl
  have hnone : entries.countP (Fact.places (e.labelAmong entries) ∘
      fun f => f.introduction (f.labelAmong entries)) = 0 := by
    refine List.countP_eq_zero.mpr fun f _ => ?_
    rw [Function.comp, Fact.places_introduction]
    exact Bool.false_ne_true
  have hone : entries.countP (fun f => ((f.placement? (·.labelAmong entries)).map
      (Fact.places (e.labelAmong entries))).getD false) =
        entries.countP fun f => f == e && e.up?.isSome := by
    refine List.countP_congr fun f hf => ?_
    have hsame : f.labelAmong entries = e.labelAmong entries ↔ f = e :=
      ⟨Entry.labelAmong_injective hf, fun h => h ▸ rfl⟩
    by_cases hfe : f = e
    · subst hfe
      cases hup : f.up? <;> simp [Entry.placement?, hup, Fact.places, Fact.containerparent]
    · cases hup : f.up? <;>
        simp [Entry.placement?, hup, Fact.places, Fact.containerparent, hsame, hfe]
  rw [htold.countP_eq, List.countP_append, List.countP_map, List.countP_filterMap, hone, hnone,
    Nat.zero_add]
  cases e.up? with
  | none => simp
  | some u =>
    simpa [List.count] using List.count_eq_one_of_mem (.of_map _ h.records.nodup) he

theorem forest (h : w.Shelves paths entries entries)
    (hfiles : ∀ text ∈ paths, .file text ∈ entries) :
    Forest paths (·.labelAmong entries) w.sink.told := by
  have htold := h.told (·.labelAmong entries) fun _ _ => rfl
  have hmem (e : Entry) : e ∈ entries ↔ e.Asked paths := h.mem_iff hfiles
  refine ⟨fun e f he hf => ?_, fun e he => ⟨?_, ?_⟩, fun e he hlength => ?_, fun e he hlength => ?_,
    fun f hf => ?_⟩
  · exact Entry.labelAmong_injective ((hmem e).mpr he)
  · exact htold.mem_iff.mpr (List.mem_append_left _ (List.mem_map_of_mem ((hmem e).mpr he)))
  · exact h.countP_introducedBy ((hmem e).mpr he)
  · obtain ⟨q, hq, hname, hcomponents⟩ := Path.exists_parent? hlength
    have hup := Entry.up?_of_parent? hq hname
    refine ⟨q, hq, hcomponents, he.up hup, ?_, ?_⟩
    · refine htold.mem_iff.mpr (List.mem_append_right _ (List.mem_filterMap.mpr ?_))
      exact ⟨e, (hmem e).mpr he, by rw [Entry.placement?, hup]; rfl⟩
    · rw [h.countP_places ((hmem e).mpr he), hup]
      rfl
  · rw [h.countP_places ((hmem e).mpr he), Entry.up?, if_neg (Nat.not_lt.mpr hlength)]
    rfl
  · rcases List.mem_append.mp (htold.mem_iff.mp hf) with hf | hf
    · obtain ⟨e, he, rfl⟩ := List.mem_map.mp hf
      exact ⟨e, (hmem e).mp he, .inl rfl⟩
    · obtain ⟨e, he, hplacement⟩ := List.mem_filterMap.mp hf
      obtain ⟨u, hup, rfl⟩ := Option.map_eq_some_iff.mp hplacement
      obtain ⟨q, rfl, hlength, hq, -⟩ := Entry.exists_of_up? hup
      exact ⟨e, (hmem e).mp he, .inr ⟨hlength, q, hq, rfl⟩⟩

end Writer.Shelves

theorem Writer.Shelves.ofSink {sink : Sink} (hs : sink.NeverRefuses) (ht : sink.taken = [])
    (paths : List String) : (Writer.ofSink sink).Shelves paths [] [] := by
  have hchunks : sink.chunks = [] := by rw [Sink.chunks, ht, List.reverse_nil]
  have hlines : sink.lines = [] := by rw [Sink.lines, hchunks]; rfl
  refine ⟨⟨⟨hs, rfl⟩, ?_, .nil, rfl, fun _ => rfl, ?_, ?_⟩, ?_, ?_, fun label _ => ?_⟩
  · rw [Sink.Whole, Writer.ofSink, hlines, hchunks]
    rfl
  · rw [Writer.ofSink, hlines]
    rfl
  · rw [Writer.ofSink, hlines]
    rfl
  · exact fun e he => absurd he List.not_mem_nil
  · exact fun e he => absurd he List.not_mem_nil
  · rw [Writer.ofSink, Sink.told, hlines]
    exact .nil

/-- Whatever files are registered on a writer, and in whatever order, what it tells of them and of
the folders above them is a forest. -/
theorem registered_forest {sink : Sink} (hs : sink.NeverRefuses) (ht : sink.taken = [])
    (rs : List Registration) :
    let w := rs.foldl Registration.run (.ofSink sink)
    let paths := rs.map (·.text)
    ∃ label : Entry → Label, Forest paths label w.sink.told ∧
      ∀ e : Entry, e.Asked paths → w.labels.find? e.key = some (label e) := by
  intro w paths
  obtain ⟨entries, -, hfiles, hw⟩ := (Writer.Shelves.ofSink hs ht paths).registers rs
    fun r hr => List.mem_map_of_mem hr
  have hpaths : ∀ text ∈ paths, .file text ∈ entries := by
    intro text htext
    obtain ⟨r, hr, rfl⟩ := List.mem_map.mp htext
    exact hfiles r hr
  refine ⟨_, hw.forest hpaths, fun e he => ?_⟩
  rw [hw.records.find?, if_pos (Entry.key_mem.mpr ((hw.mem_iff hpaths).mpr he))]
  rfl

/-- Two files with a folder above both, and one at the root. -/
theorem registered_forest_shared :
    let rs : List Registration :=
      [.sourceFile "a/b/c.kt", .classFile "/d", .retarget default "a/e.kt" none]
    let w := rs.foldl Registration.run (.ofSink .unbounded)
    ∃ label : Entry → Label,
      w.sink.told.countP (Fact.places (label (.file "a/e.kt"))) = 1 ∧
      .containerparent (label (.folder "a")) (label (.folder "a/b")) ∈ w.sink.told ∧
      .containerparent (label (.folder "/")) (label (.file "/d")) ∈ w.sink.told ∧
      w.sink.told.countP (Fact.places (label (.folder "a"))) = 0 ∧
      w.sink.told.countP (Fact.places (label (.folder "/"))) = 0 := by
  intro rs w
  have hs : Sink.unbounded.NeverRefuses := fun _ _ => rfl
  obtain ⟨label, hforest, -⟩ := registered_forest hs rfl rs
  have hfile : (Entry.file "a/e.kt").Asked (rs.map (·.text)) := by decide
  have hfolder : (Entry.folder "a/b").Asked (rs.map (·.text)) := by decide
  have hroot : (Entry.file "/d").Asked (rs.map (·.text)) := by decide
  obtain ⟨-, -, -, -, -, hcount⟩ := hforest.placed _ hfile (by decide)
  obtain ⟨q, hq, -, htop, hplaced, -⟩ := hforest.placed _ hfolder (by decide)
  obtain ⟨q', hq', -, htop', hplaced', -⟩ := hforest.placed _ hroot (by decide)
  cases hq.symm.trans (show _ = some ⟨"a"⟩ by decide)
  cases hq'.symm.trans (show _ = some ⟨"/"⟩ by decide)
  exact ⟨label, hcount, hplaced, hplaced', hforest.top _ htop (by decide),
    hforest.top _ htop' (by decide)⟩

end IrFacts.Trap
