import IrFacts.Proofs.Labels.Faithful
import IrFacts.Proofs.Trap.Commands
import IrFacts.Run.Basic

/-!
# What a run writes about its files

In the invocation trap each file has a label, and each folder above one. Their
keys are numbered in the order in which they are met, from the first number on,
so that the paths of a run alone decide which label stands for which key. Of
each file two facts are told: that it was begun with, and how it went.
-/

set_option autoImplicit false

namespace IrFacts

namespace Run

/-! ## Keys in the order of their labels -/

def fileKey (path : String) : String := path ++ ";sourcefile"

def folderKey (folder : Path) : String := folder.text ++ ";folder"

/-- The keys that are known when the folders above a file have been entered, the nearest first. -/
def enterFolders (known : List String) : List Path → List String
  | [] => known
  | folder :: rest =>
    if folder.text = "" then known
    else if folderKey folder ∈ known then known
    else enterFolders (known ++ [folderKey folder]) rest

/-- The keys that are known when a source file has been entered. -/
def enterFile (known : List String) (path : String) : List String :=
  if fileKey path ∈ known then known
  else enterFolders (known ++ [fileKey path]) (Path.mk path).parents

/-- The keys of a run over the files at these paths, in the order of their labels. -/
def keys (paths : List String) : List String := paths.foldl enterFile []

def labelIn (keys : List String) (key : String) : Label :=
  .number (LabelTable.first + keys.idxOf key)

def definitions (keys : List String) : List Trap.Line :=
  keys.mapIdx fun i key => .define (.number (LabelTable.first + i)) key

theorem definitions_concat (keys : List String) (key : String) : definitions (keys ++ [key]) =
    definitions keys ++ [.define (.number (LabelTable.first + keys.length)) key] :=
  List.mapIdx_concat

theorem labelIn_of_prefix {known keys : List String} (h : known <+: keys) {key : String}
    (hkey : key ∈ known) : labelIn keys key = labelIn known key := by
  obtain ⟨more, rfl⟩ := h
  rw [labelIn, labelIn, List.idxOf_append, if_pos hkey]

theorem prefix_enterFolders (known : List String) (folders : List Path) :
    known <+: enterFolders known folders := by
  induction folders generalizing known with
  | nil => exact List.prefix_rfl
  | cons folder rest ih =>
    rw [enterFolders]
    split
    · exact List.prefix_rfl
    · split
      · exact List.prefix_rfl
      · exact (List.prefix_append known _).trans (ih _)

theorem prefix_enterFile (known : List String) (path : String) :
    known <+: enterFile known path := by
  rw [enterFile]
  split
  · exact List.prefix_rfl
  · exact (List.prefix_append known _).trans (prefix_enterFolders _ _)

theorem fileKey_mem_enterFile (known : List String) (path : String) :
    fileKey path ∈ enterFile known path := by
  rw [enterFile]
  split
  · assumption
  · exact (prefix_enterFolders _ _).subset (by simp)

theorem prefix_enterFiles (known paths : List String) : known <+: paths.foldl enterFile known := by
  induction paths generalizing known with
  | nil => exact List.prefix_rfl
  | cons path rest ih => exact (prefix_enterFile known path).trans (ih _)

theorem fileKey_mem_keys {paths : List String} {path : String} (h : path ∈ paths) :
    fileKey path ∈ keys paths := by
  suffices hfold : ∀ known, fileKey path ∈ paths.foldl enterFile known from hfold []
  induction paths with
  | nil => cases h
  | cons first rest ih =>
    intro known
    rcases List.mem_cons.mp h with rfl | hrest
    · exact (prefix_enterFiles _ rest).subset (fileKey_mem_enterFile known path)
    · exact ih hrest _

theorem define_mem_definitions {keys : List String} {key : String} (h : key ∈ keys) :
    .define (labelIn keys key) key ∈ definitions keys := by
  rw [definitions, List.mem_mapIdx]
  exact ⟨keys.idxOf key, List.idxOf_lt_length_of_mem h, by simp [labelIn]⟩

end Run

/-! ## What a writer has said -/

namespace Trap

def Line.introduces : Line → Bool
  | .define .. => true
  | .fresh _ => true
  | _ => false

/-- Whether a fact tells of a file of the compilation. -/
def Fact.ofFile (f : Fact) : Bool :=
  f.relation = "compilation_compiling_files" || f.relation = "compilation_compiling_files_completed"

/-- The facts in some lines that tell of files of the compilation. -/
def factsOfFiles (lines : List Line) : List Fact := (lines.filterMap Line.fact?).filter Fact.ofFile

def textOf (lines : List Line) : String := String.join (lines.map fun l => l.render ++ "\n")

theorem textOf_append (ls ms : List Line) : textOf (ls ++ ms) = textOf ls ++ textOf ms := by
  rw [textOf, List.map_append, String.join_append]
  rfl

theorem factsOfFiles_append (ls ms : List Line) :
    factsOfFiles (ls ++ ms) = factsOfFiles ls ++ factsOfFiles ms := by
  rw [factsOfFiles, List.filterMap_append, List.filter_append]
  rfl

namespace Writer

/-- A writer that has defined the labels of these keys and of no others, in their order, and has
told these facts of files. -/
structure Records (w : Writer) (keys : List String) (facts : List Fact) : Prop where
  unfailing : w.Unfailing
  whole : w.sink.Whole
  nodup : keys.Nodup
  next : w.labels.next = LabelTable.first + keys.length
  find? : ∀ key, w.labels.find? key = if key ∈ keys then some (Run.labelIn keys key) else none
  defined : w.sink.lines.filter Line.introduces = Run.definitions keys
  told : factsOfFiles w.sink.lines = facts

namespace Records

variable {w : Writer} {keys : List String} {facts : List Fact}

theorem ofSink : (Writer.ofSink .unbounded).Records [] [] where
  unfailing := ⟨fun _ _ => rfl, rfl⟩
  whole := rfl
  nodup := .nil
  next := rfl
  find? _ := rfl
  defined := rfl
  told := rfl

theorem put (h : w.Records keys facts) {l : Line} (hl : l.introduces = false) :
    (w.put l).Records keys (facts ++ factsOfFiles [l]) where
  unfailing := puts_unfailing h.unfailing [l]
  whole := puts_whole h.unfailing h.whole [l]
  nodup := h.nodup
  next := by rw [put_labels, h.next]
  find? key := by rw [put_labels, h.find?]
  defined := by
    rw [show (w.put l).sink.lines = w.sink.lines ++ [l] from puts_lines h.unfailing [l],
      List.filter_append, h.defined]
    simp [hl]
  told := by
    rw [show (w.put l).sink.lines = w.sink.lines ++ [l] from puts_lines h.unfailing [l],
      factsOfFiles_append, h.told]

theorem comment (h : w.Records keys facts) (text : String) :
    (w.comment text).Records keys facts := by
  have hput := h.put (l := .comment text) rfl
  rwa [show factsOfFiles [.comment text] = [] from rfl, List.append_nil] at hput

theorem fact (h : w.Records keys facts) {f : Fact} (hf : f.ofFile = false) :
    (w.fact f).Records keys facts := by
  have hput := h.put (l := .fact f) rfl
  rwa [show factsOfFiles [.fact f] = [] by simp [factsOfFiles, Line.fact?, hf],
    List.append_nil] at hput

theorem factOfFile (h : w.Records keys facts) {f : Fact} (hf : f.ofFile = true) :
    (w.fact f).Records keys (facts ++ [f]) := by
  have hput := h.put (l := .fact f) rfl
  rwa [show factsOfFiles [.fact f] = [f] by simp [factsOfFiles, Line.fact?, hf]] at hput

theorem lookup_known (h : w.Records keys facts) {key : String} (hkey : key ∈ keys) :
    w.lookup key = (.existing (Run.labelIn keys key), w) := by
  have hfind := h.find? key
  rw [if_pos hkey] at hfind
  simp only [Writer.lookup, LabelTable.lookup, hfind]

theorem lookup_new (h : w.Records keys facts) {key : String} (hkey : key ∉ keys) : ∃ w',
    w.lookup key = (.created (Run.labelIn (keys ++ [key]) key), w') ∧
      w'.Records (keys ++ [key]) facts := by
  have hnone : w.labels.find? key = none := by rw [h.find?, if_neg hkey]
  have hindex : (keys ++ [key]).idxOf key = keys.length := by
    rw [List.idxOf_append, if_neg hkey, List.idxOf_cons_self, Nat.zero_add]
  have hlabel : Run.labelIn (keys ++ [key]) key = .number w.labels.next := by
    rw [Run.labelIn, hindex, h.next]
  let l : Line := .define (.number w.labels.next) key
  have hlines : (w.put l).sink.lines = w.sink.lines ++ [l] := puts_lines h.unfailing [l]
  refine ⟨{ w.put l with labels := (w.labels.lookup key).2 }, ?_, ?_⟩
  · rw [hlabel]
    simp only [Writer.lookup, LabelTable.lookup, hnone]
    rw [put_with_labels]
  · refine ⟨puts_unfailing h.unfailing [l], puts_whole h.unfailing h.whole [l], ?_, ?_,
      fun other => ?_, ?_, ?_⟩
    · refine List.nodup_append.mpr ⟨h.nodup, by simp, fun a ha b hb hsame => hkey ?_⟩
      rw [← List.mem_singleton.mp hb, ← hsame]
      exact ha
    · rw [LabelTable.next_lookup_of_none hnone, h.next, List.length_append]
      rfl
    · rw [LabelTable.find?_lookup_of_none hnone, h.find?]
      by_cases hother : other = key
      · rw [if_pos hother, hother, if_pos (by simp), hlabel]
      · rw [if_neg hother]
        by_cases hmem : other ∈ keys
        · rw [if_pos hmem, if_pos (List.mem_append_left _ hmem),
            Run.labelIn_of_prefix (List.prefix_append keys [key]) hmem]
        · rw [if_neg hmem, if_neg (by simp [hmem, hother])]
    · rw [show ({ w.put l with labels := _ } : Writer).sink.lines = _ from hlines,
        List.filter_append, h.defined, Run.definitions_concat, ← h.next]
      rfl
    · rw [show ({ w.put l with labels := _ } : Writer).sink.lines = _ from hlines,
        factsOfFiles_append, h.told]
      exact List.append_nil _

theorem enterFolders (h : w.Records keys facts) (child : Label) (folders : List Path) :
    (w.enterFolders child folders).Records (Run.enterFolders keys folders) facts := by
  induction folders generalizing w keys child with
  | nil => exact h
  | cons folder rest ih =>
    rw [Writer.enterFolders, Run.enterFolders]
    split
    · exact h
    by_cases hkey : Run.folderKey folder ∈ keys
    · rw [if_pos hkey, show w.lookup (folder.text ++ ";folder") = _ from h.lookup_known hkey]
      exact h.fact rfl
    · obtain ⟨w', hlookup, hw'⟩ := h.lookup_new hkey
      rw [if_neg hkey, show w.lookup (folder.text ++ ";folder") = _ from hlookup]
      exact ih ((hw'.fact rfl).fact rfl) _

theorem sourceFile (h : w.Records keys facts) (path : String) :
    (w.sourceFile path).1 = Run.labelIn (Run.enterFile keys path) (Run.fileKey path) ∧
      (w.sourceFile path).2.Records (Run.enterFile keys path) facts := by
  rw [Writer.sourceFile, Writer.fileLabel, Run.enterFile]
  by_cases hkey : Run.fileKey path ∈ keys
  · rw [if_pos hkey, show w.lookup (path ++ ";sourcefile") = _ from h.lookup_known hkey]
    exact ⟨rfl, h⟩
  · obtain ⟨w', hlookup, hw'⟩ := h.lookup_new hkey
    rw [if_neg hkey, show w.lookup (path ++ ";sourcefile") = _ from hlookup]
    refine ⟨?_, (hw'.fact rfl).enterFolders _ _⟩
    exact (Run.labelIn_of_prefix (Run.prefix_enterFolders _ _) (by simp)).symm

end Records

end Writer

end Trap

namespace Run

/-! ## A run over files -/

def tale (keys : List String) (told : FileReport × Nat) : List Trap.Fact :=
  [.compilationCompilingFiles compilation told.2 (labelIn keys (fileKey told.1.path)),
    .compilationCompilingFilesCompleted compilation told.2 told.1.result.code]

def tell (w : Trap.Writer) (told : FileReport × Nat) : Trap.Writer :=
  let (label, w) := w.sourceFile told.1.path
  (w.fact (.compilationCompilingFiles compilation told.2 label)).fact
    (.compilationCompilingFilesCompleted compilation told.2 told.1.result.code)

/-- Files are told of in their order, whatever became of them. -/
theorem records_tells {w : Trap.Writer} {known : List String} {facts : List Trap.Fact}
    (h : w.Records known facts) (told : List (FileReport × Nat)) :
    let keys := (told.map (·.1.path)).foldl enterFile known
    (told.foldl tell w).Records keys (facts ++ told.flatMap (tale keys)) := by
  induction told generalizing w known facts with
  | nil =>
    intro keys
    rwa [List.flatMap_nil, List.append_nil]
  | cons first rest ih =>
    intro keys
    obtain ⟨hlabel, hentered⟩ := h.sourceFile first.1.path
    have hkept : labelIn keys (fileKey first.1.path) = (w.sourceFile first.1.path).1 := by
      rw [hlabel]
      exact labelIn_of_prefix (prefix_enterFiles _ _) (fileKey_mem_enterFile _ _)
    have hfirst : (tell w first).Records (enterFile known first.1.path)
        (facts ++ tale keys first) := by
      have htold := (hentered.factOfFile (f := .compilationCompilingFiles compilation first.2
        (w.sourceFile first.1.path).1) rfl).factOfFile
          (f := .compilationCompilingFilesCompleted compilation first.2 first.1.result.code) rfl
      rw [List.append_assoc] at htold
      rw [tale, hkept]
      exact htold
    have hrest : (rest.foldl tell (tell w first)).Records keys
        (facts ++ tale keys first ++ rest.flatMap (tale keys)) := ih hfirst
    rwa [List.append_assoc] at hrest

theorem records_start (config : Config) : (start config).writer.Records [] [] :=
  ((Trap.Writer.Records.ofSink.comment _).comment _).fact rfl

theorem records_finish {r : Run} {keys : List String} {facts : List Trap.Fact}
    (h : r.writer.Records keys facts) (elapsed : Float) :
    (r.finish elapsed).Records keys facts := by
  have hsummary (w : Trap.Writer) (hw : w.Records keys facts) :
      (r.counter.summarize w).Records keys facts :=
    List.foldlRecOn (motive := (Trap.Writer.Records · keys facts)) _ _ hw
      fun _ hw _ _ => hw.comment _
  exact (hsummary _ (h.fact rfl)).fact rfl

end Run

end IrFacts
