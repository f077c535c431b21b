import IrFacts.Proofs.Diagnostics.RateLimit
import IrFacts.Trap.FileWriter
import Mathlib.Data.List.Forall2

/-!
# Sinks that refuse

What a call answers and which lines it says depends on the labels and the target of the writer
alone, so a sink that refuses chunks changes no label. Of the chunks that are said between two
flushes it is offered those up to the first that it refuses, and the next flush tells of that one.
If there is none, the flush is passed on to the sink, which may refuse this as well. A sink may
refuse by the number of chunks that were offered before, and of flushes, so that whatever it answers
in the course of a run is covered.
-/

set_option autoImplicit false

namespace IrFacts.Trap

/-! ## Sinks -/

def Line.chunks (l : Line) : List Chunk := [.line l, .newline]

namespace Sink

/-- Chunks are offered one after the other, up to the first that is refused and none behind it. -/
inductive Receives : Sink → List Chunk → Option SinkError → Sink → Prop
  | all {s : Sink} : Receives s [] none s
  | refuses {s s' : Sink} {c : Chunk} {error : SinkError} (rest : List Chunk)
      (offer : s.offer c = (.error error, s')) : Receives s (c :: rest) (some error) s'
  | takes {s s' s'' : Sink} {c : Chunk} {rest : List Chunk} {failure : Option SinkError}
      (offer : s.offer c = (.ok (), s')) (more : Receives s' rest failure s'') :
      Receives s (c :: rest) failure s''

variable {s s' s'' : Sink} {cs ds : List Chunk} {error : SinkError} {failure : Option SinkError}

theorem Receives.append_refused (h : s.Receives cs (some error) s') (ds : List Chunk) :
    s.Receives (cs ++ ds) (some error) s' := by
  generalize hfailure : some error = failure at h
  induction h with
  | all => cases hfailure
  | refuses rest offer =>
    cases hfailure
    exact .refuses _ offer
  | takes offer _ ih => exact .takes offer (ih hfailure)

theorem Receives.append (h : s.Receives cs none s') (k : s'.Receives ds failure s'') :
    s.Receives (cs ++ ds) failure s'' := by
  generalize hnone : none = first at h
  induction h with
  | all => exact k
  | refuses => cases hnone
  | takes offer _ ih => exact .takes offer (ih k hnone)

theorem flush_refuses (s : Sink) : s.flush.2.refuses = s.refuses := by
  rw [flush]
  cases s.refusesFlush s.flushes <;> rfl

theorem Receives.taken (h : s.Receives cs failure s') : ∃ took rest, cs = took ++ rest ∧
    s'.chunks = s.chunks ++ took ∧ (failure = none ↔ rest = []) := by
  induction h with
  | all => exact ⟨[], [], rfl, (List.append_nil _).symm, iff_of_true rfl rfl⟩
  | @refuses s s' c error rest offer =>
    refine ⟨[], c :: rest, rfl, ?_, iff_of_false nofun nofun⟩
    rw [Sink.offer] at offer
    split at offer <;> cases offer
    exact (List.append_nil _).symm
  | @takes s s' s'' c rest failure offer _ ih =>
    obtain ⟨took, missed, rfl, hchunks, hall⟩ := ih
    refine ⟨c :: took, missed, rfl, ?_, hall⟩
    rw [Sink.offer] at offer
    split at offer <;> cases offer
    rw [hchunks, chunks, chunks, List.reverse_cons, List.append_assoc, List.singleton_append]

end Sink

namespace Writer

variable {w : Writer}

theorem put_receives (hw : w.failure = none) (l : Line) :
    w.sink.Receives l.chunks (w.put l).failure (w.put l).sink := by
  rcases w with ⟨labels, sink, failure⟩
  obtain rfl : failure = none := hw
  rw [put]
  rcases hline : sink.offer (.line l) with ⟨error | _, s⟩
  · exact .refuses _ hline
  · dsimp only
    rcases hnewline : s.offer .newline with ⟨error | _, s'⟩
    · exact .takes hline (.refuses _ hnewline)
    · exact .takes hline (.takes hnewline .all)

theorem puts_of_failed {error : SinkError} (hw : w.failure = some error) (ls : List Line) :
    ls.foldl put w = w := by
  induction ls with
  | nil => rfl
  | cons l ls ih => rw [List.foldl_cons, show w.put l = w by rw [put, hw], ih]

theorem puts_receive (hw : w.failure = none) (ls : List Line) :
    w.sink.Receives (ls.flatMap Line.chunks) (ls.foldl put w).failure (ls.foldl put w).sink := by
  induction ls generalizing w with
  | nil =>
    rw [List.foldl_nil, hw]
    exact .all
  | cons l ls ih =>
    have hput := put_receives hw l
    rw [List.flatMap_cons, List.foldl_cons]
    cases hfailure : (w.put l).failure with
    | none =>
      rw [hfailure] at hput
      exact hput.append (ih hfailure)
    | some error =>
      rw [hfailure] at hput
      rw [puts_of_failed hfailure, hfailure]
      exact hput.append_refused _

/-! ## What is said apart from the sink -/

/-- The answer and the labels behind the function and the lines that it says depend on the labels
alone. -/
def Says {α : Type} (f : Writer → α × Writer) : Prop :=
  ∀ labels, ∃ (a : α) (ls : List Line) (labels' : LabelTable), ∀ sink failure,
    f ⟨labels, sink, failure⟩ =
      (a, { ls.foldl put ⟨labels, sink, failure⟩ with labels := labels' })

variable {α β : Type} {f : Writer → α × Writer} {g : α → Writer → β × Writer}

theorem says_pure (a : α) : Says fun w => (a, w) :=
  fun labels => ⟨a, [], labels, fun _ _ => rfl⟩

theorem says_put (l : Line) (a : α) : Says fun w => (a, w.put l) := fun labels =>
  ⟨a, [l], labels, fun sink failure =>
    congrArg (Prod.mk a) (put_with_labels ⟨labels, sink, failure⟩ labels l)⟩

theorem says_bind (hf : Says f) (hg : ∀ a, Says (g a)) : Says fun w => g (f w).1 (f w).2 := by
  intro labels
  obtain ⟨a, ls, labels', ha⟩ := hf labels
  obtain ⟨b, ms, labels'', hb⟩ := hg a labels'
  refine ⟨b, ls ++ ms, labels'', fun sink failure => ?_⟩
  dsimp only
  rw [ha]
  dsimp only
  rw [hb, List.foldl_append]
  have hputs := puts_with_labels (ls.foldl put ⟨labels, sink, failure⟩) labels' ms
  rw [hputs]

theorem says_lookup (key : String) : Says (·.lookup key) := by
  intro labels
  cases hfound : labels.find? key with
  | some label =>
    refine ⟨.existing label, [], labels, fun _ _ => ?_⟩
    simp only [lookup, LabelTable.lookup, hfound, List.foldl_nil]
  | none =>
    refine ⟨.created (.number labels.next), [.define (.number labels.next) key],
      (labels.lookup key).2, fun sink failure => ?_⟩
    simp only [lookup, LabelTable.lookup, hfound, List.foldl_cons, List.foldl_nil]
    exact congrArg (Prod.mk _) (put_with_labels ⟨labels, sink, failure⟩ _ _)

theorem says_labelFor (key : String) : Says (·.labelFor key) :=
  says_bind (says_lookup key) fun found => says_pure found.label

def onLookup {α : Type} (w : Writer) (key : String) (known new : Label → Writer → α × Writer) :
    α × Writer :=
  match w.lookup key with
  | (.existing label, w) => known label w
  | (.created label, w) => new label w

theorem says_onLookup (key : String) {known new : Label → Writer → α × Writer}
    (hknown : ∀ label, Says (known label)) (hnew : ∀ label, Says (new label)) :
    Says (·.onLookup key known new) := by
  have hact (found : Lookup) : Says ((if found.isCreated then new else known) found.label) := by
    cases found with
    | existing label => exact hknown label
    | created label => exact hnew label
  have heq : (fun w : Writer => w.onLookup key known new) = fun w =>
      (if (w.lookup key).1.isCreated then new else known) (w.lookup key).1.label
        (w.lookup key).2 := by
    funext w
    rw [onLookup]
    rcases w.lookup key with ⟨label | label, v⟩ <;> rfl
  rw [heq]
  exact says_bind (says_lookup key) hact

theorem says_fresh : Says fresh := fun labels =>
  ⟨labels.fresh.1, [.fresh labels.fresh.1], labels.fresh.2, fun sink failure =>
    congrArg (Prod.mk _) (put_with_labels ⟨labels, sink, failure⟩ _ _)⟩

def described (w : Writer) (key : String) (describe : Label → Fact) : Label × Writer :=
  w.onLookup key Prod.mk fun label w => (label, w.fact (describe label))

theorem says_described (key : String) (describe : Label → Fact) :
    Says (·.described key describe) :=
  says_onLookup key says_pure fun label => says_put _ label

theorem says_enterFolders (child : Label) (folders : List Path) :
    Says fun w => ((), w.enterFolders child folders) := by
  induction folders generalizing child with
  | nil => exact says_pure ()
  | cons folder rest ih =>
    by_cases hname : folder.text = ""
    · simp only [enterFolders, if_pos hname]
      exact says_pure ()
    · have heq : (fun w : Writer => ((), w.enterFolders child (folder :: rest))) = fun w =>
          w.onLookup (folder.text ++ ";folder")
            (fun label w => ((), w.fact (.containerparent label child)))
            fun label w => ((), ((w.fact (.folders label folder.text)).fact
              (.containerparent label child)).enterFolders label rest) := by
        funext w
        rw [enterFolders, if_neg hname, onLookup]
        rcases w.lookup (folder.text ++ ";folder") with ⟨label | label, v⟩ <;> rfl
      rw [heq]
      refine says_onLookup _ (fun label => says_put _ ()) fun label => ?_
      exact says_bind (says_put _ ()) fun _ => says_bind (says_put _ ()) fun _ => ih label

theorem says_fileLabel (text : String) (populate : Bool) : Says (·.fileLabel text populate) := by
  refine says_onLookup (text ++ ";sourcefile") says_pure fun label => ?_
  cases populate with
  | false => exact says_pure label
  | true =>
    exact says_bind (says_put _ ()) fun _ => says_bind (says_enterFolders label _) fun _ =>
      says_pure label

end Writer

namespace FileWriter

/-- Calls the writer and leaves the target alone. -/
def onWriter {α : Type} (w : FileWriter) (f : Writer → α × Writer) : α × FileWriter :=
  let (a, writer) := f w.writer
  (a, { w with writer })

/-- The answer, the labels and the target behind the function and the lines that it says depend on
the labels and the target alone. -/
def Says {α : Type} (f : FileWriter → α × FileWriter) : Prop :=
  ∀ labels target, ∃ (a : α) (ls : List Line) (labels' : LabelTable) (target' : Target),
    ∀ sink failure, f ⟨⟨labels, sink, failure⟩, target⟩ =
      (a, ⟨{ ls.foldl Writer.put ⟨labels, sink, failure⟩ with labels := labels' }, target'⟩)

variable {α β : Type}

theorem says_pure (a : α) : Says fun w => (a, w) :=
  fun labels target => ⟨a, [], labels, target, fun _ _ => rfl⟩

theorem says_at {f : FileWriter → α × FileWriter}
    (h : ∀ labels target, ∃ g, Says g ∧
      ∀ sink failure, f ⟨⟨labels, sink, failure⟩, target⟩ = g ⟨⟨labels, sink, failure⟩, target⟩) :
    Says f := by
  intro labels target
  obtain ⟨g, hg, heq⟩ := h labels target
  obtain ⟨a, ls, labels', target', ha⟩ := hg labels target
  exact ⟨a, ls, labels', target', fun sink failure => (heq sink failure).trans (ha sink failure)⟩

theorem says_onWriter {f : Writer → α × Writer} (hf : Writer.Says f) : Says (·.onWriter f) := by
  intro labels target
  obtain ⟨a, ls, labels', ha⟩ := hf labels
  exact ⟨a, ls, labels', target, fun sink failure => by simp only [onWriter, ha]⟩

theorem says_map {f : FileWriter → α × FileWriter} (hf : Says f) (k : α → β) :
    Says fun w => (f w).map k id := by
  intro labels target
  obtain ⟨a, ls, labels', target', ha⟩ := hf labels target
  exact ⟨k a, ls, labels', target', fun sink failure => congrArg (Prod.map k id) (ha sink failure)⟩

/-- One function after the other, the answers of which are not asked for. -/
theorem says_then {f g : FileWriter → FileWriter} (hf : Says fun w => ((), f w))
    (hg : Says fun w => ((), g w)) : Says fun w => ((), g (f w)) := by
  intro labels target
  obtain ⟨u, ls, labels', target', ha⟩ := hf labels target
  obtain ⟨u', ms, labels'', target'', hb⟩ := hg labels' target'
  refine ⟨u', ls ++ ms, labels'', target'', fun sink failure => ?_⟩
  have hfirst := congrArg Prod.snd (ha sink failure)
  have hsecond := hb (ls.foldl Writer.put ⟨labels, sink, failure⟩).sink
    (ls.foldl Writer.put ⟨labels, sink, failure⟩).failure
  dsimp only at hfirst hsecond ⊢
  rw [hfirst, hsecond, List.foldl_append]
  have hputs := Writer.puts_with_labels (ls.foldl Writer.put ⟨labels, sink, failure⟩) labels' ms
  rw [hputs]

theorem locationIn_eq (w : FileWriter) (file : Label) (r : Region) :
    w.locationIn file r = w.onWriter (·.described (r.key file) fun label =>
      .locationsDefault label file r.startLine r.startColumn r.endLine r.endColumn) := by
  rw [locationIn, onWriter, Writer.described, Writer.onLookup]
  rcases w.writer.lookup (r.key file) with ⟨label | label, v⟩ <;> rfl

theorem says_locationIn (file : Label) (r : Region) : Says (·.locationIn file r) := by
  simp only [locationIn_eq]
  exact says_onWriter (Writer.says_described _ _)

theorem says_wholeFile : Says wholeFile :=
  fun labels target => says_locationIn target.label .whole labels target

theorem unknownFile_eq (w : FileWriter) : w.unknownFile =
    w.onWriter (·.described ";sourcefile" fun label => .files label "" "" "" 0) := by
  rw [unknownFile, onWriter, Writer.described, Writer.onLookup]
  rcases w.writer.lookup ";sourcefile" with ⟨label | label, v⟩ <;> rfl

theorem says_unknownLocation : Says unknownLocation := by
  have hsays := says_onWriter (Writer.says_bind
    (Writer.says_described ";sourcefile" (.files · "" "" "" 0)) fun file =>
      Writer.says_described (Region.whole.key file) (.locationsDefault · file 0 0 0 0))
  refine says_at fun labels target => ⟨_, hsays, fun sink failure => ?_⟩
  rw [unknownLocation, unknownFile_eq]
  exact locationIn_eq _ _ _

/-- The place of a span, and the writer as it was where there is none. -/
def locate (w : FileWriter) (span : Span) : Option Label × FileWriter :=
  match w.location? span with
  | some (label, w) => (some label, w)
  | none => (none, w)

theorem says_locate (span : Span) : Says (·.locate span) := by
  refine says_at fun labels target => ?_
  rcases target with ⟨path, file, _ | lines⟩
  · exact ⟨_, says_map says_wholeFile some, fun _ _ => rfl⟩
  · by_cases hspan : span.isUndefined = true
    · refine ⟨_, says_map says_unknownLocation some, fun _ _ => ?_⟩
      simp only [locate, location?, if_pos hspan]
      rfl
    · cases hregion : Region.ofSpan? lines span with
      | none =>
        refine ⟨_, says_pure none, fun _ _ => ?_⟩
        simp only [locate, location?, if_neg hspan, hregion, Option.map_none]
      | some region =>
        refine ⟨_, says_map (says_locationIn file region) some, fun _ _ => ?_⟩
        simp only [locate, location?, if_neg hspan, hregion, Option.map_some]
        rfl

theorem says_retarget (path : String) (lines : Option LineTable) (populate : Bool) :
    Says (·.retarget path lines populate) := by
  intro labels target
  obtain ⟨label, ls, labels', hlabel⟩ := Writer.says_fileLabel path populate labels
  exact ⟨target, ls, labels', { path, label, lines }, fun sink failure => by
    simp only [retarget, hlabel]⟩

def SameNames (w v : FileWriter) : Prop :=
  w.writer.labels = v.writer.labels ∧ w.target = v.target

section

variable {f : FileWriter → α × FileWriter} {w v : FileWriter}

theorem Says.same (hf : Says f) (h : w.SameNames v) :
    (f w).1 = (f v).1 ∧ (f w).2.SameNames (f v).2 := by
  rcases w with ⟨⟨labels, sink, failure⟩, target⟩
  rcases v with ⟨⟨_, sink', failure'⟩, _⟩
  obtain ⟨rfl, rfl⟩ := h
  obtain ⟨a, ls, labels', target', ha⟩ := hf labels target
  rw [ha, ha]
  exact ⟨rfl, rfl, rfl⟩

theorem Says.unfailing (hf : Says f) (h : v.writer.Unfailing) : (f v).2.writer.Unfailing := by
  obtain ⟨a, ls, labels', target', ha⟩ := hf v.writer.labels v.target
  have hv : f v = _ := ha v.writer.sink v.writer.failure
  rw [hv]
  exact Writer.puts_unfailing h ls

end

end FileWriter

/-! ## Calls -/

/-- What a writer is called for. One that has no target yet may be given any, since only a call
that needs one reads it. -/
inductive Call where
  | comment (text : String)
  | fact (f : Fact)
  | labelFor (key : String)
  | lookup (key : String)
  | existing (key : String)
  | fresh
  | sourceFile (path : String)
  | retarget (path : String) (lines : Option LineTable) (populate : Bool)
  | restore (target : Target)
  | locationIn (file : Label) (region : Region)
  | wholeFile
  | unknownLocation
  | location (span : Span)
  | hasFailed
  | flush

inductive Answer where
  | done
  | label (label : Label)
  | lookup (found : Lookup)
  | label? (label : Option Label)
  | target (target : Target)
  | failed (failed : Bool)
  | flushed (outcome : Except SinkError Unit)

def Answer.ofSink : Answer → Bool
  | .failed _ => true
  | .flushed _ => true
  | _ => false

/-- The answers are the same, or both tell of the sink. -/
def Answer.Alike (a b : Answer) : Prop := a = b ∨ a.ofSink = true ∧ b.ofSink = true

namespace Call

def run (w : FileWriter) : Call → Answer × FileWriter
  | .comment text => w.onWriter fun v => (.done, v.comment text)
  | .fact f => w.onWriter fun v => (.done, v.fact f)
  | .labelFor key => (w.onWriter (·.labelFor key)).map .label id
  | .lookup key => (w.onWriter (·.lookup key)).map .lookup id
  | .existing key => (.label? (w.writer.labels.find? key), w)
  | .fresh => (w.onWriter (·.fresh)).map .label id
  | .sourceFile path => (w.onWriter (·.sourceFile path)).map .label id
  | .retarget path lines populate => (w.retarget path lines populate).map .target id
  | .restore target => (.done, w.restore target)
  | .locationIn file region => (w.locationIn file region).map .label id
  | .wholeFile => w.wholeFile.map .label id
  | .unknownLocation => w.unknownLocation.map .label id
  | .location span => (w.locate span).map .label? id
  | .hasFailed => (.failed w.writer.hasFailed, w)
  | .flush => (w.onWriter (·.flush)).map .flushed id

def after (calls : List Call) (w : FileWriter) : FileWriter :=
  calls.foldl (fun w call => (call.run w).2) w

/-- What calls are answered, one after the other. -/
def answers : List Call → FileWriter → List Answer
  | [], _ => []
  | call :: rest, w => (call.run w).1 :: answers rest (call.run w).2

/-- Calls that tell nothing of the sink and do not flush it. -/
def aboutLabels : Call → Prop
  | .hasFailed => False
  | .flush => False
  | _ => True

theorem says_run {call : Call} (h : call.aboutLabels) : FileWriter.Says fun w => call.run w := by
  cases call with
  | comment text => exact FileWriter.says_onWriter (Writer.says_put _ _)
  | fact f => exact FileWriter.says_onWriter (Writer.says_put _ _)
  | labelFor key =>
    exact FileWriter.says_map (FileWriter.says_onWriter (Writer.says_labelFor key)) _
  | lookup key => exact FileWriter.says_map (FileWriter.says_onWriter (Writer.says_lookup key)) _
  | existing key =>
    exact fun labels target => ⟨.label? (labels.find? key), [], labels, target, fun _ _ => rfl⟩
  | fresh => exact FileWriter.says_map (FileWriter.says_onWriter Writer.says_fresh) _
  | sourceFile path =>
    exact FileWriter.says_map (FileWriter.says_onWriter (Writer.says_fileLabel path true)) _
  | retarget path lines populate =>
    exact FileWriter.says_map (FileWriter.says_retarget path lines populate) _
  | restore target => exact fun labels _ => ⟨.done, [], labels, target, fun _ _ => rfl⟩
  | locationIn file region =>
    exact FileWriter.says_map (FileWriter.says_locationIn file region) _
  | wholeFile => exact FileWriter.says_map FileWriter.says_wholeFile _
  | unknownLocation => exact FileWriter.says_map FileWriter.says_unknownLocation _
  | location span => exact FileWriter.says_map (FileWriter.says_locate span) _
  | hasFailed => cases h
  | flush => cases h

variable {w v : FileWriter} {calls since : List Call}

theorem flush_labels (w : FileWriter) :
    (flush.run w).2.writer.labels = w.writer.labels := by
  rcases w with ⟨⟨labels, sink, _ | error⟩, target⟩ <;> rfl

theorem run_same (call : Call) (h : w.SameNames v) :
    (call.run w).1.Alike (call.run v).1 ∧ (call.run w).2.SameNames (call.run v).2 := by
  by_cases habout : call.aboutLabels
  · obtain ⟨hanswer, hnames⟩ := (says_run habout).same h
    exact ⟨.inl hanswer, hnames⟩
  · cases call with
    | hasFailed => exact ⟨.inr ⟨rfl, rfl⟩, h⟩
    | flush =>
      refine ⟨.inr ⟨rfl, rfl⟩, ?_, h.2⟩
      exact (flush_labels w).trans (h.1.trans (flush_labels v).symm)
    | _ => exact absurd trivial habout

theorem run_unfailing (call : Call) (h : v.writer.Unfailing) :
    (call.run v).2.writer.Unfailing := by
  by_cases habout : call.aboutLabels
  · exact (says_run habout).unfailing h
  · cases call with
    | hasFailed => exact h
    | flush =>
      rcases v with ⟨⟨labels, sink, failure⟩, target⟩
      obtain ⟨hsink, rfl⟩ : sink.NeverRefuses ∧ failure = none := h
      exact ⟨fun offered bytes => (congrFun₂ (Sink.flush_refuses sink) offered bytes).trans
        (hsink offered bytes), rfl⟩
    | _ => exact absurd trivial habout

theorem flush_failure (w : FileWriter) : (flush.run w).2.writer.failure = none := by
  rcases w with ⟨⟨labels, sink, _ | error⟩, target⟩ <;> rfl

theorem after_append (before since : List Call) (w : FileWriter) :
    after (before ++ since) w = after since (after before w) := List.foldl_append

theorem answers_alike (h : w.SameNames v) (calls : List Call) :
    List.Forall₂ Answer.Alike (answers calls w) (answers calls v) := by
  induction calls generalizing w v with
  | nil => exact .nil
  | cons call calls ih => exact .cons (run_same call h).1 (ih (run_same call h).2)

theorem after_same (h : w.SameNames v) (calls : List Call) :
    (after calls w).SameNames (after calls v) := by
  induction calls generalizing w v with
  | nil => exact h
  | cons call calls ih => exact ih (run_same call h).2

theorem after_unfailing (h : v.writer.Unfailing) (calls : List Call) :
    (after calls v).writer.Unfailing := by
  induction calls generalizing v with
  | nil => exact h
  | cons call calls ih => exact ih (run_unfailing call h)

theorem after_flushed (hw : w.writer.failure = none) {before : List Call}
    (h : before = [] ∨ ∃ earlier, before = earlier ++ [.flush]) :
    (after before w).writer.failure = none := by
  rcases h with rfl | ⟨earlier, rfl⟩
  · exact hw
  · rw [after_append]
    exact flush_failure _

theorem says_after (h : ∀ call ∈ since, call ≠ .flush) :
    FileWriter.Says fun w => ((), after since w) := by
  induction since with
  | nil => exact FileWriter.says_pure ()
  | cons call rest ih =>
    obtain ⟨hcall, hrest⟩ := List.forall_mem_cons.mp h
    -- The question whether something failed has an answer of its own, but says nothing.
    refine FileWriter.says_then (g := after rest) ?_ (ih hrest)
    by_cases habout : call.aboutLabels
    · exact FileWriter.says_map (says_run habout) fun _ => ()
    · cases call with
      | hasFailed => exact FileWriter.says_pure ()
      | flush => exact absurd rfl hcall
      | _ => exact absurd trivial habout

/-- With the same labels and target, the same lines are put between two flushes. -/
theorem same_said (h : ∀ call ∈ since, call ≠ .flush) (hnames : w.SameNames v) :
    ∃ said : List Line,
      (after since w).writer.failure = (said.foldl Writer.put w.writer).failure ∧
      (after since w).writer.sink = (said.foldl Writer.put w.writer).sink ∧
      (after since v).writer.sink = (said.foldl Writer.put v.writer).sink := by
  rcases w with ⟨⟨labels, sink, failure⟩, target⟩
  rcases v with ⟨⟨_, sink', failure'⟩, _⟩
  obtain ⟨rfl, rfl⟩ := hnames
  obtain ⟨u, said, labels', target', hsaid⟩ := says_after h labels target
  have hw := congrArg Prod.snd (hsaid sink failure)
  have hv := congrArg Prod.snd (hsaid sink' failure')
  dsimp only at hw hv
  rw [hw, hv]
  exact ⟨said, rfl, rfl, rfl⟩

/-- Calls behind a flush, and the state that they leave. Labels do not depend on the sink. It is
offered what is said up to the first chunk that it refuses, and from there on the writer has failed
until a flush, which tells of this refusal. If there is none, the sink is flushed, and the answer is
what the sink says to that. -/
theorem refused_until_flush (sink : Sink) {reliable : Sink} (hreliable : reliable.NeverRefuses)
    (labels : LabelTable) (target : Target) {before since : List Call}
    (hbefore : before = [] ∨ ∃ earlier, before = earlier ++ [.flush])
    (hsince : ∀ call ∈ since, call ≠ .flush) :
    let w : FileWriter := ⟨⟨labels, sink, none⟩, target⟩
    let v : FileWriter := ⟨⟨labels, reliable, none⟩, target⟩
    let now := after (before ++ since) w
    List.Forall₂ Answer.Alike (answers (before ++ since) w) (answers (before ++ since) v) ∧
    ∃ (said : List Line) (failure : Option SinkError),
      (after (before ++ since) v).writer.sink.chunks =
        (after before v).writer.sink.chunks ++ said.flatMap Line.chunks ∧
      (after before w).writer.sink.Receives (said.flatMap Line.chunks) failure now.writer.sink ∧
      (hasFailed.run now).1 = .failed failure.isSome ∧
      match failure with
      | some error => (flush.run now).1 = .flushed (.error error) ∧
          (flush.run now).2.writer.sink = now.writer.sink
      | none => (flush.run now).1 = .flushed now.writer.sink.flush.1 ∧
          (flush.run now).2.writer.sink = now.writer.sink.flush.2 := by
  intro w v now
  have hnames : w.SameNames v := ⟨rfl, rfl⟩
  refine ⟨answers_alike hnames _, ?_⟩
  have hstart : (after before w).writer.failure = none := after_flushed rfl hbefore
  have hunfailing : (after before v).writer.Unfailing := after_unfailing ⟨hreliable, rfl⟩ before
  obtain ⟨said, hfailure, hsink, hreached⟩ := same_said hsince (after_same hnames before)
  rw [← after_append] at hfailure hsink hreached
  refine ⟨said, now.writer.failure, ?_, ?_, rfl, ?_⟩
  · rw [hreached]
    exact Writer.puts_took (Writer.puts_unfailing hunfailing said).2
  · rw [show now.writer.failure = _ from hfailure, show now.writer.sink = _ from hsink]
    exact Writer.puts_receive hstart said
  · generalize now = now
    rcases now with ⟨⟨labels, sink, _ | error⟩, target⟩ <;> exact ⟨rfl, rfl⟩

/-- A newline is refused behind a flush, so the label behind it is handed out and not defined. -/
theorem refused_until_flush_newline :
    let sink : Sink := { refuses := fun offered _ => if offered = 3 then some Sink.full else none }
    let w : FileWriter := ⟨⟨.empty, sink, none⟩, default⟩
    let v : FileWriter := ⟨⟨.empty, .unbounded, none⟩, default⟩
    let before : List Call := [.labelFor "a", .flush]
    let since : List Call := [.comment "b", .labelFor "c", .labelFor "a"]
    List.Forall₂ Answer.Alike (answers (before ++ since) w) (answers (before ++ since) v) ∧
    answers since (after before w) =
      [.done, .label (.number 101), .label (.number 100)] ∧
    (∃ rest, rest ≠ [] ∧ (after (before ++ since) v).writer.sink.chunks =
      (after (before ++ since) w).writer.sink.chunks ++ rest) ∧
    (flush.run (after (before ++ since) w)).1 = .flushed (.error Sink.full) := by
  intro sink w v before since
  have hreliable : Sink.unbounded.NeverRefuses := fun _ _ => rfl
  have hbefore : before = [] ∨ ∃ earlier, before = earlier ++ [.flush] :=
    .inr ⟨[.labelFor "a"], rfl⟩
  have hsince : ∀ call ∈ since, call ≠ .flush := by simp [since]
  obtain ⟨halike, said, failure, hreached, hreceives, hfailed, -⟩ :=
    refused_until_flush sink hreliable .empty default hbefore hsince
  refine ⟨halike, rfl, ?_, rfl⟩
  obtain ⟨took, rest, hsaid, htook, hall⟩ := hreceives.taken
  refine ⟨rest, fun hrest => ?_, ?_⟩
  · rw [hall.mpr hrest] at hfailed
    cases hfailed
  · rw [hreached, hsaid, htook, List.append_assoc]
    rfl

/-- No chunk was refused, and still a flush may fail: the sink refused to be flushed. -/
theorem flush_refused_of_nothing_failed :
    let sink : Sink := { refuses := fun _ _ => none, refusesFlush := fun _ => some Sink.full }
    let now : FileWriter := after [.comment "a"] ⟨⟨.empty, sink, none⟩, default⟩
    sink.NeverRefuses ∧ (hasFailed.run now).1 = .failed false ∧
      (flush.run now).1 = .flushed (.error Sink.full) :=
  ⟨fun _ _ => rfl, rfl, rfl⟩

end Call

end IrFacts.Trap
