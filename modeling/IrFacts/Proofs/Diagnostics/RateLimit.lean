import IrFacts.Proofs.Run.Oblivious
import IrFacts.Proofs.Run.ScriptedCode
import IrFacts.Proofs.Run.Sink

/-!
# Rate limits do not influence the facts

A limit decides which diagnostics are written and nothing else: the place of a
diagnostic is labelled before the limit is asked. Two extractions that differ in
their limits therefore number the same labels, schedule the same classes and
count the same errors, and what they write differs in diagnostics only.
-/

set_option autoImplicit false

namespace IrFacts

namespace Trap

def Line.isDiagnostic : Line → Bool
  | .fact f => f.relation = "diagnostics"
  | _ => false

namespace Sink

/-- The lines that were taken and are no diagnostics. -/
def facts (s : Sink) : List Line := s.lines.filter (!·.isDiagnostic)

end Sink

namespace Writer

def Unfailing (w : Writer) : Prop := w.sink.NeverRefuses ∧ w.failure = none

theorem puts_unfailing {w : Writer} (h : w.Unfailing) (ls : List Line) :
    (ls.foldl put w).Unfailing := by
  induction ls generalizing w with
  | nil => exact h
  | cons l ls ih => exact ih (put_never h.1 h.2 l)

theorem puts_lines {w : Writer} (h : w.Unfailing) (ls : List Line) :
    (ls.foldl put w).sink.lines = w.sink.lines ++ ls := by
  rw [Sink.lines, puts_took (puts_unfailing h ls).2, List.filterMap_append]
  exact congrArg (w.sink.lines ++ ·) (lines_pairs ls)

theorem puts_whole {w : Writer} (h : w.Unfailing) (hwhole : w.sink.Whole) (ls : List Line) :
    (ls.foldl put w).sink.Whole := by
  rw [Sink.Whole] at hwhole ⊢
  rw [puts_lines h, puts_took (puts_unfailing h ls).2, hwhole, List.flatMap_append]

end Writer

end Trap

namespace Session

theorem Wrote.unfailing {s s' : Session} {ls : List Trap.Line} (h : s.Wrote s' ls)
    (hs : s.file.writer.Unfailing) : s'.file.writer.Unfailing := by
  rw [h]
  exact Trap.Writer.puts_unfailing hs ls

theorem Wrote.facts {s s' : Session} {ls : List Trap.Line} (h : s.Wrote s' ls)
    (hs : s.file.writer.Unfailing) :
    s'.file.writer.sink.facts = s.file.writer.sink.facts ++ ls.filter (!·.isDiagnostic) := by
  have hlines : s'.file.writer.sink.lines = s.file.writer.sink.lines ++ ls := by
    rw [h]
    exact Trap.Writer.puts_lines hs ls
  rw [Trap.Sink.facts, hlines, List.filter_append]
  rfl

theorem Wrote.whole {s s' : Session} {ls : List Trap.Line} (h : s.Wrote s' ls)
    (hs : s.file.writer.Unfailing) (hwhole : s.file.writer.sink.Whole) :
    s'.file.writer.sink.Whole := by
  rw [h]
  exact Trap.Writer.puts_whole hs hwhole ls

/-- The same sessions but for their limits and the diagnostics they wrote. -/
structure SameUpToLimit (s t : Session) : Prop extends s.Resembles t where
  queue : s.queue = t.queue
  dependencies : s.dependencies = t.dependencies
  counts : s.counter.counts = t.counter.counts
  errors : s.counter.errors = t.counter.errors
  facts : s.file.writer.sink.facts = t.file.writer.sink.facts
  unfailing : s.file.writer.Unfailing ∧ t.file.writer.Unfailing
  whole : s.file.writer.sink.Whole ∧ t.file.writer.sink.Whole

end Session

namespace Event

theorem facts_diagnostic (c : Counter) (problem : Problem) (location : Label) :
    (diagnostic c problem location).filter (!·.isDiagnostic) = [] := by
  unfold diagnostic
  cases (c.accept problem.site).1 <;> rfl

/-- What an event writes besides diagnostics depends on the labels only. -/
theorem facts_lines (e : Event) {s t : Session} (h : s.table = t.table) :
    (e.lines s).filter (!·.isDiagnostic) = (e.lines t).filter (!·.isDiagnostic) := by
  cases e with
  | report problem location => simp only [lines, facts_diagnostic]
  | lookup key asker => simp only [lines, h]
  | fresh => simp only [lines, h]
  | _ => rfl

theorem report_counts {c d : Counter} (w v : Trap.Writer) (problem : Problem) (location : Label)
    (hcounts : c.counts = d.counts) (herrors : c.errors = d.errors) :
    (c.report w problem.site problem.severity problem.message location).1.counts =
        (d.report v problem.site problem.severity problem.message location).1.counts ∧
      (c.report w problem.site problem.severity problem.message location).1.errors =
        (d.report v problem.site problem.severity problem.message location).1.errors := by
  rw [report_eq, report_eq]
  simp [Counter.accept, hcounts, herrors]

theorem step_counter (e : Event) {s t : Session} (hcounts : s.counter.counts = t.counter.counts)
    (herrors : s.counter.errors = t.counter.errors) :
    (e.step s).counter.counts = (e.step t).counter.counts ∧
      (e.step s).counter.errors = (e.step t).counter.errors := by
  cases e with
  | report problem location => exact report_counts _ _ _ _ hcounts herrors
  | _ => exact ⟨hcounts, herrors⟩

end Event

namespace Session

theorem sameUpToLimit_blind : Blind SameUpToLimit where
  resembles h := h.toResembles
  step {s t} e h := by
    have hs := Event.step_wrote e s
    have ht := Event.step_wrote e t
    obtain ⟨hcounts, herrors⟩ := Event.step_counter e h.counts h.errors
    exact {
      toResembles := e.resembles_step h.toResembles
      queue := by cases e <;> first | exact h.queue | simp only [Event.step, h.queue]
      dependencies := e.dependencies_step h.dependencies
      counts := hcounts
      errors := herrors
      facts := by
        rw [hs.facts h.unfailing.1, ht.facts h.unfailing.2, h.facts, Event.facts_lines e h.table]
      unfailing := ⟨hs.unfailing h.unfailing.1, ht.unfailing h.unfailing.2⟩
      whole := ⟨hs.whole h.unfailing.1 h.whole.1, ht.whole h.unfailing.2 h.whole.2⟩ }

/-- The outcomes of two extractions are the same once diagnostics are taken out
of the texts, which are the lines that were taken, each with its newline. -/
structure SameButDiagnostics (s t : Session) : Prop where
  text : s.file.writer.text =
      String.join (s.file.writer.sink.lines.map fun l => l.render ++ "\n") ∧
    t.file.writer.text = String.join (t.file.writer.sink.lines.map fun l => l.render ++ "\n")
  facts : s.file.writer.sink.lines.filter (!·.isDiagnostic) =
    t.file.writer.sink.lines.filter (!·.isDiagnostic)
  errors : s.counter.errors = t.counter.errors
  queue : s.queue = t.queue
  openLoops : s.openLoops = t.openLoops
  dependencies : s.dependencies = t.dependencies

theorem SameUpToLimit.sameButDiagnostics {s t : Session} (h : s.SameUpToLimit t) :
    s.SameButDiagnostics t where
  text := ⟨h.whole.1.text, h.whole.2.text⟩
  facts := h.facts
  errors := h.errors
  queue := h.queue
  openLoops := h.openLoops
  dependencies := h.dependencies

/-- The start of an extraction with a fresh queue and a fresh counter. -/
def limited (file : Trap.FileWriter) (dependencies : Option (List DeclId)) (limit : Nat) :
    Session :=
  { file, counter := { limit }, queue := .empty, dependencies }

end Session

namespace Extract

theorem Alike.mono {α : Type} {R S : Session → Session → Prop} (hRS : ∀ s t, R s t → S s t)
    {r q : Except Stop (α × Session)} (h : Alike R r q) : Alike S r q := by
  cases h with
  | stopped e => exact .stopped e
  | ended a h => exact .ended a (hRS _ _ h)

theorem Oblivious.limit {α : Type} {p : Program} {action : Extract α} (h : Oblivious p action)
    {file : Trap.FileWriter} (hfile : file.writer.Unfailing) (hwhole : file.writer.sink.Whole)
    (dependencies : Option (List DeclId)) (m n : Nat) :
    Alike Session.SameButDiagnostics (action p (.limited file dependencies m))
      (action p (.limited file dependencies n)) := by
  have hstart : (Session.limited file dependencies m).SameUpToLimit
      (.limited file dependencies n) :=
    ⟨⟨rfl, rfl, rfl, rfl, rfl⟩, rfl, rfl, rfl, rfl, rfl, ⟨hfile, hfile⟩, ⟨hwhole, hwhole⟩⟩
  exact (h _ Session.sameUpToLimit_blind _ _ hstart).mono fun _ _ h => h.sameButDiagnostics

end Extract

theorem Trap.FileWriter.ofPath_unfailing {w : Trap.Writer} (hw : w.Unfailing)
    (hwhole : w.sink.Whole) (path : String) (lines : Option LineTable) :
    (ofPath w path lines).writer.Unfailing ∧ (ofPath w path lines).writer.sink.Whole := by
  let s : Session := { file := { writer := w, target := default }, counter := {}, queue := .empty }
  have hs : s.SameUpToLimit s :=
    ⟨.refl s, rfl, rfl, rfl, rfl, rfl, ⟨hw, hw⟩, ⟨hwhole, hwhole⟩⟩
  have hscripted : Extract.Scripted (fun _ => True) default
      (Extract.onWriter (·.fileLabel path true)) :=
    Extract.scripted_fileLabel true (fun _ _ => trivial) fun _ _ => trivial
  have hlabel : Extract.Alike Session.SameUpToLimit
      (.ok ((w.fileLabel path true).1, s.mapWriter fun _ => (w.fileLabel path true).2))
      (.ok ((w.fileLabel path true).1, s.mapWriter fun _ => (w.fileLabel path true).2)) :=
    hscripted.oblivious _ Session.sameUpToLimit_blind s s hs
  cases hlabel with
  | ended _ h => exact ⟨h.unfailing.1, h.whole.1⟩

namespace Walk

open Extract

/-- Whatever the limits are, a file is extracted to the same facts, errors, queue
and loops, and so is a class, together with what it depends on. -/
theorem limit_indifferent (p : Program) (typeFuel walkFuel : Nat) {file : Trap.FileWriter}
    (hfile : file.writer.Unfailing) (hwhole : file.writer.sink.Whole) (m n : Nat) :
    (∀ id, Alike Session.SameButDiagnostics
      ((walk (projection typeFuel) walkFuel).extractFile id p (.limited file none m))
      ((walk (projection typeFuel) walkFuel).extractFile id p (.limited file none n))) ∧
    ∀ id, Alike Session.SameButDiagnostics
      ((walk (projection typeFuel) walkFuel).classDeclaration id p
        (.limited file (some []) m))
      ((walk (projection typeFuel) walkFuel).classDeclaration id p
        (.limited file (some []) n)) := by
  have hwalk := keepsPlain_walk p typeFuel walkFuel
  constructor
  · intro id
    exact (plain_extractFile hwalk id).oblivious.limit hfile hwhole none m n
  · intro id
    exact (plain_classDeclaration hwalk id).oblivious.limit hfile hwhole (some []) m n

/-- A file that lists two declarations which its program does not have. -/
def missingTwo : Program :=
  { files := #[{ path := "a.kt", declarations := [⟨0⟩, ⟨1⟩] }], declarations := #[]
    classIndex := [] }

/-- The number of lines that are written with a limit. -/
def missingTwoLines (limit : Nat) : Option Nat :=
  ((walk (projection 1) 1).extractFile ⟨0⟩ missingTwo
    (.limited (.source (.ofSink .unbounded) "a.kt" .single) none limit)).toOption.map
      fun r => r.2.file.writer.sink.lines.length

/-- A limit of one keeps the second of two diagnostics from being written. -/
theorem limit_indifferent_missingTwo :
    (Trap.FileWriter.source (.ofSink .unbounded) "a.kt" .single).writer.Unfailing ∧
    (Trap.FileWriter.source (.ofSink .unbounded) "a.kt" .single).writer.sink.Whole ∧
    missingTwoLines 0 = some 17 ∧ missingTwoLines 1 = some 16 ∧
    Alike Session.SameButDiagnostics
      ((walk (projection 1) 1).extractFile ⟨0⟩ missingTwo
        (.limited (.source (.ofSink .unbounded) "a.kt" .single) none 0))
      ((walk (projection 1) 1).extractFile ⟨0⟩ missingTwo
        (.limited (.source (.ofSink .unbounded) "a.kt" .single) none 1)) := by
  have hnew : (Trap.Writer.ofSink .unbounded).Unfailing := ⟨fun _ _ => rfl, rfl⟩
  obtain ⟨hfile, hwhole⟩ := Trap.FileWriter.ofPath_unfailing hnew rfl "a.kt" (some .single)
  refine ⟨hfile, hwhole, by decide +kernel, by decide +kernel, ?_⟩
  exact (limit_indifferent missingTwo 1 1 hfile hwhole 0 1).1 ⟨0⟩

end Walk

end IrFacts
