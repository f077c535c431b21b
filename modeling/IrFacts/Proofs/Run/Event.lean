import IrFacts.Extraction.Session

/-!
# Events of a session

All that an extraction does to its session it does in small events. Each event
is a function of the session, and a completed extraction is the run of a list
of events. What a list of events offers to the sink is read off beside it, so
that lines can be reasoned about without the sink.
-/

set_option autoImplicit false

namespace IrFacts

namespace Session

abbrev table (s : Session) : LabelTable := s.file.writer.labels

def mapWriter (s : Session) (f : Trap.Writer → Trap.Writer) : Session :=
  { s with file := { s.file with writer := f s.file.writer } }

end Session

inductive Event where
  | fact (f : Trap.Fact)
  /-- Asks for the label of a key, to project the class `asker` if there is one. -/
  | lookup (key : String) (asker : Option DeclId)
  | fresh
  | report (problem : Problem) (location : Label)
  /-- Schedules a class, as the owner of `function` if there is one. -/
  | schedule (id : DeclId) (function : Option DeclId)
  | target (t : Trap.Target)
  | named (id : DeclId) (label : Label)
  | enter (id : LoopId) (label : Label)
  | leave (id : LoopId)
  | current (function : Option DeclId)

namespace Event

def step : Event → Session → Session
  | .fact f, s => s.mapWriter (·.fact f)
  | .lookup key _, s => s.mapWriter fun w => (w.lookup key).2
  | .fresh, s => s.mapWriter fun w => w.fresh.2
  | .report problem location, s =>
    let (counter, writer) :=
      s.counter.report s.file.writer problem.site problem.severity problem.message location
    { s with counter, file := { s.file with writer } }
  | .schedule id _, s =>
    { s with
      dependencies := s.dependencies.map fun ids => if id ∈ ids then ids else ids ++ [id]
      queue := (s.queue.schedule id).2 }
  | .target t, s => { s with file := s.file.restore t }
  | .named id label, s => { s with locals := (id, label) :: s.locals }
  | .enter id label, s =>
    { s with openLoops := (id, label) :: s.openLoops.filter (·.1 ≠ id) }
  | .leave id, s => { s with openLoops := s.openLoops.filter (·.1 ≠ id) }
  | .current f, s => { s with currentFunction := f }

def run : List Event → Session → Session
  | [], s => s
  | e :: es, s => run es (e.step s)

theorem run_append (es fs : List Event) (s : Session) :
    run (es ++ fs) s = run fs (run es s) := by
  induction es generalizing s with
  | nil => rfl
  | cons e es ih => exact ih _

/-- What is said of a problem, unless its site has used up its limit. -/
def diagnostic (c : Counter) (problem : Problem) (location : Label) : List Trap.Line :=
  let say (full : String) : List Trap.Line :=
    [.fact (.diagnostics .star Trap.diagnosticSource problem.severity.code "" problem.message
      full location)]
  match (c.accept problem.site).1 with
  | .suppressed => []
  | .limitReached => say (problem.message ++ Counter.limitNotice problem.site)
  | .log => say problem.message

/-- The lines that an event offers to the sink. -/
def lines : Event → Session → List Trap.Line
  | .fact f, _ => [.fact f]
  | .lookup key _, s =>
    match s.table.find? key with
    | some _ => []
    | none => [.define (.number s.table.next) key]
  | .fresh, s => [.fresh (.number s.table.next)]
  | .report problem location, s => diagnostic s.counter problem location
  | _, _ => []

def linesOf : List Event → Session → List Trap.Line
  | [], _ => []
  | e :: es, s => e.lines s ++ linesOf es (e.step s)

end Event

/-! ## What reaches the sink -/

namespace Trap.Writer

theorem put_labels (w : Writer) (l : Line) : (w.put l).labels = w.labels := by
  unfold put
  repeat' split
  all_goals rfl

theorem put_with_labels (w : Writer) (t : LabelTable) (l : Line) :
    { w with labels := t }.put l = { w.put l with labels := t } := by
  rcases w with ⟨labels, sink, failure⟩
  cases failure with
  | some error => rfl
  | none =>
    simp only [put]
    rcases sink.offer (.line l) with ⟨_ | _, sink⟩
    · rfl
    · dsimp only
      rcases sink.offer .newline with ⟨_ | _, _⟩ <;> rfl

theorem puts_labels (w : Writer) (ls : List Line) : (ls.foldl put w).labels = w.labels := by
  induction ls generalizing w with
  | nil => rfl
  | cons l ls ih => rw [List.foldl_cons, ih, put_labels]

theorem puts_with_labels (w : Writer) (t : LabelTable) (ls : List Line) :
    ls.foldl put { w with labels := t } = { ls.foldl put w with labels := t } := by
  induction ls generalizing w with
  | nil => rfl
  | cons l ls ih => rw [List.foldl_cons, put_with_labels, ih]; rfl

end Trap.Writer

namespace Session

/-- Between `s` and `s'` the lines `ls` were put, and nothing else. -/
def Wrote (s s' : Session) (ls : List Trap.Line) : Prop :=
  s'.file.writer = { ls.foldl Trap.Writer.put s.file.writer with labels := s'.table }

theorem wrote_nil {s s' : Session} (h : s'.file.writer = s.file.writer) : s.Wrote s' [] := by
  simp [Wrote, table, h]

theorem Wrote.trans {s t u : Session} {ls ms : List Trap.Line} (h : s.Wrote t ls)
    (k : t.Wrote u ms) : s.Wrote u (ls ++ ms) := by
  unfold Wrote at *
  rw [k, h, List.foldl_append, Trap.Writer.puts_with_labels]

end Session

namespace Event

/-- Every problem is an error: it is counted as one, whether or not it is written. -/
theorem report_eq (c : Counter) (w : Trap.Writer) (problem : Problem) (location : Label) :
    c.report w problem.site problem.severity problem.message location =
      ({ (c.accept problem.site).2 with errors := c.errors + 1 },
        (diagnostic c problem location).foldl Trap.Writer.put w) := by
  have hs : problem.severity ≠ .info := by cases problem <;> simp [Problem.severity]
  have he : problem.severity.isError = true := by cases problem <;> rfl
  have hc : { c with errors := c.errors + 1 }.accept problem.site =
      ((c.accept problem.site).1, { (c.accept problem.site).2 with errors := c.errors + 1 }) := rfl
  simp only [Counter.report, diagnostic, if_neg hs, if_pos he, hc]
  cases (c.accept problem.site).1 <;> rfl

theorem step_wrote (e : Event) (s : Session) : s.Wrote (e.step s) (e.lines s) := by
  cases e with
  | fact f => simp [Session.Wrote, step, lines, Session.mapWriter, Session.table, Trap.Writer.fact]
  | lookup key asker =>
    cases h : s.table.find? key with
    | some l =>
      simp [Session.Wrote, step, lines, h, Session.mapWriter, Session.table, Trap.Writer.lookup,
        LabelTable.lookup]
    | none =>
      simp [Session.Wrote, step, lines, h, Session.mapWriter, Session.table, Trap.Writer.lookup,
        LabelTable.lookup, Trap.Writer.put_with_labels]
  | fresh =>
    simp [Session.Wrote, step, lines, Session.mapWriter, Session.table, Trap.Writer.fresh,
      LabelTable.fresh, Trap.Writer.put_with_labels]
  | report problem location =>
    have h := report_eq s.counter s.file.writer problem location
    simp only [Session.Wrote, step, lines, Session.table, h]
  | schedule id f => exact Session.wrote_nil rfl
  | target t => exact Session.wrote_nil rfl
  | named id l => exact Session.wrote_nil rfl
  | enter id l => exact Session.wrote_nil rfl
  | leave id => exact Session.wrote_nil rfl
  | current f => exact Session.wrote_nil rfl

theorem run_wrote (es : List Event) (s : Session) : s.Wrote (run es s) (linesOf es s) := by
  induction es generalizing s with
  | nil => exact Session.wrote_nil rfl
  | cons e es ih => exact (step_wrote e s).trans (ih _)

/-! ## What happens to the rest of a session -/

def onTable : Event → LabelTable → LabelTable
  | .lookup key _, t => (t.lookup key).2
  | .fresh, t => t.fresh.2
  | _, t => t

theorem step_table (e : Event) (s : Session) : (e.step s).table = e.onTable s.table := by
  cases e with
  | fact f => exact Trap.Writer.put_labels _ _
  | lookup key asker =>
    simp only [step, Session.mapWriter, Session.table, Trap.Writer.lookup, onTable,
      LabelTable.lookup]
    cases s.file.writer.labels.find? key with
    | some l => rfl
    | none => exact Trap.Writer.put_labels _ _
  | fresh => exact Trap.Writer.put_labels _ _
  | report problem location =>
    simp only [step, Session.table, report_eq, Trap.Writer.puts_labels, onTable]
  | _ => rfl

/-- A key that has its label is looked up without a trace. -/
theorem lookup_step (asker : Option DeclId) {s : Session} {key : String} {l : Label}
    (h : s.table.find? key = some l) : (Event.lookup key asker).step s = s := by
  simp only [step, Session.mapWriter, Trap.Writer.lookup, LabelTable.lookup, h]

theorem onTable_next (e : Event) (t : LabelTable) : t.next ≤ (e.onTable t).next := by
  cases e with
  | lookup key asker =>
    simp only [onTable, LabelTable.lookup]
    split <;> simp
  | fresh => exact Nat.le_succ _
  | _ => exact Nat.le_refl _

theorem onTable_find? (e : Event) {t : LabelTable} {key : String} {l : Label}
    (h : t.find? key = some l) : (e.onTable t).find? key = some l := by
  cases e with
  | lookup other asker =>
    by_cases hk : key = other
    · subst hk
      simp [onTable, LabelTable.lookup, h]
    · rw [onTable, LabelTable.find?_lookup_of_ne _ hk, h]
  | _ => exact h

theorem step_target (e : Event) (s : Session) (h : ∀ t, e ≠ .target t) :
    (e.step s).file.target = s.file.target := by
  cases e with
  | target t => exact absurd rfl (h t)
  | _ => rfl

theorem run_table_next (es : List Event) (s : Session) :
    s.table.next ≤ (run es s).table.next := by
  induction es generalizing s with
  | nil => exact Nat.le_refl _
  | cons e es ih =>
    have he := onTable_next e s.table
    rw [← step_table] at he
    exact Nat.le_trans he (ih _)

theorem step_errors (e : Event) (s : Session) : s.counter.errors ≤ (e.step s).counter.errors := by
  cases e with
  | report problem location =>
    simp only [step, report_eq]
    exact Nat.le_succ _
  | _ => exact Nat.le_refl _

theorem run_errors (es : List Event) (s : Session) :
    s.counter.errors ≤ (run es s).counter.errors := by
  induction es generalizing s with
  | nil => exact Nat.le_refl _
  | cons e es ih => exact Nat.le_trans (step_errors e s) (ih _)

theorem run_find? (es : List Event) {s : Session} {key : String} {l : Label}
    (h : s.table.find? key = some l) : (run es s).table.find? key = some l := by
  induction es generalizing s with
  | nil => exact h
  | cons e es ih =>
    have he := onTable_find? e h
    rw [← step_table] at he
    exact ih he

end Event

end IrFacts
