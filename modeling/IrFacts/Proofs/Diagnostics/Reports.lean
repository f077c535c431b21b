import IrFacts.Proofs.Run.Oblivious

/-!
# Errors are counted

An error is counted when it is reported, whether or not a limit keeps it from
being written. So the number of errors grows in an extraction by those among
the problems that were reported in it, and over several extractions by those of
them all.
-/

set_option autoImplicit false

namespace IrFacts

def Problem.errorsAmong (problems : List Problem) : Nat := problems.countP (·.severity.isError)

theorem Counter.errors_report (c : Counter) (w : Trap.Writer) (site : String) (severity : Severity)
    (message : String) (location : Label) :
    (c.report w site severity message location).1.errors =
      c.errors + if severity.isError then 1 else 0 := by
  unfold report
  split
  · next hinfo =>
    rw [hinfo]
    rfl
  · generalize hd : (if severity.isError then { c with errors := c.errors + 1 } else c) = d
    have hsame : (d.accept site).2.errors = d.errors := rfl
    have herrors : d.errors = c.errors + if severity.isError then 1 else 0 := by
      rw [← hd]
      split <;> rfl
    dsimp only
    rcases hd : d.accept site with ⟨_ | _ | _, counted⟩ <;> rw [hd] at hsame <;>
      exact hsame.trans herrors

namespace Event

def problem? : Event → Option Problem
  | .report problem _ => some problem
  | _ => none

/-- The problems that are reported in some events. -/
def problems (es : List Event) : List Problem := es.filterMap problem?

theorem errors_run (es : List Event) (s : Session) :
    (run es s).counter.errors = s.counter.errors + Problem.errorsAmong (problems es) := by
  induction es generalizing s with
  | nil => rfl
  | cons e es ih =>
    rw [run, ih]
    cases e with
    | report problem location =>
      have hreport := Counter.errors_report s.counter s.file.writer problem.site problem.severity
        problem.message location
      have hproblems : problems (.report problem location :: es) = problem :: problems es := rfl
      rw [show ((Event.report problem location).step s).counter.errors = _ from hreport,
        hproblems, Problem.errorsAmong, Problem.errorsAmong, List.countP_cons, Nat.add_assoc]
      exact congrArg _ (Nat.add_comm ..)
    | _ => rfl

end Event

namespace Extract

variable {p : Program} {kind : Extract Unit → Prop} {c d e : Counter}
variable {problems more : List Problem}

/-- An action that looks at no more than it may ends in a run of events. -/
theorem Oblivious.runs {α : Type} {m : Extract α} (h : Oblivious p m) {s s' : Session} {a : α}
    (he : Ends p s m a s') : ∃ es, s' = Event.run es s := by
  refine h.keeps (I := fun t => ∃ es, t = Event.run es s) (fun e t ⟨es, ht⟩ => ?_) ⟨[], rfl⟩ he
  exact ⟨es ++ [e], by rw [Event.run_append, ht]; rfl⟩

/-- Extractions of some kind, each of which counts on from the one before, and the problems that
are reported in them. -/
inductive Reports (p : Program) (kind : Extract Unit → Prop) :
    Counter → List Problem → Counter → Prop
  | none {c : Counter} : Reports p kind c [] c
  | more {extraction : Extract Unit} {s : Session} {es : List Event} {problems : List Problem}
      {d : Counter} (of : kind extraction) (ends : Ends p s extraction () (Event.run es s))
      (rest : Reports p kind (Event.run es s).counter problems d) :
      Reports p kind s.counter (Event.problems es ++ problems) d

theorem Reports.trans (h : Reports p kind c problems d) (h' : Reports p kind d more e) :
    Reports p kind c (problems ++ more) e := by
  induction h with
  | none => exact h'
  | more of ends _ ih =>
    rw [List.append_assoc]
    exact .more of ends (ih h')

theorem Reports.errors (h : Reports p kind c problems d) :
    d.errors = c.errors + Problem.errorsAmong problems := by
  induction h with
  | none => rfl
  | more _ _ _ ih =>
    rw [ih, Event.errors_run, Problem.errorsAmong, Problem.errorsAmong, Problem.errorsAmong,
      List.countP_append, Nat.add_assoc]

end Extract

end IrFacts
