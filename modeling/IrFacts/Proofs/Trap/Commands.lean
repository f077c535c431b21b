import IrFacts.Proofs.Diagnostics.RateLimit

/-!
# What a writer is told to write

A trap is written by a sequence of commands. What it then says follows from the
commands and the label table alone: a key is defined when it is asked for first,
and every other command adds the line that it names.
-/

set_option autoImplicit false

namespace IrFacts.Trap

def Line.fact? : Line → Option Fact
  | .fact f => some f
  | _ => none

inductive Command where
  | labelFor (key : String)
  | fresh
  | comment (text : String)
  | fact (f : Fact)

namespace Command

def run (w : Writer) : Command → Writer
  | .labelFor key => (w.labelFor key).2
  | .fresh => w.fresh.2
  | .comment text => w.comment text
  | .fact f => w.fact f

def table (t : LabelTable) : Command → LabelTable
  | .labelFor key => (t.lookup key).2
  | .fresh => t.fresh.2
  | _ => t

def lines (t : LabelTable) : Command → List Line
  | .labelFor key => if (t.find? key).isSome then [] else [.define (.number t.next) key]
  | .fresh => [.fresh t.fresh.1]
  | .comment text => [.comment text]
  | .fact f => [.fact f]

def fact? : Command → Option Fact
  | .fact f => some f
  | _ => none

theorem facts_lines (t : LabelTable) (c : Command) :
    (c.lines t).filterMap Line.fact? = c.fact?.toList := by
  cases c with
  | labelFor key =>
    rw [lines]
    split <;> rfl
  | _ => rfl

theorem run_eq (w : Writer) (c : Command) :
    c.run w = { (c.lines w.labels).foldl Writer.put w with labels := c.table w.labels } := by
  cases c with
  | labelFor key =>
    simp only [run, Writer.labelFor, Writer.lookup, lines, table, LabelTable.lookup]
    cases w.labels.find? key with
    | some label => rfl
    | none => exact Writer.put_with_labels ..
  | fresh => exact Writer.put_with_labels ..
  | comment text => exact Writer.put_with_labels w w.labels (.comment text)
  | fact f => exact Writer.put_with_labels w w.labels (.fact f)

end Command

/-- What a sequence of commands says to a table. -/
def said : LabelTable → List Command → List Line
  | _, [] => []
  | t, c :: cs => c.lines t ++ said (c.table t) cs

/-- A writer that was given a sequence of commands. -/
def written (sink : Sink) (cs : List Command) : Writer := cs.foldl Command.run (.ofSink sink)

theorem runs_eq (w : Writer) (cs : List Command) :
    cs.foldl Command.run w =
      { (said w.labels cs).foldl Writer.put w with labels := cs.foldl Command.table w.labels } := by
  induction cs generalizing w with
  | nil => rfl
  | cons c cs ih =>
    rw [List.foldl_cons, ih, Command.run_eq, said, List.foldl_append, Writer.puts_with_labels,
      List.foldl_cons]

theorem mem_said {t : LabelTable} {cs : List Command} {l : Line} (hl : l ∈ said t cs) :
    ∃ c ∈ cs, ∃ t, l ∈ c.lines t := by
  induction cs generalizing t with
  | nil => cases hl
  | cons c cs ih =>
    rcases List.mem_append.mp hl with hl | hl
    · exact ⟨c, List.mem_cons_self, t, hl⟩
    · obtain ⟨d, hd, hlines⟩ := ih hl
      exact ⟨d, List.mem_cons_of_mem _ hd, hlines⟩

theorem facts_said (t : LabelTable) (cs : List Command) :
    (said t cs).filterMap Line.fact? = cs.filterMap Command.fact? := by
  induction cs generalizing t with
  | nil => rfl
  | cons c cs ih =>
    rw [said, List.filterMap_append, ih, List.filterMap_cons, Command.facts_lines]
    cases c.fact? <;> rfl

/-- What is written into a sink that never fails: each line that is said, with its newline. -/
theorem text_written {sink : Sink} (hs : sink.NeverRefuses) (ht : sink.taken = [])
    (cs : List Command) :
    (written sink cs).text = String.join ((said .empty cs).map fun l => l.render ++ "\n") := by
  have hw : (Writer.ofSink sink).Unfailing := ⟨hs, rfl⟩
  have hchunks := Writer.puts_took (Writer.puts_unfailing hw (said .empty cs)).2
  have hlines := Writer.puts_lines hw (said .empty cs)
  have hnone : (Writer.ofSink sink).sink.chunks = [] := by simp [Writer.ofSink, Sink.chunks, ht]
  have hsilent : (Writer.ofSink sink).sink.lines = [] := by rw [Sink.lines, hnone]; rfl
  rw [hnone, List.nil_append] at hchunks
  rw [hsilent, List.nil_append] at hlines
  have hwhole : ((said .empty cs).foldl Writer.put (.ofSink sink)).sink.Whole := by
    rw [Sink.Whole, hlines, hchunks]
  have htext := hwhole.text
  rw [hlines] at htext
  rw [written, runs_eq]
  exact htext

end IrFacts.Trap
