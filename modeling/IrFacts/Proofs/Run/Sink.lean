import IrFacts.Proofs.Run.Event

/-!
# Sinks that take everything

When no chunk was refused, a sink holds the lines that were put, each with its
newline, and what an extraction wrote can be read off its events.
-/

set_option autoImplicit false

namespace IrFacts.Trap

namespace Sink

/-- A sink that never fails. -/
def NeverRefuses (s : Sink) : Prop := ∀ offered bytes, s.refuses offered bytes = none

/-- Every line has its newline, and there is nothing else. -/
def Whole (s : Sink) : Prop := s.chunks = s.lines.flatMap fun l => [.line l, .newline]

theorem join_pairs (ls : List Line) :
    String.join ((ls.flatMap fun l => [Chunk.line l, .newline]).map Chunk.text) =
      String.join (ls.map fun l => l.render ++ "\n") := by
  induction ls with
  | nil => rfl
  | cons l ls ih => simp [String.join_cons, Chunk.text, ih, String.append_assoc]

theorem Whole.text {s : Sink} (h : s.Whole) :
    s.text = String.join (s.lines.map fun l => l.render ++ "\n") := by
  rw [Sink.text, h, join_pairs]

theorem mem_lines {s : Sink} {l : Line} : l ∈ s.lines ↔ .line l ∈ s.taken := by
  unfold lines chunks
  rw [List.mem_filterMap]
  constructor
  · rintro ⟨c, hc, hl⟩
    split at hl
    · exact Option.some.inj hl ▸ List.mem_reverse.mp hc
    · cases hl
  · exact fun hl => ⟨.line l, List.mem_reverse.mpr hl, rfl⟩

theorem mem_lines_offer {s : Sink} {c : Chunk} {l : Line} (h : l ∈ (s.offer c).2.lines) :
    c = .line l ∨ l ∈ s.lines := by
  unfold offer at h
  dsimp only at h
  split at h
  · exact .inr h
  · exact (List.mem_cons.mp (mem_lines.mp h)).imp Eq.symm mem_lines.mpr

end Sink

namespace Writer

theorem mem_lines_put {w : Writer} {l m : Line} (h : m ∈ (w.put l).sink.lines) :
    m = l ∨ m ∈ w.sink.lines := by
  have hline (hm : m ∈ (w.sink.offer (.line l)).2.lines) : m = l ∨ m ∈ w.sink.lines :=
    (Sink.mem_lines_offer hm).imp_left fun he => (Chunk.line.inj he).symm
  unfold put at h
  split at h
  · exact .inr h
  · split at h
    · next ho =>
      rw [ho] at hline
      exact hline h
    · next sink ho =>
      rw [ho] at hline
      have hnewline (hm : m ∈ (sink.offer .newline).2.lines) : m ∈ sink.lines :=
        (Sink.mem_lines_offer hm).resolve_left nofun
      split at h <;> next hn =>
        rw [hn] at hnewline
        exact hline (hnewline h)

theorem mem_lines_puts {w : Writer} {ls : List Line} {m : Line}
    (h : m ∈ (ls.foldl put w).sink.lines) : m ∈ w.sink.lines ∨ m ∈ ls := by
  induction ls generalizing w with
  | nil => exact .inl h
  | cons l ls ih =>
    rcases ih h with h | h
    · exact (mem_lines_put h).symm.imp_right fun he => List.mem_cons.mpr (.inl he)
    · exact .inr (List.mem_cons_of_mem _ h)

theorem put_took {w : Writer} {l : Line} (h : (w.put l).failure = none) :
    w.failure = none ∧ (w.put l).sink.taken = .newline :: .line l :: w.sink.taken := by
  rcases w with ⟨labels, sink, failure⟩
  cases failure with
  | some error => cases h
  | none =>
    refine ⟨rfl, ?_⟩
    simp only [put, Sink.offer] at h ⊢
    cases hl : sink.refuses sink.offered (sink.bytes + (Chunk.line l).text.utf8ByteSize) with
    | some error =>
      rw [hl] at h
      cases h
    | none =>
      rw [hl] at h
      dsimp only at h ⊢
      split at h <;> grind

theorem puts_took {w : Writer} {ls : List Line} (h : (ls.foldl put w).failure = none) :
    (ls.foldl put w).sink.chunks =
      w.sink.chunks ++ ls.flatMap fun l => [.line l, .newline] := by
  induction ls generalizing w with
  | nil => simp
  | cons l ls ih =>
    have hput : (w.put l).failure = none := by
      cases hf : (w.put l).failure with
      | none => rfl
      | some error =>
        have hkeep (ls : List Line) : ∀ w : Writer, w.failure = some error →
            (ls.foldl put w).failure = some error := by
          induction ls with
          | nil => exact fun _ h => h
          | cons m ls ih =>
            intro w hw
            exact ih _ (by simp only [put, hw])
        rw [List.foldl_cons, hkeep ls _ hf] at h
        cases h
    rw [List.foldl_cons, ih h]
    simp [Sink.chunks, (put_took hput).2]

theorem lines_pairs (ls : List Line) :
    (ls.flatMap fun l => [Chunk.line l, .newline]).filterMap
      (fun c => match c with
        | .line l => some l
        | .newline => none) = ls := by
  induction ls with
  | nil => rfl
  | cons l ls ih => simpa using ih

theorem put_never {w : Writer} (hs : w.sink.NeverRefuses) (hf : w.failure = none) (l : Line) :
    (w.put l).sink.NeverRefuses ∧ (w.put l).failure = none := by
  simp only [put, hf, Sink.offer, hs _ _]
  exact ⟨hs, trivial⟩

theorem puts_never {w : Writer} (hs : w.sink.NeverRefuses) (hf : w.failure = none)
    (ls : List Line) : (ls.foldl put w).failure = none := by
  induction ls generalizing w with
  | nil => exact hf
  | cons l ls ih =>
    obtain ⟨hs', hf'⟩ := put_never hs hf l
    exact ih hs' hf'

end Writer

end IrFacts.Trap

namespace IrFacts.Session

/-- Whatever the sink refuses, it holds no lines but those from before and the written ones. -/
theorem Wrote.mem_lines {s s' : Session} {ls : List Trap.Line} (h : s.Wrote s' ls)
    {l : Trap.Line} (hl : l ∈ s'.file.writer.sink.lines) :
    l ∈ s.file.writer.sink.lines ∨ l ∈ ls := by
  rw [h] at hl
  exact Trap.Writer.mem_lines_puts hl

theorem Wrote.lines {s s' : Session} {ls : List Trap.Line} (h : s.Wrote s' ls)
    (hs : s.file.writer.sink.NeverRefuses) (hf : s.file.writer.failure = none)
    (ht : s.file.writer.sink.taken = []) :
    s'.file.writer.sink.lines = ls ∧ s'.file.writer.sink.Whole := by
  have hchunks : s'.file.writer.sink.chunks = ls.flatMap fun l => [.line l, .newline] := by
    rw [h]
    apply (Trap.Writer.puts_took (Trap.Writer.puts_never hs hf ls)).trans
    simp [Trap.Sink.chunks, ht]
  have hlines : s'.file.writer.sink.lines = ls := by
    rw [Trap.Sink.lines, hchunks]
    exact Trap.Writer.lines_pairs ls
  refine ⟨hlines, ?_⟩
  rw [Trap.Sink.Whole, hlines, hchunks]

/-- Where no chunk was refused, the sink holds the lines behind those from before. -/
theorem Wrote.lines_append {s s' : Session} {ls : List Trap.Line} (h : s.Wrote s' ls)
    (hf : s'.file.writer.failure = none) :
    s'.file.writer.sink.lines = s.file.writer.sink.lines ++ ls := by
  have hputs : (ls.foldl Trap.Writer.put s.file.writer).failure = none := by
    rw [h] at hf
    exact hf
  rw [h, Trap.Sink.lines, Trap.Writer.puts_took hputs, List.filterMap_append]
  exact congrArg (s.file.writer.sink.lines ++ ·) (Trap.Writer.lines_pairs ls)

end IrFacts.Session
