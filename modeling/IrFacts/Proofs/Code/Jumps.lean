import IrFacts.Proofs.Code.Placed

/-!
# Jumps find their loops

The loops that a session has open are at every point those around the code that
is written, so a jump is told the row of the loop around it that has its id, and
a jump with no such loop is counted as a problem.
-/

set_option autoImplicit false

namespace IrFacts

/-! ## Loops with ids of their own -/

/-- No loop in the expression is in a loop with the same id. -/
def Expr.LoopsDiffer (p : Program) (e : Expr) : Prop :=
  ∀ outer, e.Reaches p outer → ∀ loop, outer.kind.loop? = some loop →
    ∀ part ∈ outer.kind.parts p, ∀ inner, part.Reaches p inner →
      ∀ other, inner.kind.loop? = some other → other.id ≠ loop.id

def Expr.Avoids (p : Program) (loops : Loops) (e : Expr) : Prop :=
  ∀ inner, e.Reaches p inner → ∀ loop, inner.kind.loop? = some loop → ∀ l ∈ loops, l.1 ≠ loop.id

theorem Expr.LoopsDiffer.part {p : Program} {e part : Expr} (h : e.LoopsDiffer p)
    (hpart : part ∈ e.kind.parts p) : part.LoopsDiffer p :=
  fun outer ho => h outer (.part hpart ho)

/-- Below a loop the loops around it are avoided, and the loop itself. -/
theorem Expr.Avoids.part {p : Program} {e part : Expr} {loops : Loops} (h : e.Avoids p loops)
    (hdiffer : e.LoopsDiffer p) (hpart : part ∈ e.kind.parts p) (id : Label) :
    part.Avoids p (e.kind.scope id loops) := by
  intro inner hreaches other hother l hl
  rcases List.mem_append.mp hl with hl | hl
  · obtain ⟨loop, hloop, rfl⟩ := List.mem_map.mp hl
    have hloop : e.kind.loop? = some loop := Option.mem_toList.mp hloop
    exact (hdiffer e (.refl e) loop hloop part hpart inner hreaches other hother).symm
  · exact h inner (.part hpart hreaches) other hother l hl

/-! ## What cues do to the loops -/

namespace Cue

theorem jumps_map_row (rows : List Row) (loops : Loops) : jumps (rows.map .row) loops = [] := by
  induction rows with
  | nil => rfl
  | cons r rows ih => exact ih

theorem loopsAfter_map_row (rows : List Row) (loops : Loops) :
    loopsAfter (rows.map .row) loops = loops := by
  induction rows with
  | nil => rfl
  | cons r rows ih => exact ih

variable {kind : ExprKind} {loops : Loops}

theorem filter_avoided {id : LoopId} (h : ∀ l ∈ loops, l.1 ≠ id) :
    loops.filter (·.1 ≠ id) = loops :=
  List.filter_eq_self.mpr fun l hl => decide_eq_true (h l hl)

theorem loopsAfter_opened (havoided : ∀ loop, kind.loop? = some loop → ∀ l ∈ loops, l.1 ≠ loop.id)
    (id : Label) : loopsAfter (kind.loop?.toList.map fun loop => .opened loop.id id) loops =
      kind.scope id loops := by
  unfold ExprKind.scope
  cases hloop : kind.loop? with
  | none => rfl
  | some loop => exact congrArg ((loop.id, id) :: ·) (filter_avoided (havoided loop hloop))

theorem loopsAfter_closed (havoided : ∀ loop, kind.loop? = some loop → ∀ l ∈ loops, l.1 ≠ loop.id)
    (id : Label) : loopsAfter (kind.loop?.toList.map fun loop => .closed loop.id)
      (kind.scope id loops) = loops := by
  unfold ExprKind.scope
  cases hloop : kind.loop? with
  | none => rfl
  | some loop =>
    have hself : ((loop.id, id) :: loops).filter (·.1 ≠ loop.id) = loops.filter (·.1 ≠ loop.id) :=
      List.filter_cons_of_neg (by simp)
    exact hself.trans (filter_avoided (havoided loop hloop))

theorem jumps_around {id : Label} {cues : List Cue} {leaps : List (Label × Option Label)}
    (havoided : ∀ loop, kind.loop? = some loop → ∀ l ∈ loops, l.1 ≠ loop.id)
    (hjumps : jumps cues (kind.scope id loops) = leaps)
    (hloops : loopsAfter cues (kind.scope id loops) = kind.scope id loops) :
    jumps (kind.around id cues) loops = kind.leaps id loops ++ leaps ∧
      loopsAfter (kind.around id cues) loops = loops := by
  have hjump : jumps (kind.jump?.toList.map fun jump => .jump id jump.loopId) loops =
      kind.leaps id loops := by
    unfold ExprKind.leaps
    cases kind.jump? <;> rfl
  have hafter : loopsAfter (kind.jump?.toList.map fun jump => .jump id jump.loopId) loops =
      loops := by
    cases kind.jump? <;> rfl
  have hopened : jumps (kind.loop?.toList.map fun loop => .opened loop.id id) loops = [] := by
    cases kind.loop? <;> rfl
  have hclosed : jumps (kind.loop?.toList.map fun loop => .closed loop.id)
      (kind.scope id loops) = [] := by
    cases kind.loop? <;> rfl
  simp only [ExprKind.around, jumps_append, loopsAfter_append, hjump, hafter, hopened,
    loopsAfter_opened havoided, hjumps, hloops, hclosed, loopsAfter_closed havoided,
    List.nil_append, List.append_nil, and_self]

end Cue

/-- The open loops are the loops around the code wherever no loop takes the id of another. -/
theorem Laid.jumps {p : Program} {current : Option DeclId} {loops : Loops} {parent : Label}
    {items : List Item} {cues : List Cue} {leaps : List (Label × Option Label)}
    (h : Laid p current loops parent items cues leaps)
    (hdiffer : ∀ e ∈ Item.exprsOf items, e.LoopsDiffer p)
    (havoids : ∀ e ∈ Item.exprsOf items, e.Avoids p loops) :
    Cue.jumps cues loops = leaps ∧ Cue.loopsAfter cues loops = loops := by
  induction h with
  | nil => exact ⟨rfl, rfl⟩
  | row _ _ hitems hrest =>
    simp only [Item.exprsOf, Item.exprs, List.forall_mem_append] at hdiffer havoids
    obtain ⟨hjumps, hloops⟩ := hitems hdiffer.1 havoids.1
    obtain ⟨kjumps, kloops⟩ := hrest hdiffer.2 havoids.2
    simp only [Cue.jumps, Cue.loopsAfter, Cue.jump?, Cue.onLoops, Cue.jumps_append,
      Cue.loopsAfter_append, hjumps, hloops, kjumps, kloops, Option.toList_none, List.nil_append,
      and_self]
  | @part loops parent id last kind isStatement index lastIndex e rows rest cues more leaps others
      _ _ _ _ hitems hrest =>
    simp only [Item.exprsOf, Item.exprs, List.forall_mem_append, List.forall_mem_singleton]
      at hdiffer havoids
    have hparts {part : Expr} (hpart : part ∈ Item.exprsOf (e.kind.items p)) :
        part ∈ e.kind.parts p := (e.kind.exprsOf_items p).subset hpart
    obtain ⟨hjumps, hloops⟩ := hitems (fun part hpart => hdiffer.1.part (hparts hpart))
      fun part hpart => havoids.1.part hdiffer.1 (hparts hpart) id
    obtain ⟨kjumps, kloops⟩ := hrest hdiffer.2 havoids.2
    obtain ⟨ajumps, aloops⟩ := Cue.jumps_around (havoids.1 e (.refl e)) hjumps hloops
    simp only [Cue.jumps, Cue.loopsAfter, Cue.jump?, Cue.onLoops, Cue.jumps_append,
      Cue.loopsAfter_append, Cue.jumps_map_row, Cue.loopsAfter_map_row, ajumps, aloops, kjumps,
      kloops, Option.toList_none, List.nil_append, List.append_assoc, and_self]
  | skip _ _ hrest =>
    simp only [Item.exprsOf, Item.exprs, List.forall_mem_append] at hdiffer havoids
    exact hrest hdiffer.2 havoids.2

namespace Walk

open Extract

variable {p : Program}

/-- The targets that are told of when an expression is written are those that
its layout names: a jump goes to the row of the loop around it with its id, and
is counted as a problem if there is none. -/
theorem expression_jumps (typeFuel walkFuel : Nat) {callable : Label} {slot : Slot} {e : Expr}
    {s s' : Session} {u : Unit} (hclass : e.NoLocalClass p) (hdiffer : e.LoopsDiffer p)
    (hopen : s.openLoops = []) (hcounter : s.counter.Ordered)
    (he : Ends p s ((walk (projection typeFuel) walkFuel).expression callable slot e) u s') :
    ∃ ls cues leaps, s.Wrote s' ls ∧
      Laid p s.currentFunction [] slot.parent [.part slot.isStatement slot.index e] cues leaps ∧
      ls.filterMap Trap.Line.row? = Cue.rows cues ∧
      Ascending s.table.next s'.table.next (Cue.rows cues) ∧
      ls.filterMap Trap.Line.leap? = Cue.told leaps ∧
      s'.counter.countOf Problem.jumpSite =
        s.counter.countOf Problem.jumpSite + Cue.astray leaps ∧
      s'.counter.Ordered ∧ s'.openLoops = [] := by
  obtain ⟨cues, leaps, hlaid, hplays⟩ :=
    (laysOut_walk p typeFuel walkFuel callable).expression e hclass s slot u s' he []
  obtain ⟨ls, hwrote, hrows, htold⟩ := hplays.lines
  obtain ⟨hordered, hcount⟩ := hplays.counter hcounter
  have hexprs (other : Expr)
      (h : other ∈ Item.exprsOf [.part slot.isStatement slot.index e]) : other = e := by
    simpa [Item.exprsOf, Item.exprs] using h
  obtain ⟨hjumps, hloops⟩ := hlaid.jumps (fun other h => hexprs other h ▸ hdiffer)
    fun other _ _ _ _ _ l hl => absurd hl List.not_mem_nil
  rw [hopen, hjumps] at htold hcount
  exact ⟨ls, cues, leaps, hwrote, hlaid, hrows, hplays.ids, htold, hcount, hordered,
    hplays.loops.trans (by rw [hopen, hloops])⟩

/-- A loop with a `break` to it in its body and a `continue` to another in its condition. -/
theorem expression_jumps_labelled :
    let stray : Expr := ⟨default, .error "continue", .continueExpr ⟨⟨1⟩, none⟩⟩
    let leave : Expr := ⟨default, .error "break", .breakExpr ⟨⟨0⟩, some "outer"⟩⟩
    let e : Expr := ⟨default, .error "loop", .doWhileLoop ⟨⟨0⟩, some "outer", stray, some leave⟩⟩
    let p : Program := { files := #[], declarations := #[], classIndex := [] }
    let s : Session :=
      { file := .source (.ofSink .unbounded) "a.kt" .single, counter := {}, queue := .empty }
    let slot : Slot := .statement (.named "parent") 0
    e.NoLocalClass p ∧ e.LoopsDiffer p ∧ s.openLoops = [] ∧ s.counter.Ordered ∧
    ∃ u s' ls cues leaps,
      Ends p s ((walk (projection 8) 8).expression (.named "callable") slot e) u s' ∧
      s.Wrote s' ls ∧
      Laid p s.currentFunction [] slot.parent [.part slot.isStatement slot.index e] cues leaps ∧
      ls.filterMap Trap.Line.leap? = Cue.told leaps ∧
      s'.counter.countOf Problem.jumpSite =
        s.counter.countOf Problem.jumpSite + Cue.astray leaps ∧ s'.openLoops = [] := by
  intro stray leave e p s slot
  have hparts (part : Expr) (hpart : part ∈ e.kind.parts p) (inner : Expr)
      (h : part.Reaches p inner) : inner = stray ∨ inner = leave := by
    rcases List.mem_cons.mp hpart with rfl | hpart
    · cases h with
      | refl => exact Or.inl rfl
      | part hpart _ => exact nomatch hpart
    · obtain rfl := List.mem_singleton.mp hpart
      cases h with
      | refl => exact Or.inr rfl
      | part hpart _ => exact nomatch hpart
  have hreaches (other : Expr) (h : e.Reaches p other) :
      other = e ∨ other = stray ∨ other = leave := by
    cases h with
    | refl => exact Or.inl rfl
    | part hpart h => exact Or.inr (hparts _ hpart other h)
  have hclass : e.NoLocalClass p := by
    intro other h
    rcases hreaches other h with rfl | rfl | rfl <;> exact fun _ h => nomatch h
  have hdiffer : e.LoopsDiffer p := by
    intro outer h loop hloop part hpart inner hinner other hother
    rcases hreaches outer h with rfl | rfl | rfl
    · rcases hparts part hpart inner hinner with rfl | rfl <;> cases hother
    · cases hloop
    · cases hloop
  have hcounter : s.counter.Ordered := Counter.ordered_empty _ _
  obtain ⟨u, s', he⟩ := ends_of_isOk (p := p) (s := s)
    (m := (walk (projection 8) 8).expression (.named "callable") slot e) (by decide +kernel)
  obtain ⟨ls, cues, leaps, hwrote, hlaid, -, -, htold, hcount, -, hopen⟩ :=
    expression_jumps 8 8 hclass hdiffer rfl hcounter he
  exact ⟨hclass, hdiffer, rfl, hcounter, u, s', ls, cues, leaps, he, hwrote, hlaid, htold, hcount,
    hopen⟩

end Walk

end IrFacts
