import IrFacts.Trap.Schema

/-!
# Nodes of code

The facts about code tell of nodes: rows for expressions and statements, and
the branches of a `when`, each with a parent and an index under it. The nodes
are read off the lines of a trap in the order in which they were written.

Nodes fill a slot when they form a tree that hangs from it: every node stands
in the slot or under a node written before it, and no two stand in one place.
A node above the nodes that fill slots under it fills its own slot.
-/

set_option autoImplicit false

namespace IrFacts

namespace Trap

inductive NodeKind where
  | expr
  | stmt
  | branch
deriving DecidableEq, Repr

structure Node where
  kind : NodeKind
  id : Label
  parent : Label
  index : Int
deriving DecidableEq, Repr

/-- What a line tells of the shape of code. -/
inductive Mark where
  | node (n : Node)
  | richType (id : Label)
  | enclosing (id callable : Label)
deriving DecidableEq, Repr

def markRelations : List String :=
  ["exprs", "stmts", "when_branch", "exprsKotlinType", "callableEnclosingExpr"]

def Fact.mark? (f : Fact) : Option Mark :=
  if f.relation = "exprs" then
    match f.args with
    | [.label id, .int _, .label _, .label parent, .int index] =>
      some (.node ⟨.expr, id, parent, index⟩)
    | _ => none
  else if f.relation = "stmts" then
    match f.args with
    | [.label id, .int _, .label parent, .int index, .label _] =>
      some (.node ⟨.stmt, id, parent, index⟩)
    | _ => none
  else if f.relation = "when_branch" then
    match f.args with
    | [.label id, .label parent, .int index] => some (.node ⟨.branch, id, parent, index⟩)
    | _ => none
  else if f.relation = "exprsKotlinType" then
    match f.args with
    | [.label id, .label _] => some (.richType id)
    | _ => none
  else if f.relation = "callableEnclosingExpr" then
    match f.args with
    | [.label id, .label callable] => some (.enclosing id callable)
    | _ => none
  else none

def Line.mark? : Line → Option Mark
  | .fact f => f.mark?
  | _ => none

@[simp]
theorem Fact.mark?_exprs (id type parent : Label) (kind : ExprKind) (index : Int) :
    (Fact.exprs id kind type parent index).mark? = some (.node ⟨.expr, id, parent, index⟩) := by
  simp [exprs, mark?]

@[simp]
theorem Fact.mark?_stmts (id parent callable : Label) (kind : StmtKind) (index : Int) :
    (Fact.stmts id kind parent index callable).mark? =
      some (.node ⟨.stmt, id, parent, index⟩) := by
  simp [stmts, mark?]

@[simp]
theorem Fact.mark?_whenBranch (id parent : Label) (index : Int) :
    (Fact.whenBranch id parent index).mark? = some (.node ⟨.branch, id, parent, index⟩) := by
  simp [whenBranch, mark?]

@[simp]
theorem Fact.mark?_exprsKotlinType (id richType : Label) :
    (Fact.exprsKotlinType id richType).mark? = some (.richType id) := by
  simp [exprsKotlinType, mark?]

@[simp]
theorem Fact.mark?_callableEnclosingExpr (id callable : Label) :
    (Fact.callableEnclosingExpr id callable).mark? = some (.enclosing id callable) := by
  simp [callableEnclosingExpr, mark?]

theorem Fact.mark?_of_notMem {f : Fact} (h : f.relation ∉ markRelations) : f.mark? = none := by
  simp only [markRelations, List.mem_cons, List.not_mem_nil, or_false, not_or] at h
  simp only [mark?, if_neg h.1, if_neg h.2.1, if_neg h.2.2.1, if_neg h.2.2.2.1, if_neg h.2.2.2.2]

namespace Node

/-- Whether the node is a row of its own, for a statement or an expression. -/
def isRow (n : Node) : Bool := n.kind ≠ .branch

/-- All that is written of a node: an expression has a type and a callable. -/
def marks (callable : Label) (n : Node) : List Mark :=
  .node n :: if n.kind = .expr then [.richType n.id, .enclosing n.id callable] else []

end Node

namespace Mark

def row? : Mark → Option Node
  | .node n => if n.isRow then some n else none
  | _ => none

/-- The callable that a mark names for an expression. -/
def callable? (id : Label) : Mark → Option Label
  | .enclosing expr callable => if expr = id then some callable else none
  | _ => none

end Mark

/-! ## Trees that hang from a slot -/

/-- The nodes form a tree under `parent`: those right under it are branches or
rows, as `branches` says, at indexes in `indexes`. The ids are numbers from
`low` up to `high`. -/
structure Fills (branches : Bool) (parent : Label) (indexes : Int → Prop) (low high : Nat)
    (nodes : List Node) : Prop where
  fresh : ∀ n ∈ nodes, ∃ k, n.id = .number k ∧ low ≤ k ∧ k < high
  ids : (nodes.map (·.id)).Nodup
  slots : (nodes.map fun n => (n.parent, n.index)).Nodup
  parents : ∀ before n after, nodes = before ++ n :: after →
    (n.isRow = !branches ∧ n.parent = parent ∧ indexes n.index) ∨ ∃ m ∈ before, n.parent = m.id

variable {b c : Bool} {parent : Label} {I J : Int → Prop} {low mid high : Nat}
  {ns ms : List Node}

theorem fills_nil : Fills b parent I low high [] :=
  ⟨by simp, by simp, by simp, fun before _ _ h => by simp at h⟩

theorem Fills.mono {low' high' : Nat} (h : Fills b parent I low high ns) (hI : ∀ i, I i → J i)
    (hlow : low' ≤ low) (hhigh : high ≤ high') : Fills b parent J low' high' ns := by
  refine ⟨fun n hn => ?_, h.ids, h.slots, fun before n after hsplit => ?_⟩
  · obtain ⟨k, hk, hlk, hkh⟩ := h.fresh n hn
    exact ⟨k, hk, by omega, by omega⟩
  · rcases h.parents before n after hsplit with ⟨hb, hp, hi⟩ | hm
    · exact Or.inl ⟨hb, hp, hI _ hi⟩
    · exact Or.inr hm

theorem Fills.parent_of_mem (h : Fills b parent I low high ns) {n : Node} (hn : n ∈ ns) :
    (n.parent = parent ∧ I n.index) ∨ ∃ k, n.parent = .number k ∧ low ≤ k ∧ k < high := by
  obtain ⟨before, after, hsplit⟩ := List.append_of_mem hn
  rcases h.parents before n after hsplit with ⟨-, hp, hi⟩ | ⟨m, hm, hpm⟩
  · exact Or.inl ⟨hp, hi⟩
  · obtain ⟨k, hk, hlk, hkh⟩ := h.fresh m (by rw [hsplit]; exact List.mem_append_left _ hm)
    exact Or.inr ⟨k, hpm.trans hk, hlk, hkh⟩

theorem Fills.id_ne (h : Fills b parent I low mid ns) (k : Fills c parent J mid high ms)
    {n m : Node} (hn : n ∈ ns) (hm : m ∈ ms) : n.id ≠ m.id := by
  intro he
  obtain ⟨a, ha, -, ham⟩ := h.fresh n hn
  obtain ⟨a', ha', hma, -⟩ := k.fresh m hm
  have := Label.number.inj (ha.symm.trans (he.trans ha'))
  omega

/-- A parent in both trees would be older than the one and newer than the other. -/
theorem Fills.slot_ne (h : Fills b parent I low mid ns) (k : Fills c parent J mid high ms)
    (hlow : low ≤ mid) (hold : ∀ n, parent = .number n → n < low) (hIJ : ∀ i, I i → ¬ J i)
    {n m : Node} (hn : n ∈ ns) (hm : m ∈ ms) : (n.parent, n.index) ≠ (m.parent, m.index) := by
  intro he
  obtain ⟨hp, hi⟩ := Prod.mk.inj he
  rcases h.parent_of_mem hn with ⟨hn, hni⟩ | ⟨a, ha, hla, ham⟩ <;>
    rcases k.parent_of_mem hm with ⟨hm, hmi⟩ | ⟨a', ha', hma, -⟩
  · exact hIJ _ hni (hi ▸ hmi)
  · have := hold a' (hn.symm.trans (hp.trans ha'))
    omega
  · have := hold a (hm.symm.trans (hp.symm.trans ha))
    omega
  · have := Label.number.inj (ha.symm.trans (hp.trans ha'))
    omega

theorem Fills.append (h : Fills b parent I low mid ns) (k : Fills b parent J mid high ms)
    (hlow : low ≤ mid) (hhigh : mid ≤ high) (hold : ∀ n, parent = .number n → n < low)
    (hIJ : ∀ i, I i → ¬ J i) : Fills b parent (fun i => I i ∨ J i) low high (ns ++ ms) := by
  refine ⟨?_, ?_, ?_, ?_⟩
  · intro n hn
    rcases List.mem_append.mp hn with hn | hn
    · obtain ⟨a, ha, hla, hah⟩ := h.fresh n hn
      exact ⟨a, ha, hla, by omega⟩
    · obtain ⟨a, ha, hla, hah⟩ := k.fresh n hn
      exact ⟨a, ha, by omega, hah⟩
  · rw [List.map_append]
    refine List.nodup_append.mpr ⟨h.ids, k.ids, fun l hl l' hl' he => ?_⟩
    obtain ⟨n, hn, rfl⟩ := List.mem_map.mp hl
    obtain ⟨m, hm, hnm⟩ := List.mem_map.mp hl'
    exact h.id_ne k hn hm (he.trans hnm.symm)
  · rw [List.map_append]
    refine List.nodup_append.mpr ⟨h.slots, k.slots, fun l hl l' hl' he => ?_⟩
    obtain ⟨n, hn, rfl⟩ := List.mem_map.mp hl
    obtain ⟨m, hm, hnm⟩ := List.mem_map.mp hl'
    exact h.slot_ne k hlow hold hIJ hn hm (he.trans hnm.symm)
  · intro before n after hsplit
    rcases List.append_eq_append_iff.mp hsplit with ⟨as, rfl, hms⟩ | ⟨cs, hns, hafter⟩
    · rcases k.parents as n after hms with ⟨hb, hp, hi⟩ | ⟨m, hm, hpm⟩
      · exact Or.inl ⟨hb, hp, Or.inr hi⟩
      · exact Or.inr ⟨m, List.mem_append_right _ hm, hpm⟩
    · cases cs with
      | nil =>
        rw [List.append_nil] at hns
        subst hns
        rcases k.parents [] n after hafter.symm with ⟨hb, hp, hi⟩ | ⟨m, hm, -⟩
        · exact Or.inl ⟨hb, hp, Or.inr hi⟩
        · cases hm
      | cons x cs =>
        obtain ⟨rfl, rfl⟩ := List.cons.inj hafter
        rcases h.parents before n cs hns with ⟨hb, hp, hi⟩ | hm
        · exact Or.inl ⟨hb, hp, Or.inl hi⟩
        · exact Or.inr hm

theorem Fills.cons {n : Node} {k : Nat} (h : Fills c n.id J mid high ns) (hid : n.id = .number k)
    (hlow : low ≤ k) (hk : k < mid) (hhigh : mid ≤ high)
    (hold : ∀ a, n.parent = .number a → a < low) :
    Fills (!n.isRow) n.parent (· = n.index) low high (n :: ns) := by
  refine ⟨?_, ?_, ?_, ?_⟩
  · intro m hm
    rcases List.mem_cons.mp hm with rfl | hm
    · exact ⟨k, hid, hlow, by omega⟩
    · obtain ⟨a, ha, hla, hah⟩ := h.fresh m hm
      exact ⟨a, ha, by omega, hah⟩
  · refine List.nodup_cons.mpr ⟨fun hm => ?_, h.ids⟩
    obtain ⟨m, hm, hmn⟩ := List.mem_map.mp hm
    obtain ⟨a, ha, hla, -⟩ := h.fresh m hm
    have := Label.number.inj (hid.symm.trans (hmn.symm.trans ha))
    omega
  · refine List.nodup_cons.mpr ⟨fun hm => ?_, h.slots⟩
    obtain ⟨m, hm, hmn⟩ := List.mem_map.mp hm
    have hp := (Prod.mk.inj hmn).1
    rcases h.parent_of_mem hm with ⟨hm, -⟩ | ⟨a, ha, hla, -⟩
    · have := hold k (hp.symm.trans (hm.trans hid))
      omega
    · have := hold a (hp.symm.trans ha)
      omega
  · intro before m after hsplit
    cases before with
    | nil =>
      obtain ⟨rfl, -⟩ := List.cons.inj hsplit
      exact Or.inl ⟨by simp, rfl, rfl⟩
    | cons x before =>
      obtain ⟨rfl, htail⟩ := List.cons.inj hsplit
      rcases h.parents before m after htail with ⟨-, hp, -⟩ | ⟨m', hm', hp⟩
      · exact Or.inr ⟨n, by simp, hp⟩
      · exact Or.inr ⟨m', List.mem_cons_of_mem _ hm', hp⟩

/-! ## The marks of a tree -/

/-- The rows among the marks form a tree that hangs from one slot, and every
expression is told its type and its callable once, after its row. -/
structure RowTree (callable parent : Label) (index : Int) (low high : Nat)
    (marks : List Mark) : Prop where
  fresh : ∀ n, .node n ∈ marks → ∃ k, n.id = .number k ∧ low ≤ k ∧ k < high
  ids : ((marks.filterMap Mark.row?).map (·.id)).Nodup
  slots : ((marks.filterMap Mark.row?).map fun n => (n.parent, n.index)).Nodup
  /-- What stands in the slot is the first row. -/
  first : ∀ before n after, marks = before ++ .node n :: after → n.isRow →
    n.parent = parent → n.index = index → before.filterMap Mark.row? = []
  parents : ∀ before n after, marks = before ++ .node n :: after → n.isRow →
    (n.parent = parent ∧ n.index = index) ∨ ∃ m, .node m ∈ before ∧ n.parent = m.id
  richType : ∀ before n after, marks = before ++ .node n :: after → n.kind = .expr →
    marks.count (.richType n.id) = 1 ∧ .richType n.id ∈ after
  enclosing : ∀ before n after, marks = before ++ .node n :: after → n.kind = .expr →
    marks.filterMap (Mark.callable? n.id) = [callable] ∧ .enclosing n.id callable ∈ after

variable {callable : Label}

theorem Node.mem_tail {n : Node} {x : Mark} (h : x ∈ (n.marks callable).tail) :
    x = .richType n.id ∨ x = .enclosing n.id callable := by
  unfold Node.marks at h
  split at h
  · simpa using h
  · cases h

theorem mem_marks {x : Mark} (h : x ∈ ns.flatMap (Node.marks callable)) :
    ∃ n ∈ ns, x = .node n ∨ x = .richType n.id ∨ x = .enclosing n.id callable := by
  obtain ⟨n, hn, hx⟩ := List.mem_flatMap.mp h
  rcases List.mem_cons.mp hx with hx | hx
  · exact ⟨n, hn, Or.inl hx⟩
  · exact ⟨n, hn, Or.inr (Node.mem_tail hx)⟩

theorem node_mem_marks {n : Node} : .node n ∈ ns.flatMap (Node.marks callable) ↔ n ∈ ns := by
  constructor
  · intro h
    obtain ⟨m, hm, he | he | he⟩ := mem_marks h
    · cases he
      exact hm
    · cases he
    · cases he
  · intro h
    exact List.mem_flatMap.mpr ⟨n, h, List.mem_cons_self⟩

theorem rows_marks : (ns.flatMap (Node.marks callable)).filterMap Mark.row? =
    ns.filter (·.isRow) := by
  induction ns with
  | nil => rfl
  | cons n ns ih =>
    have htail : (n.marks callable).filterMap Mark.row? = if n.isRow then [n] else [] := by
      unfold Node.marks
      split <;> cases h : n.isRow <;> simp [Mark.row?, h]
    rw [List.flatMap_cons, List.filterMap_append, ih, htail, List.filter_cons]
    split <;> rfl

/-- A node among the marks splits the nodes in the same way. -/
theorem marks_split {before after : List Mark} {n : Node}
    (h : ns.flatMap (Node.marks callable) = before ++ .node n :: after) :
    ∃ nb na, ns = nb ++ n :: na ∧ before = nb.flatMap (Node.marks callable) ∧
      after = (n.marks callable).tail ++ na.flatMap (Node.marks callable) := by
  induction ns generalizing before with
  | nil => simp at h
  | cons x ns ih =>
    have hx : x.marks callable = .node x :: (x.marks callable).tail := rfl
    rw [List.flatMap_cons, hx, List.cons_append] at h
    cases before with
    | nil =>
      obtain ⟨he, rfl⟩ := List.cons.inj h
      cases he
      exact ⟨[], ns, rfl, rfl, rfl⟩
    | cons y before =>
      obtain ⟨rfl, happend⟩ := List.cons.inj h
      have hrest : ∃ rest, before = (x.marks callable).tail ++ rest ∧
          ns.flatMap (Node.marks callable) = rest ++ .node n :: after := by
        rcases List.append_eq_append_iff.mp happend with ⟨as, rfl, hns⟩ | ⟨cs, htail, hns⟩
        · exact ⟨as, rfl, hns⟩
        · cases cs with
          | nil => exact ⟨[], by simpa using htail.symm, hns.symm⟩
          | cons z cs =>
            obtain ⟨rfl, -⟩ := List.cons.inj hns
            have hmem : .node n ∈ (x.marks callable).tail := by simp [htail]
            rcases Node.mem_tail hmem with he | he <;> cases he
      obtain ⟨rest, rfl, hns⟩ := hrest
      obtain ⟨nb, na, rfl, rfl, hafter⟩ := ih hns
      exact ⟨x :: nb, na, rfl, by rw [List.flatMap_cons, hx]; rfl, hafter⟩

theorem marks_of_other (callable : Label) {id : Label} (h : ∀ n ∈ ns, n.id ≠ id) :
    (ns.flatMap (Node.marks callable)).count (.richType id) = 0 ∧
      (ns.flatMap (Node.marks callable)).filterMap (Mark.callable? id) = [] := by
  constructor
  · apply List.count_eq_zero.mpr
    intro hm
    obtain ⟨n, hn, he | he | he⟩ := mem_marks hm <;> cases he
    exact h n hn rfl
  · apply List.filterMap_eq_nil_iff.mpr
    intro x hx
    obtain ⟨n, hn, rfl | rfl | rfl⟩ := mem_marks hx
    · rfl
    · rfl
    · exact if_neg (h n hn)

theorem marks_of_expr (callable : Label) {nb na : List Node} {n : Node}
    (hids : ((nb ++ n :: na).map (·.id)).Nodup) (hn : n.kind = .expr) :
    ((nb ++ n :: na).flatMap (Node.marks callable)).count (.richType n.id) = 1 ∧
      ((nb ++ n :: na).flatMap (Node.marks callable)).filterMap (Mark.callable? n.id) =
        [callable] := by
  rw [List.map_append, List.map_cons, List.nodup_append, List.nodup_cons] at hids
  obtain ⟨-, ⟨hna, -⟩, hnb⟩ := hids
  have hbefore : ∀ m ∈ nb, m.id ≠ n.id := fun m hm =>
    hnb m.id (List.mem_map.mpr ⟨m, hm, rfl⟩) n.id List.mem_cons_self
  have hafter : ∀ m ∈ na, m.id ≠ n.id := fun m hm he => hna (List.mem_map.mpr ⟨m, hm, he⟩)
  obtain ⟨bcount, bcallable⟩ := marks_of_other callable hbefore
  obtain ⟨acount, acallable⟩ := marks_of_other callable hafter
  have hmarks : n.marks callable = [.node n, .richType n.id, .enclosing n.id callable] := by
    rw [Node.marks, if_pos hn]
  rw [List.flatMap_append, List.flatMap_cons, hmarks]
  constructor
  · simp [bcount, acount]
  · simp [List.filterMap_cons, bcallable, acallable, Mark.callable?]

theorem Fills.rowTree {index : Int} (h : Fills false parent (· = index) low high ns) :
    RowTree callable parent index low high (ns.flatMap (Node.marks callable)) := by
  have htail {n : Node} (hn : n.kind = .expr) :
      (n.marks callable).tail = [.richType n.id, .enclosing n.id callable] := by
    rw [Node.marks, if_pos hn]
    rfl
  refine ⟨fun n hn => h.fresh n (node_mem_marks.mp hn), ?_, ?_, ?_, ?_, ?_, ?_⟩
  · rw [rows_marks]
    exact h.ids.sublist (List.filter_sublist.map _)
  · rw [rows_marks]
    exact h.slots.sublist (List.filter_sublist.map _)
  · intro before n after hsplit hrow hp hi
    obtain ⟨nb, na, rfl, rfl, -⟩ := marks_split hsplit
    rw [rows_marks]
    cases nb with
    | nil => rfl
    | cons m nb =>
      -- The first node stands in the slot as well, which is one node too many.
      have hfirst : m.parent = parent ∧ m.index = index := by
        rcases h.parents [] m (nb ++ n :: na) rfl with ⟨-, hp, hi⟩ | ⟨_, hm, -⟩
        · exact ⟨hp, hi⟩
        · cases hm
      have hslots := h.slots
      rw [List.cons_append, List.map_cons, List.nodup_cons] at hslots
      refine absurd (List.mem_map.mpr ⟨n, by simp, ?_⟩) hslots.1
      rw [hp, hi, hfirst.1, hfirst.2]
  · intro before n after hsplit hrow
    obtain ⟨nb, na, hns, rfl, -⟩ := marks_split hsplit
    rcases h.parents nb n na hns with ⟨-, hp, hi⟩ | ⟨m, hm, hp⟩
    · exact Or.inl ⟨hp, hi⟩
    · exact Or.inr ⟨m, node_mem_marks.mpr hm, hp⟩
  · intro before n after hsplit hn
    obtain ⟨nb, na, rfl, -, rfl⟩ := marks_split hsplit
    exact ⟨(marks_of_expr callable h.ids hn).1, by simp [htail hn]⟩
  · intro before n after hsplit hn
    obtain ⟨nb, na, rfl, -, rfl⟩ := marks_split hsplit
    exact ⟨(marks_of_expr callable h.ids hn).2, by simp [htail hn]⟩

end Trap

end IrFacts
