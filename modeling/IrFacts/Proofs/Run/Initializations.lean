import IrFacts.Extraction.Declarations

/-!
# What initializes the instances of a class

The members of a class are listed as the items that `<obinit>` runs: one for each property
that fills a field of the instance, and one for each statement of a block that is not static.
The loop over the members, with its running index, extracts the items of that list one after
the other, each into the slot that is its place in the list.
-/

set_option autoImplicit false

namespace IrFacts

/-- The field that a property fills in each instance, and its initializer. -/
def Program.instanceField? (p : Program) (v : PropertyDecl) : Option (DeclId × FieldDecl × Expr) :=
  v.backingField.bind fun id =>
    (p.field? id).bind fun f =>
      if f.isStatic then none else f.initializer.map fun value => (id, f, value)

theorem Program.field?_of_instanceField? {p : Program} {v : PropertyDecl} {id : DeclId}
    {f : FieldDecl} {value : Expr} (h : p.instanceField? v = some (id, f, value)) :
    p.field? id = some f ∧ f.initializer = some value := by
  obtain ⟨id', -, h⟩ := Option.bind_eq_some_iff.mp h
  obtain ⟨f', hf, h⟩ := Option.bind_eq_some_iff.mp h
  split at h
  · cases h
  · obtain ⟨value', hvalue, h⟩ := Option.map_eq_some_iff.mp h
    cases h
    exact ⟨hf, hvalue⟩

namespace Walk

open Extract

/-- What `<obinit>` runs in one of its slots. -/
inductive Initialization where
  /-- The initializer of a field, with the span of its property. -/
  | field (id : DeclId) (field : FieldDecl) (value : Expr) (span : Span)
  | statement (s : Statement)

/-- What one member contributes, if it exists. -/
def initializationsOf (p : Program) (member : DeclId) : List Initialization :=
  match p.decl? member with
  | some ⟨_, _, span, .property v⟩ =>
    (p.instanceField? v).toList.map fun (id, f, value) => .field id f value span
  | some ⟨_, _, _, .initializer i⟩ => if i.isStatic then [] else i.statements.map .statement
  | _ => []

/-- Everything that initializes an instance, in the order of the members. -/
def initializations (p : Program) (c : ClassDecl) : List Initialization :=
  c.members.flatMap (initializationsOf p)

variable (w : Walk) (obinit block : Label)

def initialization (index : Nat) : Initialization → Extract Unit
  | .field id f value span => w.assignField obinit block index id f value span
  | .statement s => w.statement obinit block index s

/-- The items are extracted one after the other, and the index moves on by one for each. -/
def runItems (items : List Initialization) (first : Nat) : Extract Nat := do
  (items.zipIdx first).forM fun (i, index) => w.initialization obinit block index i
  return first + items.length

theorem runItems_cons (i : Initialization) (items : List Initialization) (first : Nat) :
    w.runItems obinit block (i :: items) first = (do
      w.initialization obinit block first i
      w.runItems obinit block items (first + 1)) := by
  simp only [runItems, List.zipIdx_cons, List.forM_eq_forM, List.forM_cons, bind_assoc,
    List.length_cons, Nat.add_assoc, Nat.add_comm 1]

theorem runItems_append (items more : List Initialization) (first : Nat) :
    w.runItems obinit block (items ++ more) first = (do
      w.runItems obinit block more (← w.runItems obinit block items first)) := by
  induction items generalizing first with
  | nil => rfl
  | cons i items ih =>
    rw [List.cons_append, runItems_cons, runItems_cons, bind_assoc]
    exact congrArg _ (funext fun _ => ih (first + 1))

theorem foldlM_statement (statements : List Statement) (first : Nat) :
    statements.foldlM (fun index s => do
      w.statement obinit block index s
      return index + 1) first = w.runItems obinit block (statements.map .statement) first := by
  induction statements generalizing first with
  | nil => rfl
  | cons s statements ih =>
    rw [List.foldlM_cons, List.map_cons, runItems_cons, bind_assoc]
    exact congrArg _ (funext fun _ => ih (first + 1))

/-- A member uses up a slot for each item that it contributes, and is skipped when there is
none. -/
theorem initializeMember_run (p : Program) (first : Nat) (member : DeclId) :
    (w.initializeMember obinit block first member).run p =
      (w.runItems obinit block (initializationsOf p member) first).run p := by
  have hread (f : Program → Extract Nat) : ReaderT.run (read >>= f) p = ReaderT.run (f p) p := rfl
  rw [initializeMember, hread]
  unfold initializationsOf
  cases p.decl? member with
  | none => rfl
  | some d =>
    obtain ⟨parent, origin, span, kind⟩ := d
    cases kind with
    | property v =>
      dsimp only [Program.instanceField?]
      cases v.backingField with
      | none => rfl
      | some id =>
        dsimp only [Option.bind_some]
        cases p.field? id with
        | none => rfl
        | some f =>
          dsimp only [Option.bind_some]
          cases hvalue : f.initializer with
          | none => cases f.isStatic <;> rfl
          | some value =>
            cases f.isStatic with
            | true => rfl
            | false =>
              exact congrArg (ReaderT.run · p)
                (w.runItems_cons obinit block (.field id f value span) [] first).symm
    | initializer i =>
      dsimp only
      cases i.isStatic with
      | true => rfl
      | false =>
        exact congrArg (ReaderT.run · p) (w.foldlM_statement obinit block i.statements first)
    | _ => rfl

theorem foldlM_initializeMember_run (p : Program) (members : List DeclId) (first : Nat) :
    (members.foldlM (w.initializeMember obinit block) first).run p =
      (w.runItems obinit block (members.flatMap (initializationsOf p)) first).run p := by
  induction members generalizing first with
  | nil => rfl
  | cons member members ih =>
    rw [List.foldlM_cons, List.flatMap_cons, runItems_append, ReaderT.run_bind, ReaderT.run_bind,
      initializeMember_run]
    exact congrArg _ (funext ih)

/-- The loop over the members runs the list of their items, from the first slot on. -/
theorem initializeMembers_eq (c : ClassDecl) :
    w.initializeMembers obinit block c.members = (do
      let p ← read
      (initializations p c).zipIdx.forM fun (i, index) =>
        w.initialization obinit block index i) := by
  funext p
  change (w.initializeMembers obinit block c.members).run p =
    ((initializations p c).zipIdx.forM fun (i, index) =>
      w.initialization obinit block index i).run p
  rw [initializeMembers, ReaderT.run_bind, foldlM_initializeMember_run, ← ReaderT.run_bind,
    runItems, initializations]
  exact congrArg (ReaderT.run · p) (by simp)

end Walk

end IrFacts
