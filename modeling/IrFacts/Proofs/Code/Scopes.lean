import IrFacts.Proofs.Code.Unfolding
import IrFacts.Proofs.Run.Names
import Mathlib.Data.Set.Insert

/-!
# Type parameters in scope

A class and a function declare their type parameters before anything that stands
in them is walked over. So wherever the walk comes to a type, the type parameters
in scope there have been declared.
-/

set_option autoImplicit false

namespace IrFacts

/-! ## Giving before asking -/

/-- With what is known, and what is given on the way, nothing is asked for too early. -/
def InOrder {α ι : Type} (gives asks : α → Set ι) : Set ι → List α → Prop
  | _, [] => True
  | known, a :: as => asks a ⊆ known ∧ InOrder gives asks (known ∪ gives a) as

def given {α ι : Type} (gives : α → Set ι) (as : List α) : Set ι := {i | ∃ a ∈ as, i ∈ gives a}

section InOrder

variable {α β ι : Type} {gives asks : α → Set ι} {known more : Set ι} {as bs : List α}

theorem given_nil : given gives ([] : List α) = ∅ := by simp [given]

theorem given_cons (a : α) (as : List α) : given gives (a :: as) = gives a ∪ given gives as := by
  ext i
  simp [given]

theorem given_singleton (a : α) : given gives [a] = gives a := by simp [given]

theorem given_append (as bs : List α) :
    given gives (as ++ bs) = given gives as ∪ given gives bs := by
  ext i
  simp [given, or_and_right, exists_or]

theorem inOrder_append_iff : InOrder gives asks known (as ++ bs) ↔
    InOrder gives asks known as ∧ InOrder gives asks (known ∪ given gives as) bs := by
  induction as generalizing known with
  | nil => simp [InOrder, given_nil]
  | cons a as ih =>
    rw [List.cons_append, InOrder, InOrder, ih, given_cons, Set.union_assoc, and_assoc]

theorem InOrder.mono (h : InOrder gives asks known as) (hle : known ⊆ more) :
    InOrder gives asks more as := by
  induction as generalizing known more with
  | nil => trivial
  | cons a as ih => exact ⟨h.1.trans hle, ih h.2 (Set.union_subset_union_left _ hle)⟩

theorem InOrder.imp {others : α → Set ι} (h : InOrder gives asks known as)
    (hle : ∀ a ∈ as, others a ⊆ asks a) : InOrder gives others known as := by
  induction as generalizing known with
  | nil => trivial
  | cons a as ih =>
    exact ⟨(hle a (List.mem_cons_self ..)).trans h.1,
      ih h.2 fun b hb => hle b (List.mem_cons_of_mem _ hb)⟩

theorem InOrder.union {others : α → Set ι} (h : InOrder gives asks known as)
    (k : InOrder gives others known as) : InOrder gives (fun a => asks a ∪ others a) known as := by
  induction as generalizing known with
  | nil => trivial
  | cons a as ih => exact ⟨Set.union_subset h.1 k.1, ih h.2 k.2⟩

theorem inOrder_flatMap {f : β → List α} {bs : List β}
    (h : ∀ b ∈ bs, InOrder gives asks known (f b)) :
    InOrder gives asks known (bs.flatMap f) := by
  induction bs with
  | nil => trivial
  | cons b bs ih =>
    refine inOrder_append_iff.mpr ⟨h b (List.mem_cons_self ..), ?_⟩
    exact (ih fun c hc => h c (List.mem_cons_of_mem _ hc)).mono Set.subset_union_left

/-- Nothing is asked for but what is known from the start. -/
theorem inOrder_of_subset (h : ∀ a ∈ as, asks a ⊆ known) : InOrder gives asks known as := by
  induction as generalizing known with
  | nil => trivial
  | cons a as ih =>
    refine ⟨h a (List.mem_cons_self ..), ih fun b hb => ?_⟩
    exact (h b (List.mem_cons_of_mem _ hb)).trans Set.subset_union_left

end InOrder

/-! ## Scopes -/

def Mark.declares : Mark → Set DeclId
  | .declare id => {id}
  | _ => ∅

def Mark.scope : Mark → List DeclId
  | .mention scope _ => scope
  | _ => []

def WalkItem.declares : WalkItem → Set DeclId
  | .mark m => m.declares
  | _ => ∅

def WalkItem.scope : WalkItem → List DeclId
  | .mark m => m.scope
  | .expression c _ => c.scope
  | .classBody c _ => c.scope

/-- The type parameters of a scope, as far as they are declared in the program. -/
def Program.parametersIn (p : Program) (scope : List DeclId) : Set DeclId :=
  {id | id ∈ scope ∧ (p.typeParameter? id).isSome}

/-- Wherever something is in scope in the items, it has been declared or was known. -/
def Covered (p : Program) (known : Set DeclId) (items : List WalkItem) : Prop :=
  InOrder WalkItem.declares (fun i => p.parametersIn i.scope) known items

def InScope (scope : List DeclId) (items : List WalkItem) : Prop := ∀ i ∈ items, i.scope ⊆ scope

section InScope

variable {p : Program} {c : Context} {scope : List DeclId} {items others : List WalkItem}
  {known : Set DeclId} {α : Type}

theorem parametersIn_nil (known : Set DeclId) : p.parametersIn [] ⊆ known :=
  fun _ hid => nomatch hid.1

theorem inScope_nil : InScope scope [] := nofun

theorem inScope_append (h : InScope scope items) (k : InScope scope others) :
    InScope scope (items ++ others) := List.forall_mem_append.mpr ⟨h, k⟩

theorem inScope_flatMap {as : List α} {f : α → List WalkItem} (h : ∀ a ∈ as, InScope scope (f a)) :
    InScope scope (as.flatMap f) := by
  intro i hi
  obtain ⟨a, ha, hi⟩ := List.mem_flatMap.mp hi
  exact h a ha i hi

theorem inScope_mentions (types : List IrType) : InScope c.scope (c.mentions types) := by
  intro i hi
  obtain ⟨type, -, rfl⟩ := List.mem_map.mp hi
  exact List.Subset.refl _

theorem inScope_expressions (es : List Expr) : InScope c.scope (c.expressions es) := by
  intro i hi
  obtain ⟨e, -, rfl⟩ := List.mem_map.mp hi
  exact List.Subset.refl _

theorem inScope_row (relation : String) : InScope scope [rowItem relation] := by
  simp [InScope, rowItem, WalkItem.scope, Mark.scope]

theorem parametersIn_mono {larger : List DeclId} (h : scope ⊆ larger) :
    p.parametersIn scope ⊆ p.parametersIn larger := fun _ hid => ⟨h hid.1, hid.2⟩

theorem InScope.covered (h : InScope scope items) (hknown : p.parametersIn scope ⊆ known) :
    Covered p known items :=
  inOrder_of_subset fun i hi => (parametersIn_mono (h i hi)).trans hknown

theorem covered_reach {id : DeclId} (h : Covered p known items) :
    Covered p known (.mark (.reach id) :: items) :=
  ⟨nofun, h.mono Set.subset_union_left⟩

theorem covered_append (h : Covered p known items) (k : Covered p known others) :
    Covered p known (items ++ others) :=
  inOrder_append_iff.mpr ⟨h, k.mono Set.subset_union_left⟩

end InScope

/-! ## Code -/

namespace Program

variable {p : Program} {c : Context} {known : Set DeclId}

theorem inScope_binding (id : DeclId) : InScope c.scope (p.bindingItems c id) := by
  unfold bindingItems
  split
  · exact inScope_append (inScope_mentions _) (inScope_expressions _)
  · exact inScope_nil

theorem inScope_statement (code : Statement) : InScope c.scope (p.statementItems c code) := by
  unfold statementItems
  split
  · exact inScope_expressions _
  · exact inScope_binding _
  · split
    · simp [InScope, WalkItem.scope]
    · exact inScope_nil

theorem inScope_call (call : Call) : InScope c.scope (callItems c call) := by
  unfold callItems
  split
  · exact inScope_expressions _
  · exact inScope_append (inScope_mentions _)
      (inScope_append (inScope_expressions _) (inScope_expressions _))

theorem inScope_constructor (e : Expr) (call : Call) :
    InScope c.scope (constructorItems c e call) := by
  refine inScope_append (inScope_expressions _) (inScope_append (inScope_expressions _) ?_)
  split
  · exact inScope_nil
  · exact inScope_mentions _

theorem inScope_assignment (type : IrType) (es : List Expr) :
    InScope c.scope (.mark (.borrow type) :: c.expressions es) :=
  List.forall_mem_cons.mpr ⟨List.nil_subset _, inScope_expressions es⟩

theorem inScope_parts (e : Expr) : InScope c.scope (p.partItems c e) := by
  unfold partItems
  cases e.kind with
  | call call => exact inScope_call call
  | constructorCall call => exact inScope_constructor e call
  | enumConstructorCall call => exact inScope_constructor e call
  | delegatingConstructorCall call =>
    dsimp only
    split
    · exact inScope_append (inScope_expressions _) (inScope_expressions _)
    · exact inScope_nil
  | tryExpr result catches finish =>
    refine inScope_append (inScope_expressions _)
      (inScope_append (inScope_flatMap fun clause _ => ?_) (inScope_expressions _))
    exact inScope_append (inScope_binding _) (inScope_expressions _)
  | block statements => exact inScope_flatMap fun code _ => inScope_statement code
  | getValue symbol => exact inScope_mentions _
  | setValue symbol value => exact inScope_assignment _ _
  | setField field value => exact inScope_assignment _ _
  | «when» origin branches => exact inScope_flatMap fun b _ => inScope_expressions _
  | typeOperator operator operand argument =>
    dsimp only
    split
    · exact inScope_nil
    · exact inScope_append (inScope_mentions _) (inScope_expressions _)
  | vararg elements =>
    refine inScope_flatMap fun element _ => ?_
    cases element with
    | expr e => exact inScope_expressions _
    | spread e => exact inScope_nil
  | throwExpr _ => exact inScope_expressions _
  | returnExpr _ => exact inScope_expressions _
  | whileLoop _ => exact inScope_expressions _
  | doWhileLoop _ => exact inScope_expressions _
  | stringConcatenation _ => exact inScope_expressions _
  | getClass _ => exact inScope_expressions _
  | _ => exact inScope_nil

theorem inScope_expression (e : Expr) : InScope c.scope (p.expressionItems c e) :=
  inScope_append (inScope_mentions _) (inScope_parts e)

/-! ## Declarations -/

theorem typeParameterItems_eq (id : DeclId) : p.typeParameterItems id =
    if (p.typeParameter? id).isSome then [.mark (.declare id)] else [] := by
  cases h : p.typeParameter? id with
  | none => simp [typeParameterItems, h]
  | some q =>
    obtain ⟨d, hd, -⟩ := decl_of_typeParameter? h
    simp [typeParameterItems, hd, h]

theorem given_typeParameters (ids : List DeclId) :
    given WalkItem.declares (ids.flatMap p.typeParameterItems) = p.parametersIn ids := by
  induction ids with
  | nil => simp [given, parametersIn]
  | cons id ids ih =>
    rw [List.flatMap_cons, given_append, ih, typeParameterItems_eq]
    ext other
    split
    · rw [given_singleton]
      simp only [WalkItem.declares, Mark.declares, parametersIn, Set.mem_union,
        Set.mem_singleton_iff, Set.mem_ofPred_eq, List.mem_cons]
      grind
    · simp only [given_nil, parametersIn, Set.empty_union, Set.mem_ofPred_eq, List.mem_cons]
      grind

theorem covered_within (hknown : p.parametersIn c.scope ⊆ known) {ids : List DeclId}
    {items : List WalkItem}
    (h : ∀ {more}, p.parametersIn (c.within ids).scope ⊆ more → Covered p more items) :
    Covered p known (ids.flatMap p.typeParameterItems ++ items) := by
  refine inOrder_append_iff.mpr ⟨?_, ?_⟩
  · refine InScope.covered (inScope_flatMap fun id _ => ?_) (parametersIn_nil known)
    rw [typeParameterItems_eq]
    split
    · simp [InScope, WalkItem.scope, Mark.scope]
    · exact inScope_nil
  · -- By the time the items begin the type parameters have been declared.
    rw [given_typeParameters]
    refine h fun id hid => ?_
    rcases List.mem_append.mp hid.1 with hnew | hold
    · exact .inr ⟨hnew, hid.2⟩
    · exact .inl (hknown ⟨hold, hid.2⟩)

theorem inScope_parameter (id : DeclId) : InScope c.scope (p.parameterItems c id) := by
  unfold parameterItems
  split
  · exact inScope_append (inScope_mentions _) (inScope_row _)
  · exact inScope_nil

theorem inScope_callable (f : FunctionDecl) : InScope c.scope (p.callableItems c f) := by
  unfold callableItems
  split
  · exact inScope_row _
  · exact inScope_append (inScope_mentions _)
      (inScope_append (inScope_row _) (inScope_mentions _))

theorem inScope_body (f : FunctionDecl) : InScope c.scope (p.bodyItems c f) := by
  unfold bodyItems
  split
  · exact inScope_flatMap fun code _ => inScope_statement code
  · exact inScope_nil

theorem covered_function (hknown : p.parametersIn c.scope ⊆ known) (id : DeclId) :
    Covered p known (p.functionItems c id) := by
  unfold functionItems
  split
  · next f _ _ =>
    refine covered_reach (covered_within hknown fun hmore => InScope.covered ?_ hmore)
    exact inScope_append (inScope_callable f) (inScope_append (inScope_body f)
      (inScope_flatMap fun x _ => inScope_parameter x))
  · exact inScope_nil.covered hknown

theorem covered_field (hknown : p.parametersIn c.scope ⊆ known) (id : DeclId) :
    Covered p known (p.fieldItems c id) := by
  unfold fieldItems
  split
  · exact covered_reach
      (InScope.covered (inScope_append (inScope_mentions _) (inScope_row _)) hknown)
  · exact inScope_nil.covered hknown

theorem covered_property (hknown : p.parametersIn c.scope ⊆ known) (id : DeclId) :
    Covered p known (p.propertyItems c id) := by
  unfold propertyItems
  split
  · refine covered_reach (covered_append ((inScope_row _).covered hknown) ?_)
    refine covered_append (inOrder_flatMap fun getter _ => covered_function hknown getter) ?_
    refine covered_append (inOrder_flatMap fun setter _ => covered_function hknown setter) ?_
    exact inOrder_flatMap fun field _ => covered_field hknown field
  · exact inScope_nil.covered hknown

theorem covered_member (hknown : p.parametersIn c.scope ⊆ known) (id : DeclId) :
    Covered p known (p.memberItems c id) := by
  unfold memberItems
  split
  · exact inScope_nil.covered hknown
  · exact ⟨hknown, trivial⟩
  · exact covered_function hknown id
  · exact covered_property hknown id
  · unfold enumEntryItems
    split
    · exact inScope_nil.covered hknown
    · refine covered_reach ?_
      split
      · exact (inScope_row _).covered hknown
      · exact inScope_nil.covered hknown
  · unfold typeAliasItems
    split
    · exact covered_reach
        (InScope.covered (inScope_append (inScope_mentions _) (inScope_row _)) hknown)
    · exact inScope_nil.covered hknown
  · exact covered_field hknown id
  · exact covered_reach (inScope_nil.covered hknown)

theorem inScope_initialization (i : Walk.Initialization) :
    InScope c.scope (p.initializationItems c i) := by
  cases i with
  | statement code => exact inScope_statement code
  | field id f value span =>
    exact inScope_append (inScope_mentions _)
      (inScope_append (inScope_mentions _) (inScope_expressions _))

theorem inScope_obinit (id : DeclId) (k : ClassDecl) :
    InScope c.scope (p.obinitItems c id k) := by
  unfold obinitItems
  split
  · exact inScope_nil
  · exact inScope_append (inScope_row _) (inScope_flatMap fun i _ => inScope_initialization i)

theorem covered_class (hknown : p.parametersIn c.scope ⊆ known) (id : DeclId) :
    Covered p known (p.classItems c id) := by
  unfold classItems
  split
  · next k _ _ =>
    refine covered_reach (covered_append (InScope.covered ?_ (parametersIn_nil known)) ?_)
    · unfold companionItems
      split
      · exact inScope_row _
      · exact inScope_nil
    refine covered_within hknown fun hmore => ?_
    refine covered_append (inOrder_flatMap fun id _ => covered_member hmore id) ?_
    refine InScope.covered (inScope_append (inScope_obinit id k) (inScope_append ?_ ?_)) hmore
    · unfold objectItems
      split
      · exact inScope_row _
      · exact inScope_nil
    · exact inScope_mentions _
  · exact inScope_nil.covered hknown

theorem covered_file (file : FileId) : Covered p ∅ (p.fileItems ⟨false, []⟩ file) := by
  unfold fileItems
  split
  · exact inOrder_flatMap fun id _ => covered_member (parametersIn_nil ∅) id
  · exact inScope_nil.covered (parametersIn_nil ∅)

end Program

/-! ## A whole walk -/

variable {p : Program} {items : List WalkItem} {ms : List Mark} {known : Set DeclId}

/-- By induction on the walk: what takes the place of an expression or of a class is in the
same scope, and what is known does not change. -/
theorem Unfolds.inOrder (h : Unfolds p items ms) (hcovered : Covered p known items) :
    InOrder Mark.declares (fun m => p.parametersIn m.scope) known ms := by
  induction h generalizing known with
  | nil => trivial
  | mark _ ih => exact ⟨hcovered.1, ih hcovered.2⟩
  | @expression c e _ _ _ ih =>
    refine ih (inOrder_append_iff.mpr ⟨?_, ?_⟩)
    · exact (Program.inScope_expression e).covered hcovered.1
    · exact hcovered.2.mono (Set.union_subset_union_right _ (Set.empty_subset _))
  | @classBody c id _ _ _ ih =>
    refine ih (inOrder_append_iff.mpr ⟨Program.covered_class hcovered.1 id, ?_⟩)
    exact hcovered.2.mono (Set.union_subset_union_right _ (Set.empty_subset _))

theorem Unfolds.inOrder_file {file : FileId} (h : Unfolds p (p.fileItems ⟨false, []⟩ file) ms) :
    InOrder Mark.declares (fun m => p.parametersIn m.scope) ∅ ms :=
  h.inOrder (Program.covered_file file)

end IrFacts
