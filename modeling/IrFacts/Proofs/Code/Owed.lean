import IrFacts.Proofs.Code.Unfolding
import IrFacts.Proofs.Run.Names
import Mathlib.Algebra.BigOperators.Group.List.Basic
import Mathlib.Algebra.Ring.Int.Defs
import Mathlib.Algebra.Ring.Nat

/-!
# The rows that declarations are owed

A walk passes a row for each one that is owed to a declaration it reaches, and
no other row. The books are kept by weight: a row counts for one, a declaration
that is reached counts against what it is owed, and in every step of the walk
the two make up for each other.
-/

set_option autoImplicit false

namespace IrFacts

namespace Program

variable (p : Program)

def isValueParameter (id : DeclId) : Bool :=
  match p.kind? id with
  | some (.valueParameter _) => true
  | _ => false

/-- The parameters of a function that are declared as such. -/
def parametersOf (f : FunctionDecl) : List DeclId := f.valueParameters.filter p.isValueParameter

def owed (id : DeclId) : List String :=
  match p.kind? id with
  | some (.property _) => ["ktProperties"]
  | some (.typeAlias _) => ["kt_type_alias"]
  | some (.function f) =>
    [if f.isConstructor then "constrs" else "methods"] ++ (p.parametersOf f).map fun _ => "params"
  | some (.field _) => ["fields"]
  | some (.enumEntry _) => if (p.parentClass? id).isSome then ["fields"] else []
  | some (.class k) =>
    (if (p.parentClass? id).isSome && k.isCompanion then ["fields"] else []) ++
      ((if p.isExternal id then [] else ["methods"]) ++
        if k.isNonCompanionObject then ["fields"] else [])
  | _ => []

end Program

def Mark.weight (p : Program) (r : String) : Mark → Int
  | .row q => if q = r then 1 else 0
  | .reach id => -(p.owed id).count r
  | _ => 0

def WalkItem.weight (p : Program) (r : String) : WalkItem → Int
  | .mark m => m.weight p r
  | _ => 0

/-- Beyond what is owed to the declarations among them, the items pass these rows. -/
def Worth (p : Program) (items : List WalkItem) (rows : List String) : Prop :=
  ∀ r, (items.map (WalkItem.weight p r)).sum = rows.count r

section Worth

variable {p : Program} {c : Context} {items others : List WalkItem} {rows more : List String}
  {α : Type}

theorem worth_nil : Worth p [] [] := fun _ => rfl

theorem worth_append (h : Worth p items rows) (k : Worth p others more) :
    Worth p (items ++ others) (rows ++ more) := by
  intro r
  rw [List.map_append, List.sum_append, h r, k r, List.count_append, Int.natCast_add]

theorem worthless_append (h : Worth p items []) (k : Worth p others more) :
    Worth p (items ++ others) more := worth_append h k

theorem append_worthless (h : Worth p items rows) (k : Worth p others []) :
    Worth p (items ++ others) rows :=
  List.append_nil rows ▸ worth_append h k

theorem worthless_flatMap {as : List α} {f : α → List WalkItem} (h : ∀ a ∈ as, Worth p (f a) []) :
    Worth p (as.flatMap f) [] := by
  induction as with
  | nil => exact worth_nil
  | cons a as ih =>
    exact append_worthless (h a (List.mem_cons_self ..))
      (ih fun b hb => h b (List.mem_cons_of_mem _ hb))

theorem worthless_of (h : ∀ i ∈ items, ∀ r, i.weight p r = 0) : Worth p items [] := by
  intro r
  have hzero : items.map (WalkItem.weight p r) = items.map fun _ => 0 :=
    List.map_congr_left fun i hi => h i hi r
  rw [hzero]
  simp

theorem worthless_mentions (types : List IrType) : Worth p (c.mentions types) [] := by
  refine worthless_of fun i hi r => ?_
  obtain ⟨type, -, rfl⟩ := List.mem_map.mp hi
  rfl

theorem worthless_expressions (es : List Expr) : Worth p (c.expressions es) [] := by
  refine worthless_of fun i hi r => ?_
  obtain ⟨e, -, rfl⟩ := List.mem_map.mp hi
  rfl

theorem worth_row (q : String) : Worth p [rowItem q] [q] := by
  intro r
  simp only [rowItem, List.map_cons, List.map_nil, List.sum_cons, List.sum_nil, WalkItem.weight,
    Mark.weight, List.count_singleton, beq_iff_eq, add_zero]
  split <;> rfl

theorem worthless_reach {id : DeclId} (h : Worth p items (p.owed id)) :
    Worth p (.mark (.reach id) :: items) [] := by
  intro r
  rw [List.map_cons, List.sum_cons, h r]
  simp [WalkItem.weight, Mark.weight]

end Worth

/-! ## Code -/

namespace Program

variable {p : Program} {c : Context}

theorem worthless_variable (id : DeclId) : Worth p (p.bindingItems c id) [] := by
  unfold bindingItems
  split
  · exact worth_append (worthless_mentions _) (worthless_expressions _)
  · exact worth_nil

theorem worthless_statement (code : Statement) : Worth p (p.statementItems c code) [] := by
  unfold statementItems
  split
  · exact worthless_expressions _
  · exact worthless_variable _
  · split
    · exact fun _ => rfl
    · exact worth_nil

theorem worthless_call (call : Call) : Worth p (callItems c call) [] := by
  unfold callItems
  split
  · exact worthless_expressions _
  · exact worth_append (worthless_mentions _)
      (worth_append (worthless_expressions _) (worthless_expressions _))

theorem worthless_constructor (e : Expr) (call : Call) :
    Worth p (constructorItems c e call) [] := by
  refine worth_append (worthless_expressions _) (worth_append (worthless_expressions _) ?_)
  split
  · exact worth_nil
  · exact worthless_mentions _

theorem worthless_assignment (type : IrType) (es : List Expr) :
    Worth p (.mark (.borrow type) :: c.expressions es) [] :=
  worthless_of (List.forall_mem_cons.mpr ⟨fun _ => rfl, fun i hi r => by
    obtain ⟨e, -, rfl⟩ := List.mem_map.mp hi
    rfl⟩)

theorem worthless_parts (e : Expr) : Worth p (p.partItems c e) [] := by
  unfold partItems
  cases e.kind with
  | call call => exact worthless_call call
  | constructorCall call => exact worthless_constructor e call
  | enumConstructorCall call => exact worthless_constructor e call
  | delegatingConstructorCall call =>
    dsimp only
    split
    · exact worth_append (worthless_expressions _) (worthless_expressions _)
    · exact worth_nil
  | tryExpr result catches finish =>
    refine worth_append (worthless_expressions _)
      (append_worthless (worthless_flatMap fun clause _ => ?_) (worthless_expressions _))
    exact worth_append (worthless_variable _) (worthless_expressions _)
  | block statements => exact worthless_flatMap fun code _ => worthless_statement code
  | getValue symbol => exact worthless_mentions _
  | setValue symbol value => exact worthless_assignment _ _
  | setField field value => exact worthless_assignment _ _
  | «when» origin branches => exact worthless_flatMap fun b _ => worthless_expressions _
  | typeOperator operator operand argument =>
    dsimp only
    split
    · exact worth_nil
    · exact worth_append (worthless_mentions _) (worthless_expressions _)
  | vararg elements =>
    refine worthless_flatMap fun element _ => ?_
    cases element with
    | expr e => exact worthless_expressions _
    | spread e => exact worth_nil
  | throwExpr _ => exact worthless_expressions _
  | returnExpr _ => exact worthless_expressions _
  | whileLoop _ => exact worthless_expressions _
  | doWhileLoop _ => exact worthless_expressions _
  | stringConcatenation _ => exact worthless_expressions _
  | getClass _ => exact worthless_expressions _
  | _ => exact worth_nil

theorem worthless_expression (e : Expr) : Worth p (p.expressionItems c e) [] :=
  worth_append (worthless_mentions _) (worthless_parts e)

/-! ## Declarations -/

theorem worthless_typeParameter (id : DeclId) : Worth p (p.typeParameterItems id) [] := by
  unfold typeParameterItems
  split
  · exact fun _ => rfl
  · exact worth_nil

theorem kind?_of_decl? {id : DeclId} {d : Declaration} (h : p.decl? id = some d) :
    p.kind? id = some d.kind := by rw [kind?, h]; rfl

theorem worth_parameters (ids : List DeclId) : Worth p (ids.flatMap (p.parameterItems c))
    ((ids.filter p.isValueParameter).map fun _ => "params") := by
  induction ids with
  | nil => exact worth_nil
  | cons id ids ih =>
    rw [List.flatMap_cons, List.filter_cons]
    unfold parameterItems
    split
    · next hd =>
      have hvalue : p.isValueParameter id = true := by rw [isValueParameter, kind?_of_decl? hd]
      rw [if_pos hvalue]
      exact worth_append (worth_append (worthless_mentions _) (worth_row _)) ih
    · next hnot =>
      have hother : ¬p.isValueParameter id = true := by
        unfold isValueParameter kind?
        intro hvalue
        split at hvalue
        · next hkind =>
          obtain ⟨⟨parent, origin, span, kind⟩, hd, rfl⟩ := Option.map_eq_some_iff.mp hkind
          exact hnot _ _ _ _ hd
        · cases hvalue
      rw [if_neg hother]
      exact worth_append worth_nil ih

theorem worth_callable (f : FunctionDecl) :
    Worth p (p.callableItems c f) [if f.isConstructor then "constrs" else "methods"] := by
  unfold callableItems
  split
  · exact worth_row _
  · exact worth_append (worthless_mentions _)
      (append_worthless (worth_row _) (worthless_mentions _))

theorem worthless_body (f : FunctionDecl) : Worth p (p.bodyItems c f) [] := by
  unfold bodyItems
  split
  · exact worthless_flatMap fun code _ => worthless_statement code
  · exact worth_nil

theorem worthless_function (id : DeclId) : Worth p (p.functionItems c id) [] := by
  unfold functionItems
  split
  · next f hd hf =>
    obtain ⟨d, hd, hkind⟩ := decl_of_function? hf
    refine worthless_reach ?_
    rw [owed, kind?_of_decl? hd, hkind]
    have parameters : Worth p (f.typeParameters.flatMap p.typeParameterItems) [] :=
      worthless_flatMap fun id _ => worthless_typeParameter id
    exact worthless_append parameters (worth_append (worth_callable f)
      (worthless_append (worthless_body f) (worth_parameters f.valueParameters)))
  · exact worth_nil

theorem worthless_field (id : DeclId) : Worth p (p.fieldItems c id) [] := by
  unfold fieldItems
  split
  · next f _ hf =>
    obtain ⟨d, hd, hkind⟩ := decl_of_field? hf
    refine worthless_reach ?_
    rw [owed, kind?_of_decl? hd, hkind]
    exact worth_append (worthless_mentions _) (worth_row _)
  · exact worth_nil

theorem worthless_property (id : DeclId) : Worth p (p.propertyItems c id) [] := by
  unfold propertyItems
  split
  · next hd =>
    refine worthless_reach ?_
    rw [owed, kind?_of_decl? hd]
    refine append_worthless (worth_row _) (append_worthless ?_ (append_worthless ?_ ?_))
    · exact worthless_flatMap fun getter _ => worthless_function getter
    · exact worthless_flatMap fun setter _ => worthless_function setter
    · exact worthless_flatMap fun field _ => worthless_field field
  · exact worth_nil

theorem enumClass?_isSome {id : DeclId} {d : Declaration} (h : p.decl? id = some d) :
    (Walk.enumClass? p d).isSome = (p.parentClass? id).isSome := by
  rw [Walk.enumClass?, parentClass?, h]
  cases hparent : d.parent with
  | decl parent => cases hclass : p.class? parent <;> simp [hparent, isClass, hclass]
  | _ => simp [hparent]

theorem worthless_enumEntry {id : DeclId} {name : String}
    (h : p.kind? id = some (.enumEntry name)) : Worth p (p.enumEntryItems id) [] := by
  unfold enumEntryItems
  split
  · exact worth_nil
  · next d hd =>
    refine worthless_reach ?_
    rw [owed, h, enumClass?_isSome hd]
    dsimp only
    split
    · exact worth_row _
    · exact worth_nil

theorem worthless_typeAlias (id : DeclId) : Worth p (p.typeAliasItems c id) [] := by
  unfold typeAliasItems
  split
  · next hd =>
    refine worthless_reach ?_
    rw [owed, kind?_of_decl? hd]
    exact worth_append (worthless_mentions _) (worth_row _)
  · exact worth_nil

theorem worthless_member (id : DeclId) : Worth p (p.memberItems c id) [] := by
  unfold memberItems
  cases hkind : p.kind? id with
  | none => exact worth_nil
  | some kind =>
    cases kind with
    | «class» k => exact fun _ => rfl
    | function f => exact worthless_function id
    | property x => exact worthless_property id
    | enumEntry name => exact worthless_enumEntry hkind
    | typeAlias x => exact worthless_typeAlias id
    | field f => exact worthless_field id
    | _ =>
      refine worthless_reach ?_
      rw [owed, hkind]
      exact worth_nil

theorem worthless_initialization (i : Walk.Initialization) :
    Worth p (p.initializationItems c i) [] := by
  cases i with
  | statement code => exact worthless_statement code
  | field id f value span =>
    exact worth_append (worthless_mentions _)
      (worth_append (worthless_mentions _) (worthless_expressions _))

theorem worth_obinit (id : DeclId) (k : ClassDecl) :
    Worth p (p.obinitItems c id k) (if p.isExternal id then [] else ["methods"]) := by
  unfold obinitItems
  split
  · exact worth_nil
  · exact append_worthless (worth_row _) (worthless_flatMap fun i _ => worthless_initialization i)

theorem worth_object (k : ClassDecl) :
    Worth p (objectItems k) (if k.isNonCompanionObject then ["fields"] else []) := by
  unfold objectItems
  split
  · exact worth_row _
  · exact worth_nil

theorem worth_companion (id : DeclId) (k : ClassDecl) : Worth p (p.companionItems id k)
    (if (p.parentClass? id).isSome && k.isCompanion then ["fields"] else []) := by
  unfold companionItems
  split
  · exact worth_row _
  · exact worth_nil

theorem worthless_class (id : DeclId) : Worth p (p.classItems c id) [] := by
  unfold classItems
  split
  · next k _ hk =>
    obtain ⟨d, hd, hkind⟩ := decl_of_class? hk
    refine worthless_reach ?_
    rw [owed, kind?_of_decl? hd, hkind]
    have parameters : Worth p (k.typeParameters.flatMap p.typeParameterItems) [] :=
      worthless_flatMap fun id _ => worthless_typeParameter id
    have members : Worth p (k.members.flatMap (p.memberItems (c.within k.typeParameters))) [] :=
      worthless_flatMap fun id _ => worthless_member id
    refine worth_append (worth_companion id k)
      (worthless_append parameters (worthless_append members ?_))
    exact worth_append (worth_obinit id k)
      (append_worthless (worth_object k) (worthless_mentions _))
  · exact worth_nil

theorem worthless_file (file : FileId) : Worth p (p.fileItems c file) [] := by
  unfold fileItems
  split
  · exact worthless_flatMap fun id _ => worthless_member id
  · exact worth_nil

end Program

/-! ## A whole walk -/

/-- The declarations that are reached, each as often as it is. -/
def reached (ms : List Mark) : List DeclId :=
  ms.filterMap fun
    | .reach id => some id
    | _ => none

def Mark.isRow (r : String) : Mark → Bool
  | .row q => q = r
  | _ => false

variable {p : Program} {items : List WalkItem} {ms : List Mark}

theorem Unfolds.weight (h : Unfolds p items ms) (r : String) :
    (ms.map (Mark.weight p r)).sum = (items.map (WalkItem.weight p r)).sum := by
  induction h with
  | nil => rfl
  | mark _ ih =>
    rw [List.map_cons, List.map_cons, List.sum_cons, List.sum_cons, ih]
    rfl
  | expression _ ih =>
    rw [ih, List.map_append, List.sum_append, Program.worthless_expression _ r, List.map_cons,
      List.sum_cons]
    rfl
  | classBody _ ih =>
    rw [ih, List.map_append, List.sum_append, Program.worthless_class _ r, List.map_cons,
      List.sum_cons]
    rfl

theorem sum_weight (p : Program) (r : String) (ms : List Mark) :
    (ms.map (Mark.weight p r)).sum =
      (ms.countP (Mark.isRow r) : Int) - ((reached ms).map fun id => (p.owed id).count r).sum := by
  induction ms with
  | nil => rfl
  | cons m ms ih =>
    rw [List.map_cons, List.sum_cons, ih, List.countP_cons]
    cases m with
    | row q =>
      have hreached : reached (.row q :: ms) = reached ms := rfl
      rw [hreached, Mark.weight, Mark.isRow]
      simp only [decide_eq_true_eq]
      split <;> omega
    | reach id =>
      have hreached : reached (.reach id :: ms) = id :: reached ms := rfl
      have hrow : Mark.isRow r (.reach id) = false := rfl
      rw [hreached, List.map_cons, List.sum_cons, hrow, Mark.weight, if_neg Bool.false_ne_true]
      omega
    | _ => simp [Mark.weight, Mark.isRow, reached]

theorem Unfolds.rows {c : Context} {file : FileId} (h : Unfolds p (p.fileItems c file) ms)
    (r : String) :
    ms.countP (Mark.isRow r) = ((reached ms).map fun id => (p.owed id).count r).sum := by
  have hweight := h.weight r
  rw [Program.worthless_file file r, sum_weight] at hweight
  rw [List.count_nil] at hweight
  omega

end IrFacts
