import IrFacts.Proofs.Code.Unfolding
import IrFacts.Proofs.Run.Script

/-!
# Readings

The same can be asked of every step of a walk: what it writes, what it passes,
whether it is a script. A reading is one such question. It says something of
single actions, and goes through all the ways in which actions are put together,
so it is enough to know what it says of rows, of projection and of the few
actions that walks are made of. What it says of code and of declarations is then
the same for every reading.

Some actions need that a label was made known before, others that the row above
is of a certain kind. A reading has worlds to remember that in.
-/

set_option autoImplicit false

namespace IrFacts

namespace Trap

/-- Relations that only some operations write. -/
def countedRelations : List String :=
  ["typeArgs", "isParameterized", "erasure", "methods", "fields", "constrs", "params",
    "ktProperties", "kt_type_alias"]

def rowRelations : List String :=
  ["methods", "fields", "constrs", "params", "ktProperties", "kt_type_alias"]

/-- Relations whose facts tell of a class, or of anything that has a place. -/
def subjectRelations : List String := ["classes", "interfaces", "extendsReftype", "hasLocation"]

/-- The relations that some reading has a concern with. -/
def noticedRelations : List String :=
  countedRelations ++ subjectRelations ++ introducingRelations ++ ["exprs"]

/-- The rows under which type accesses are type arguments. -/
def ExprKind.TakesTypes (kind : ExprKind) : Prop := kind = .methodAccess ∨ kind = .typeAccess

end Trap

/-- The marks that no reading has a concern with. -/
def Mark.Passing : Mark → Prop
  | .reach _ | .mention _ _ | .borrow _ => True
  | .row _ | .declare _ => False

/-- How the row of an expression is located: at a span, or in a place that is known already. -/
inductive Walk.Places : (Label → Extract Unit) → Prop
  | span (span : Span) : Places fun id => Extract.locate id span
  | place (place : Label) : Places fun id => Extract.write (.hasLocation id place)

open Extract in
structure Reading (p : Program) where
  World : Type
  /-- What is said of an action that passes the items, begun in a world. -/
  Says : {α : Type} → World → Extract α → List WalkItem → (α → World → Prop) → Prop
  Later : World → World → Prop
  /-- A label that places may be told of. -/
  Told : Label → World → Prop
  /-- A label that a row of this kind was written under. -/
  Drawn : Trap.ExprKind → Label → World → Prop
  /-- Whether the code stands inside of a function. -/
  Inside : Bool → World → Prop
  /-- Whether the items matter. -/
  Counts : Prop
  later_refl : ∀ x, Later x x
  later_trans : ∀ {x y z}, Later x y → Later y z → Later x z
  told_later : ∀ {x y l}, Told l x → Later x y → Told l y
  drawn_later : ∀ {x y kind l}, Drawn kind l x → Later x y → Drawn kind l y
  inside_later : ∀ {x y b}, Inside b x → Later x y → Inside b y
  -- How actions are put together.
  says_pure : ∀ {α x} {r : α} {Q : α → World → Prop}, Q r x → Says x (pure r) [] Q
  says_bind : ∀ {α β x} {m : Extract α} {f : α → Extract β} {items others : List WalkItem}
    {Q : α → World → Prop} {R : β → World → Prop}, Says x m items Q →
      (∀ r y, Later x y → Q r y → Says y (f r) others R) → Says x (m >>= f) (items ++ others) R
  says_throw : ∀ {α x e items} {Q : α → World → Prop}, Says x (throw e) items Q
  says_read : ∀ {β x items} {f : Program → Extract β} {R : β → World → Prop},
    Says x (f p) items R → Says x (read >>= f) items R
  says_get : ∀ {β x items} {f : Session → Extract β} {R : β → World → Prop}, Permitted f →
    (∀ s, Told s.file.target.label x →
      (Counts → ∀ b, Inside b x → b = s.currentFunction.isSome) → Says x (f s) items R) →
        Says x (get >>= f) items R
  says_imp : ∀ {α x items} {m : Extract α} {Q R : α → World → Prop}, Says x m items Q →
    (∀ r y, Later x y → Q r y → R r y) → Says x m items R
  says_and : ∀ {α x items} {m : Extract α} {Q : α → World → Prop} {P : α → Prop}, Says x m items Q →
    (∀ s r t, Ends p s m r t → P r) → Says x m items fun r y => P r ∧ Q r y
  says_convert : ∀ {α x items others} {m : Extract α} {Q : α → World → Prop},
    (Counts → items = others) → Says x m items Q → Says x m others Q
  says_mark : ∀ {α x items} {m : Extract α} {Q : α → World → Prop} (mark : Mark), mark.Passing →
    Says x m items Q → Says x m (.mark mark :: items) Q
  says_expression : ∀ {α x c e} {m : Extract α} {Q : α → World → Prop},
    Says x m (p.expressionItems c e) Q → Says x m [.expression c e] Q
  says_classBody : ∀ {α x c id} {m : Extract α} {Q : α → World → Prop},
    Says x m (p.classItems c id) Q → Says x m [.classBody c id] Q
  says_inFunction : ∀ {α x id items} {action : Extract α},
    (∀ y, Inside true y → Says y action items fun _ _ => True) →
      Says x (Walk.inFunction id action) items fun _ _ => True
  -- The actions that walks are made of.
  says_fresh : ∀ x, Says x fresh [] Told
  says_write : ∀ {x r args}, r ∉ Trap.noticedRelations →
    Says x (write ⟨r, args⟩) [] fun _ _ => True
  says_tell : ∀ {x r l args}, r ∈ Trap.subjectRelations → Told l x →
    Says x (write ⟨r, .label l :: args⟩) [] fun _ _ => True
  says_row : ∀ {x r args}, r ∈ Trap.rowRelations →
    Says x (write ⟨r, args⟩) [rowItem r] fun _ _ => True
  says_typeArgument : ∀ {x callable views parent index}, Drawn .typeAccess parent x →
    Says x (do Walk.typeArgument callable (← fresh) views parent index) [] fun _ _ => True
  says_location : ∀ x span, Says x (location span) [] fun _ _ => True
  says_wholeFile : ∀ x, Says x wholeFile [] fun _ _ => True
  says_complain : ∀ {x problem}, (∀ key, problem ≠ .missingTypeParameter key) →
    Says x (complain problem) [] fun _ _ => True
  says_complainAt : ∀ {x problem span}, (∀ key, problem ≠ .missingTypeParameter key) →
    Says x (complainAt problem span) [] fun _ _ => True
  says_openLoop : ∀ {x l} (id : LoopId), Told l x →
    Says x (Walk.openLoop id l) [] fun _ _ => True
  says_closeLoop : ∀ x id, Says x (Walk.closeLoop id) [] fun _ _ => True
  says_callableLabel : ∀ {x key}, "callable;".toList <+: key.toList →
    Says x (labelFor key) [] Told
  says_packageLabel : ∀ x name, Says x (packageLabel name) [] fun _ _ => True
  says_fileClassLabel : ∀ x file, Says x (fileClassLabel file) [] Told
  says_addModifiers : ∀ {x entity names}, Told entity x →
    Says x (addModifiers entity names) [] fun _ _ => True
  says_localVariable : ∀ x id, Says x (Projection.localVariable id) [] Told

namespace Reading

open Extract

attribute [grind →] told_later drawn_later inside_later

abbrev Any {α World : Type} : α → World → Prop := fun _ _ => True

/-- What a reading says of projection. The types of a program are passed, and those that come
from elsewhere are borrowed. -/
structure Follows {p : Program} (ρ : Reading p) (π : Projection) : Prop where
  mention : ∀ (c : Context) type primitives x,
    ρ.Says x (π.type primitives type) (c.mentions [type]) Any
  borrow : ∀ type primitives x, ρ.Says x (π.type primitives type) [.mark (.borrow type)] Any
  erased : ∀ type x, ρ.Says x (π.type true (p.erase type)) [] Any
  unit : ∀ x, ρ.Says x (π.type true (p.builtinType "Unit")) [] Any
  classInstance : ∀ id x, ρ.Says x (π.classInstance id []) [] Any
  classType : ∀ id x, ρ.Says x (π.classType id [] false) [] Any
  /-- A supertype is passed without its nullability. -/
  supertype : ∀ (c : Context) {u : SimpleType} {id}, u.classifier = .ofClass id → ∀ x,
    ρ.Says x (π.classInstance id u.arguments) (c.mentions [.simple u]) Any
  typeParameter : ∀ id x, ρ.Says x (π.typeParameter id) (p.typeParameterItems id) ρ.Told
  function : ∀ id x, ρ.Says x (π.function id) [] ρ.Told
  classSource : ∀ id x, ρ.Says x (π.classSource id) [] ρ.Told
  field : ∀ id x, ρ.Says x (π.field id) [] ρ.Told
  property : ∀ id x, ρ.Says x (π.property id) [] ρ.Told
  enumEntry : ∀ id x, ρ.Says x (π.enumEntry id) [] ρ.Told
  typeAlias : ∀ id x, ρ.Says x (π.typeAlias id) [] ρ.Told
  value : ∀ id x, ρ.Says x (π.value id) [] ρ.Told
  valueParameter : ∀ id x, ρ.Says x (π.valueParameter id) [] ρ.Told
  objectField : ∀ id x, ρ.Says x (π.objectField id) [] fun field y => ρ.Told field.1 y
  companionField? : ∀ id x,
    ρ.Says x (π.companionField? id) [] fun found y => ∀ field ∈ found, ρ.Told field.1 y
  /-- The key of what initializes the instances of a class. -/
  obinitKey : ∀ id unit x, ρ.Says x (π.callableKey (.decl id) "<obinit>" [] unit) [] Any
  /-- An access to a type is not to look like a type argument. -/
  exprRow : ∀ {x kind type parent index enclosing items} {place : Label → Extract Unit},
    Walk.Places place → (∀ y, ρ.Says y (π.type true type) items Any) →
      (kind = .typeAccess → ∃ above, ρ.Drawn above parent x ∧ ¬above.TakesTypes) →
        ρ.Says x (do
          let id ← fresh
          let type ← π.type true type
          writeExpr id kind type.host.label type.rich.label parent index
          place id
          write (.callableEnclosingExpr id enclosing)
          return id) items fun id y => ρ.Drawn kind id y
  methodArgument : ∀ {x type parent index callable items},
    (∀ y, ρ.Says y (π.type false type) items Any) → ρ.Drawn .methodAccess parent x →
      ρ.Says x (do
        let access ← fresh
        let type ← π.type false type
        Walk.typeArgument callable access type parent index) items Any
  variableRow : ∀ {x l name type span parent index callable items others}
    {rest : Label → Extract Unit}, (∀ y, ρ.Says y (π.type true type) items Any) →
      ρ.Told l x →
        (∀ expr y, ρ.Later x y → ρ.Drawn .localVariableDecl expr y →
          ρ.Says y (rest expr) others Any) →
            ρ.Says x (do
              let expr ← fresh
              let type ← π.type true type
              let place ← location span
              write (.localvars l name type.host.label type.rich.label expr)
              write (.hasLocation l place)
              writeExpr expr .localVariableDecl type.host.label type.rich.label parent index
              write (.hasLocation expr place)
              write (.callableEnclosingExpr expr callable)
              rest expr) (items ++ others) Any

variable {p : Program} {ρ : Reading p} {x : ρ.World} {c : Context} {α β : Type}

/-! ## How actions are put together -/

theorem Says.of_eq {m : Extract α} {items others : List WalkItem} {Q : α → ρ.World → Prop}
    (h : ρ.Says x m items Q) (he : items = others) : ρ.Says x m others Q := he ▸ h

theorem Says.any {m : Extract α} {items : List WalkItem} {Q : α → ρ.World → Prop}
    (h : ρ.Says x m items Q) : ρ.Says x m items Any := ρ.says_imp h fun _ _ _ _ => trivial

theorem Says.reach {m : Extract α} {items : List WalkItem} {Q : α → ρ.World → Prop} {id : DeclId}
    (h : ρ.Says x m items Q) : ρ.Says x m (.mark (.reach id) :: items) Q :=
  ρ.says_mark _ trivial h

theorem Says.mentions {types : List IrType} {m : Extract α} {items : List WalkItem}
    {Q : α → ρ.World → Prop} (h : ρ.Says x m items Q) :
    ρ.Says x m (c.mentions types ++ items) Q := by
  induction types with
  | nil => exact h
  | cons type types ih => exact ρ.says_mark _ trivial ih

theorem quiet_bind {m : Extract α} {f : α → Extract β} {items : List WalkItem}
    {Q : α → ρ.World → Prop} {R : β → ρ.World → Prop} (hm : ρ.Says x m [] Q)
    (hf : ∀ r y, ρ.Later x y → Q r y → ρ.Says y (f r) items R) : ρ.Says x (m >>= f) items R :=
  ρ.says_bind hm hf

theorem bind_quiet {m : Extract α} {f : α → Extract β} {items : List WalkItem}
    {Q : α → ρ.World → Prop} {R : β → ρ.World → Prop} (hm : ρ.Says x m items Q)
    (hf : ∀ r y, ρ.Later x y → Q r y → ρ.Says y (f r) [] R) : ρ.Says x (m >>= f) items R :=
  Says.of_eq (ρ.says_bind hm hf) (List.append_nil items)

theorem says_ite {d : Prop} [Decidable d] {m n : Extract α} {items : List WalkItem}
    {Q : α → ρ.World → Prop} (hm : d → ρ.Says x m items Q) (hn : ¬d → ρ.Says x n items Q) :
    ρ.Says x (if d then m else n) items Q := by
  split
  · next h => exact hm h
  · next h => exact hn h

theorem quiet_when {d : Prop} [Decidable d] {m : Extract Unit} (hm : d → ρ.Says x m [] Any) :
    ρ.Says x (if d then m else pure ()) [] Any :=
  says_ite hm fun _ => ρ.says_pure trivial

theorem quiet_when_bind {d : Prop} [Decidable d] {m : Extract Unit} {f : Unit → Extract β}
    {items : List WalkItem} {R : β → ρ.World → Prop} (hm : d → ρ.Says x m [] Any)
    (hf : ∀ y, ρ.Later x y → ρ.Says y (f ()) items R) :
    ρ.Says x (if d then m >>= f else f ()) items R := by
  rw [when_bind]
  exact quiet_bind (quiet_when hm) fun _ y h _ => hf y h

theorem says_forM {as : List α} {f : α → Extract PUnit} {items : α → List WalkItem}
    (h : ∀ b ∈ as, ∀ y, ρ.Later x y → ρ.Says y (f b) (items b) Any) :
    ρ.Says x (as.forM f) (as.flatMap items) Any := by
  induction as generalizing x with
  | nil => exact ρ.says_pure trivial
  | cons b as ih =>
    refine ρ.says_bind (h b (by simp) x (ρ.later_refl x)) fun _ y hy _ => ?_
    exact ih fun d hd z hz => h d (by simp [hd]) z (ρ.later_trans hy hz)

theorem says_zipIdx {as : List α} {f : α × Nat → Extract PUnit} {items : α → List WalkItem}
    {n : Nat} (h : ∀ b ∈ as, ∀ i y, ρ.Later x y → ρ.Says y (f (b, i)) (items b) Any) :
    ρ.Says x ((as.zipIdx n).forM f) (as.flatMap items) Any := by
  have hall : ρ.Says x ((as.zipIdx n).forM f) ((as.zipIdx n).flatMap fun e => items e.1) Any :=
    says_forM fun e he y hy => h e.1 (List.fst_mem_of_mem_zipIdx he) e.2 y hy
  refine hall.of_eq ?_
  rw [← List.flatMap_map Prod.fst items, List.zipIdx_map_fst]

theorem says_locate {l : Label} (span : Span) (hl : ρ.Told l x) :
    ρ.Says x (locate l span) [] Any :=
  quiet_bind (ρ.says_location x span) fun _ _ h _ => ρ.says_tell (by decide) (ρ.told_later hl h)

end Reading

end IrFacts
