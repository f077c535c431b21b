import IrFacts.Proofs.Run.Growth

/-!
# Operations of a session

A session is driven by two kinds of operations: a reference asks for the label
of something, an extraction writes what there is to be said of it.
-/

set_option autoImplicit false

namespace IrFacts

/-- Something that can be referred to. -/
inductive Reference where
  | type (type : IrType)
  /-- A type where no host primitive can stand. -/
  | referenceType (type : IrType)
  | classInstance (id : DeclId) (arguments : List TypeArgument)
  | classSource (id : DeclId)
  | function (id : DeclId)
  | field (id : DeclId)
  | property (id : DeclId)
  | enumEntry (id : DeclId)
  | typeAlias (id : DeclId)
  | typeParameter (id : DeclId)
  | valueParameter (id : DeclId)
  | localVariable (id : DeclId)

inductive Answer where
  | label (label : Label)
  | classInstance (found : ClassInstance)
  | views (views : TypeViews)

namespace Reference

def ask (π : Projection) : Reference → Extract Answer
  | .type t => return .views (← π.type true t)
  | .referenceType t => return .views (← π.type false t)
  | .classInstance id arguments => return .classInstance (← π.classInstance id arguments)
  | .classSource id => return .label (← π.classSource id)
  | .function id => return .label (← π.function id)
  | .field id => return .label (← π.field id)
  | .property id => return .label (← π.property id)
  | .enumEntry id => return .label (← π.enumEntry id)
  | .typeAlias id => return .label (← π.typeAlias id)
  | .typeParameter id => return .label (← π.typeParameterUse id)
  | .valueParameter id => return .label (← π.valueParameter id)
  | .localVariable id => return .label (← Projection.localVariable id)

end Reference

inductive Operation where
  | refer (r : Reference)
  | file (id : FileId)
  | declaration (parent : Label) (id : DeclId)
  | classSource (id : DeclId)
  | function (parent : Label) (id : DeclId)
  | field (parent : Label) (id : DeclId)
  | property (parent : Label) (id : DeclId)
  | enumEntry (parent : Label) (id : DeclId)
  | typeAlias (id : DeclId)
  | statement (callable parent : Label) (index : Int) (statement : Statement)
  | expression (callable : Label) (slot : Slot) (e : Expr)

namespace Operation

open Extract

def perform (w : Walk) : Operation → Extract Unit
  | .refer r => do let _ ← r.ask w.toProjection
  | .file id => w.extractFile id
  | .declaration parent id => w.extractDeclaration parent id
  | .classSource id => do let _ ← w.classDeclaration id
  | .function parent id => do let _ ← w.extractFunction parent id
  | .field parent id => do let _ ← w.extractField parent id
  | .property parent id => w.extractProperty parent id
  | .enumEntry parent id => w.extractEnumEntry parent id
  | .typeAlias id => w.extractTypeAlias id
  | .statement callable parent index code => w.statement callable parent index code
  | .expression callable slot e => w.expression callable slot e

end Operation

/-! ## Operations keep to a scope -/

namespace Scope

variable {σ : Scope} {p : Program} {s t : Session} {π : Projection} {w : Walk}

theorem does_ask (hπ : σ.Covers p π) (hp : σ.Allows p) (r : Reference) :
    σ.Does p s (r.ask π) Any := by
  cases r with
  | type t => exact does_bind (hπ.type s true t) fun _ _ _ _ => does_pure trivial
  | referenceType t => exact does_bind (hπ.type s false t) fun _ _ _ _ => does_pure trivial
  | classInstance id arguments =>
    exact does_bind (hπ.classInstance s id arguments) fun _ _ _ _ => does_pure trivial
  | classSource id => exact does_bind (does_classSource hπ hp id) fun _ _ _ _ => does_pure trivial
  | function id => exact does_bind (does_function hπ hp id) fun _ _ _ _ => does_pure trivial
  | field id => exact does_bind (does_member? hπ hp (by decide) id) fun _ _ _ _ => does_pure trivial
  | property id =>
    exact does_bind (does_member? hπ hp (by decide) id) fun _ _ _ _ => does_pure trivial
  | enumEntry id =>
    exact does_bind (does_member? hπ hp (by decide) id) fun _ _ _ _ => does_pure trivial
  | typeAlias id =>
    exact does_bind (does_member? hπ hp (by decide) id) fun _ _ _ _ => does_pure trivial
  | typeParameter id =>
    exact does_bind (does_typeParameterUse hπ hp id) fun _ _ _ _ => does_pure trivial
  | valueParameter id =>
    exact does_bind (does_valueParameter hπ hp id) fun _ _ _ _ => does_pure trivial
  | localVariable id => exact does_bind (does_localVariable id) fun _ _ _ _ => does_pure trivial

def KnowsOperation (σ : Scope) (s : Session) : Operation → Prop
  | .declaration parent _ => σ.Knows s parent
  | .function parent _ => σ.Knows s parent
  | .field parent _ => σ.Knows s parent
  | .property parent _ => σ.Knows s parent
  | .enumEntry parent _ => σ.Knows s parent
  | .statement callable parent _ _ => σ.Knows s callable ∧ σ.Knows s parent
  | .expression callable slot _ => σ.Knows s callable ∧ σ.Knows s slot.parent
  | _ => True

theorem KnowsOperation.imp {τ : Scope} {op : Operation} (h : σ.KnowsOperation s op)
    (hmore : ∀ l, σ.Knows s l → τ.Knows t l) : τ.KnowsOperation t op := by
  cases op with
  | statement callable parent index code => exact ⟨hmore _ h.1, hmore _ h.2⟩
  | expression callable slot e => exact ⟨hmore _ h.1, hmore _ h.2⟩
  | declaration parent id => exact hmore _ h
  | function parent id => exact hmore _ h
  | field parent id => exact hmore _ h
  | property parent id => exact hmore _ h
  | enumEntry parent id => exact hmore _ h
  | _ => trivial

theorem does_perform (hc : σ.WritesCode) (hzero : σ.errors = 0) (hp : σ.Allows p)
    (hw : σ.CoversWalk p w) {op : Operation} (hop : σ.KnowsOperation s op) :
    σ.Does p s (op.perform w) Any := by
  cases op with
  | refer r => exact does_bind (does_ask hw.toCovers hp r) fun _ _ _ _ => does_pure trivial
  | file id => exact does_extractFile hc hp hw id
  | declaration parent id => exact does_extractDeclaration hc hp hw hop id
  | classSource id => exact does_bind (hw.classDeclaration s id) fun _ _ _ _ => does_pure trivial
  | function parent id =>
    exact does_bind (does_extractFunction hc hp hw hop id) fun _ _ _ _ => does_pure trivial
  | field parent id =>
    exact does_bind (does_extractField hp hw.toCovers hop id) fun _ _ _ _ => does_pure trivial
  | property parent id => exact does_extractProperty hc hp hw hop id
  | enumEntry parent id => exact does_extractEnumEntry hp hw.toCovers hop id
  | typeAlias id => exact does_extractTypeAlias hp hw.toCovers id
  | statement callable parent index code =>
    exact does_statement hc hw hop.1 hop.2 index fun _ _ => .inl hzero
  | expression callable slot e => exact hw.expression s callable slot e hop.1 hop.2 (.inl hzero)

end Scope

end IrFacts
