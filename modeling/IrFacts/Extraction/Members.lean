import IrFacts.Extraction.Projection

/-!
# Labels of members and variables

Members are labelled under what they are nested in, parameters by their
position, and local variables once for each trap.
-/

set_option autoImplicit false

namespace IrFacts

namespace Projection

open Extract

variable (π : Projection)

def member (kind : String) (id : DeclId) : Extract Label := do
  match (← read).decl? id with
  | none => return .placeholder
  | some d =>
    let parent ← π.parent d.parent
    labelFor (kind ++ ";" ++ parent.braced ++ ";" ++ d.kind.name?.getD "")

def field (id : DeclId) : Extract Label := π.member "field" id

def property (id : DeclId) : Extract Label := π.member "property" id

def enumEntry (id : DeclId) : Extract Label := π.member "field" id

def typeAlias (id : DeclId) : Extract Label := π.member "type_alias" id

def valueParameter (id : DeclId) : Extract Label := do
  match (← read).decl? id with
  | some ⟨parent, _, span, .valueParameter v⟩ =>
    if v.index < 0 then complainAt (.negativeIndex v.name) span
    let parent ← π.parent parent
    labelFor ("params;" ++ parent.braced ++ ";" ++ toString v.index.toInt)
  | _ =>
    complain (.notValueParameter id)
    return .placeholder

/-- A local variable has a label of its own, made when it is first met. -/
def localVariable (id : DeclId) : Extract Label := do
  match (← get).locals.lookup id with
  | some label => return label
  | none =>
    let label ← fresh
    modify fun s => { s with locals := (id, label) :: s.locals }
    return label

def value (id : DeclId) : Extract Label := do
  match (← read).kind? id with
  | some (.valueParameter _) => π.valueParameter id
  | some (.variable _) => localVariable id
  | other =>
    complain (.valueDeclaration (describe other))
    return .placeholder

def companionField? (id : DeclId) : Extract (Option (Label × String)) := do
  let p ← read
  match p.class? id with
  | none => return none
  | some c =>
    match p.parentClass? id, c.isCompanion with
    | some outer, true =>
      let outer ← π.classInstance outer []
      return some (← labelFor ("field;" ++ outer.label.braced ++ ";" ++ c.name), c.name)
    | _, _ =>
      complain (.notCompanion c.name)
      return none

def objectField (id : DeclId) : Extract (Label × String) := do
  let isObject := match (← read).class? id with
    | some c => c.isNonCompanionObject
    | none => false
  if !isObject then complain (.notObject id)
  let host ← π.classInstance id []
  return (← labelFor ("field;" ++ host.label.braced ++ ";INSTANCE"), "INSTANCE")

end Projection

end IrFacts
