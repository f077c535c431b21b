import IrFacts.Diagnostics.Severity
import IrFacts.Ir.Type

/-!
# Problems

Everything that an extraction can complain about. A problem never ends the
extraction: it is reported, and where a label is needed the placeholder stands
in. Each kind of problem has a rate limit of its own.
-/

set_option autoImplicit false

namespace IrFacts

inductive Problem where
  -- types and labels
  | unrecognisedType (description : String)
  | aliasIgnored (type : String)
  | typeOfNonClass (id : DeclId)
  | externalParent (id : DeclId)
  | declarationParent (what : String)
  | callTarget (id : DeclId)
  | notTypeParameter (id : DeclId)
  | missingTypeParameter (key : String)
  | notValueParameter (id : DeclId)
  | negativeIndex (name : String)
  | valueDeclaration (what : String)
  | notCompanion (name : String)
  | notObject (id : DeclId)
  | supertype (type name : String)
  -- declarations
  | noFile (id : FileId)
  | noDeclaration (id : DeclId)
  | unrecognisedDeclaration (what : String)
  | notClass (id : DeclId)
  | typeParameterParent (name : String)
  | notFunction (id : DeclId)
  | notParameter (id : DeclId)
  | notField (id : DeclId)
  | noGetter (name : String)
  | readOnlySetter (name : String)
  | noSetter (name : String)
  | enumEntryParent
  | genericEnum
  | genericAlias (name : String)
  -- statements and expressions
  | noLocalDeclaration (id : DeclId)
  | localDeclaration (what : String)
  | notVariable (id : DeclId)
  | spread
  | unrecognisedExpression (description : String)
  | delegationOutside
  | jumpTarget (jump : String)
  | thisOfClass
  | thisOfFunction
  | typeOperator
  | objectOfNonClass (id : DeclId)
deriving DecidableEq, Repr

namespace Problem

def message : Problem → String
  | .unrecognisedType description => "Unrecognised type: " ++ description
  | .aliasIgnored type => "Type alias ignored for " ++ type
  | .typeOfNonClass id => "Type refers to " ++ id.render ++ " which is not a class"
  | .externalParent id => "Unrecognised parent of external declaration " ++ id.render
  | .declarationParent what => "Unrecognised declaration parent: " ++ what
  | .callTarget id => "Call target " ++ id.render ++ " is not a function"
  | .notTypeParameter id => id.render ++ " is not a type parameter"
  | .missingTypeParameter key => "Missing type parameter label " ++ key
  | .notValueParameter id => id.render ++ " is not a value parameter"
  | .negativeIndex name => "Unexpected negative index for parameter " ++ name
  | .valueDeclaration what => "Unrecognised value declaration: " ++ what
  | .notCompanion name => "Using companion instance for non-companion class " ++ name
  | .notObject id => "Using instance for non-object class " ++ id.render
  | .supertype type name => "Unexpected supertype " ++ type ++ " of " ++ name
  | .noFile id => "No such file " ++ id.render
  | .noDeclaration id => "No such declaration " ++ id.render
  | .unrecognisedDeclaration what => "Unrecognised declaration: " ++ what
  | .notClass id => id.render ++ " is not a class"
  | .typeParameterParent name => "Unexpected parent of type parameter " ++ name
  | .notFunction id => id.render ++ " is not a function"
  | .notParameter id => id.render ++ " is not a value parameter"
  | .notField id => id.render ++ " is not a field"
  | .noGetter name => "Property " ++ name ++ " without a getter"
  | .readOnlySetter name => "Read-only property " ++ name ++ " with a setter"
  | .noSetter name => "Mutable property " ++ name ++ " without a setter"
  | .enumEntryParent => "Enum entry with unexpected parent"
  | .genericEnum => "Enum entry parent class has type parameters"
  | .genericAlias name => "Type parameters of type alias " ++ name ++ " ignored"
  | .noLocalDeclaration id => "No such declaration " ++ id.render
  | .localDeclaration what => "Unrecognised statement: local " ++ what
  | .notVariable id => id.render ++ " is not a local variable"
  | .spread => "Unrecognised vararg element: spread"
  | .unrecognisedExpression description => "Unrecognised expression: " ++ description
  | .delegationOutside => "Delegating constructor call outside a function"
  | .jumpTarget jump => "Missing " ++ jump ++ " target"
  | .thisOfClass => "Unexpected this receiver of a class"
  | .thisOfFunction => "Function-qualifier for this"
  | .typeOperator => "Unrecognised type operator"
  | .objectOfNonClass id => "Object value of non-class " ++ id.render

def site : Problem → String
  | .unrecognisedType _ => "types/unrecognised"
  | .aliasIgnored _ => "types/alias"
  | .typeOfNonClass _ => "types/non-class"
  | .externalParent _ => "labels/external-parent"
  | .declarationParent _ => "labels/declaration-parent"
  | .callTarget _ => "labels/call-target"
  | .notTypeParameter _ => "labels/type-parameter"
  | .missingTypeParameter _ => "labels/missing-type-parameter"
  | .notValueParameter _ => "labels/value-parameter"
  | .negativeIndex _ => "labels/negative-index"
  | .valueDeclaration _ => "labels/value-declaration"
  | .notCompanion _ => "labels/companion"
  | .notObject _ => "labels/object"
  | .supertype .. => "types/supertype"
  | .noFile _ => "declarations/file"
  | .noDeclaration _ => "declarations/missing"
  | .unrecognisedDeclaration _ => "declarations/unrecognised"
  | .notClass _ => "declarations/class"
  | .typeParameterParent _ => "declarations/type-parameter"
  | .notFunction _ => "declarations/function"
  | .notParameter _ => "declarations/parameter"
  | .notField _ => "declarations/field"
  | .noGetter _ => "declarations/getter"
  | .readOnlySetter _ => "declarations/read-only"
  | .noSetter _ => "declarations/setter"
  | .enumEntryParent => "declarations/enum-parent"
  | .genericEnum => "declarations/generic-enum"
  | .genericAlias _ => "declarations/generic-alias"
  | .noLocalDeclaration _ => "code/missing"
  | .localDeclaration _ => "code/local"
  | .notVariable _ => "code/variable"
  | .spread => "code/spread"
  | .unrecognisedExpression _ => "code/unrecognised"
  | .delegationOutside => "code/delegation"
  | .jumpTarget _ => "code/jump"
  | .thisOfClass => "code/this-of-class"
  | .thisOfFunction => "code/this-of-function"
  | .typeOperator => "code/type-operator"
  | .objectOfNonClass _ => "code/object"

/-- A file that does not exist leaves nothing to go on with. -/
def severity : Problem → Severity
  | .noFile _ => .errorGlobal
  | _ => .errorSevere

end Problem

end IrFacts
