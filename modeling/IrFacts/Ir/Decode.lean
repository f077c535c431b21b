import IrFacts.Ir.Declaration
import IrFacts.Json.Decoder

/-!
# Decoding programs

The JSON form of each part of a program: a record for a structure, a tag for
each variant. Types and expressions nest, and every level opens a bracket, so
decoders for one level more than the brackets allow are never asked.
-/

set_option autoImplicit false

namespace IrFacts

open Json Json.Decoder

namespace DeclId

def decode : Decoder DeclId := fun depth node => (uint32 depth node).map DeclId.mk

end DeclId

namespace FileId

def decode : Decoder FileId := fun depth node => (uint32 depth node).map FileId.mk

end FileId

namespace LoopId

def decode : Decoder LoopId := fun depth node => (uint32 depth node).map LoopId.mk

end LoopId

/-! ## Places -/

def Span.decode : Decoder Span := fun depth node => do
  let r ← Reading.ofNode ["start", "end"] depth node
  let start := r.required "start" int32
  let stop := r.required "end" int32
  r.settle [("start", fault? start), ("end", fault? stop)]
  return { start := ← start, stop := ← stop }

def LineTable.decode : Decoder LineTable := fun depth node =>
  (list uint32 depth node).map fun starts => ⟨starts.toArray⟩

/-! ## Types -/

def Classifier.decode : Decoder Classifier := tagged fun
  | "class" => some (.holding fun depth node => (DeclId.decode depth node).map .ofClass)
  | "type_parameter" =>
    some (.holding fun depth node => (DeclId.decode depth node).map .ofTypeParameter)
  | _ => none

def Variance.decode : Decoder Variance := tagged fun
  | "invariant" => some (.bare .invariant)
  | "out" => some (.bare .covariant)
  | "in" => some (.bare .contravariant)
  | _ => none

def TypeArgument.decodeWith (type : Decoder IrType) : Decoder TypeArgument := tagged fun
  | "star" => some (.bare .star)
  | "projection" => some (.holding fun depth node => do
    let r ← Reading.ofNode ["variance", "ty"] depth node
    let variance := r.optional "variance" Variance.decode .invariant
    let type := r.required "ty" type
    r.settle [("variance", fault? variance), ("ty", fault? type)]
    return .projection (← variance) (← type))
  | _ => none

def SimpleType.decodeWith (type : Decoder IrType) : Decoder SimpleType := fun depth node => do
  let r ← Reading.ofNode ["classifier", "nullable", "arguments", "abbreviation"] depth node
  let classifier := r.required "classifier" Classifier.decode
  let isNullable := r.optional "nullable" bool false
  let arguments := r.optional "arguments" (list (TypeArgument.decodeWith type)) []
  let abbreviation := r.optional "abbreviation" (optionOf DeclId.decode) none
  r.settle [("classifier", fault? classifier), ("nullable", fault? isNullable),
    ("arguments", fault? arguments), ("abbreviation", fault? abbreviation)]
  return {
    classifier := ← classifier
    nullable := ← isNullable
    arguments := ← arguments
    abbreviation := ← abbreviation }

def IrType.decodeWith (type : Decoder IrType) : Decoder IrType := tagged fun
  | "simple" => some (.holding fun depth node =>
    (SimpleType.decodeWith type depth node).map .simple)
  | "error" => some (.holding fun depth node => do
    let r ← Reading.ofNode ["description"] depth node
    let description := r.required "description" string
    r.settle [("description", fault? description)]
    return .error (← description))
  | _ => none

def IrType.decodeWithin : Nat → Decoder IrType
  | 0 => fun _ _ => .error .malformed
  | levels + 1 => IrType.decodeWith (IrType.decodeWithin levels)

def IrType.decode : Decoder IrType := IrType.decodeWithin (maxDepth + 1)

/-! ## Expressions -/

def StatementOrigin.decode : Decoder StatementOrigin := tagged fun
  | "PLUS" => some (.bare .plus)
  | "MINUS" => some (.bare .minus)
  | "DIV" => some (.bare .div)
  | "PERC" => some (.bare .rem)
  | "EQEQ" => some (.bare .eq)
  | "EXCLEQ" => some (.bare .ne)
  | "LT" => some (.bare .lt)
  | "LTEQ" => some (.bare .le)
  | "GT" => some (.bare .gt)
  | "GTEQ" => some (.bare .ge)
  | "IF" => some (.bare .conditional)
  | _ => some (.bare .other)

def TypeOperator.decode : Decoder TypeOperator := tagged fun
  | "CAST" => some (.bare .cast)
  | "IMPLICIT_CAST" => some (.bare .implicitCast)
  | "IMPLICIT_NOTNULL" => some (.bare .implicitNotNull)
  | "IMPLICIT_COERCION_TO_UNIT" => some (.bare .implicitCoercionToUnit)
  | "INSTANCEOF" => some (.bare .instanceOf)
  | "NOT_INSTANCEOF" => some (.bare .notInstanceOf)
  | _ => some (.bare .other)

def ConstValue.decode : Decoder ConstValue := tagged fun
  | "int" => some (.holding fun depth node => (Decoder.int32 depth node).map .int)
  | "short" => some (.holding fun depth node => (Decoder.int16 depth node).map .short)
  | "byte" => some (.holding fun depth node => (Decoder.int8 depth node).map .byte)
  | "long" => some (.holding fun depth node => (Decoder.int64 depth node).map .long)
  | "float" => some (.holding fun depth node => (Decoder.float32 depth node).map .float)
  | "double" => some (.holding fun depth node => (Decoder.float depth node).map .double)
  | "boolean" => some (.holding fun depth node => (Decoder.bool depth node).map .boolean)
  | "char" => some (.holding fun depth node => (Decoder.char depth node).map .char)
  | "string" => some (.holding fun depth node => (Decoder.string depth node).map .string)
  | "null" => some (.bare .null)
  | _ => none

def Jump.decode : Decoder Jump := fun depth node => do
  let r ← Reading.ofNode ["loop", "label"] depth node
  let loopId := r.required "loop" LoopId.decode
  let label := r.optional "label" (optionOf string) none
  r.settle [("loop", fault? loopId), ("label", fault? label)]
  return { loopId := ← loopId, label := ← label }

section
variable (expr : Decoder Expr)

def Statement.decodeWith : Decoder Statement := tagged fun
  | "expr" => some (.holding fun depth node => (expr depth node).map .expr)
  | "variable" => some (.holding fun depth node => (DeclId.decode depth node).map .variable)
  | "declaration" => some (.holding fun depth node => (DeclId.decode depth node).map .declaration)
  | _ => none

def Call.decodeWith : Decoder Call := fun depth node => do
  let r ← Reading.ofNode
    ["callee", "dispatch_receiver", "type_arguments", "value_arguments", "origin"] depth node
  let callee := r.required "callee" DeclId.decode
  let receiver := r.optional "dispatch_receiver" (optionOf expr) none
  let types := r.optional "type_arguments" (list IrType.decode) []
  let values := r.optional "value_arguments" (list (optionOf expr)) []
  let origin := r.optional "origin" (optionOf StatementOrigin.decode) none
  r.settle [("callee", fault? callee), ("dispatch_receiver", fault? receiver),
    ("type_arguments", fault? types), ("value_arguments", fault? values),
    ("origin", fault? origin)]
  return {
    callee := ← callee
    dispatchReceiver := ← receiver
    typeArguments := ← types
    valueArguments := ← values
    origin := ← origin }

def Loop.decodeWith : Decoder Loop := fun depth node => do
  let r ← Reading.ofNode ["id", "label", "condition", "body"] depth node
  let id := r.required "id" LoopId.decode
  let label := r.optional "label" (optionOf string) none
  let condition := r.required "condition" expr
  let body := r.optional "body" (optionOf expr) none
  r.settle [("id", fault? id), ("label", fault? label), ("condition", fault? condition),
    ("body", fault? body)]
  return { id := ← id, label := ← label, condition := ← condition, body := ← body }

def Catch.decodeWith : Decoder Catch := fun depth node => do
  let r ← Reading.ofNode ["parameter", "result"] depth node
  let parameter := r.required "parameter" DeclId.decode
  let result := r.required "result" expr
  r.settle [("parameter", fault? parameter), ("result", fault? result)]
  return { parameter := ← parameter, result := ← result }

def Branch.decodeWith : Decoder Branch := fun depth node => do
  let r ← Reading.ofNode ["span", "condition", "result", "is_else"] depth node
  let span := r.optional "span" Span.decode .undefined
  let condition := r.required "condition" expr
  let result := r.required "result" expr
  let isElse := r.optional "is_else" bool false
  r.settle [("span", fault? span), ("condition", fault? condition), ("result", fault? result),
    ("is_else", fault? isElse)]
  return { span := ← span, condition := ← condition, result := ← result, isElse := ← isElse }

def VarargElement.decodeWith : Decoder VarargElement := tagged fun
  | "expr" => some (.holding fun depth node => (expr depth node).map .expr)
  | "spread" => some (.holding fun depth node => (expr depth node).map .spread)
  | _ => none

def single {α : Type} (name : String) (decode : Decoder α) : Decoder α := fun depth node => do
  let r ← Reading.ofNode [name] depth node
  let value := r.required name decode
  r.settle [(name, fault? value)]
  value

def assignment (target : String) : Decoder (DeclId × Expr) := fun depth node => do
  let r ← Reading.ofNode [target, "value"] depth node
  let id := r.required target DeclId.decode
  let value := r.required "value" expr
  r.settle [(target, fault? id), ("value", fault? value)]
  return (← id, ← value)

def ExprKind.decodeTry : Decoder ExprKind := fun depth node => do
  let r ← Reading.ofNode ["result", "catches", "finally"] depth node
  let result := r.required "result" expr
  let catches := r.optional "catches" (list (Catch.decodeWith expr)) []
  let finish := r.optional "finally" (optionOf expr) none
  r.settle [("result", fault? result), ("catches", fault? catches), ("finally", fault? finish)]
  return .tryExpr (← result) (← catches) (← finish)

def ExprKind.decodeWhen : Decoder ExprKind := fun depth node => do
  let r ← Reading.ofNode ["origin", "branches"] depth node
  let origin := r.optional "origin" (optionOf StatementOrigin.decode) none
  let branches := r.required "branches" (list (Branch.decodeWith expr))
  r.settle [("origin", fault? origin), ("branches", fault? branches)]
  return .when (← origin) (← branches)

def ExprKind.decodeTypeOperator : Decoder ExprKind := fun depth node => do
  let r ← Reading.ofNode ["operator", "operand", "argument"] depth node
  let operator := r.required "operator" TypeOperator.decode
  let operand := r.required "operand" IrType.decode
  let argument := r.required "argument" expr
  r.settle [("operator", fault? operator), ("operand", fault? operand),
    ("argument", fault? argument)]
  return .typeOperator (← operator) (← operand) (← argument)

def ExprKind.variant? (tag : String) : Option (Decoder ExprKind) :=
  match tag with
  | "delegating_constructor_call" =>
    some fun depth node => (Call.decodeWith expr depth node).map .delegatingConstructorCall
  | "constructor_call" =>
    some fun depth node => (Call.decodeWith expr depth node).map .constructorCall
  | "enum_constructor_call" =>
    some fun depth node => (Call.decodeWith expr depth node).map .enumConstructorCall
  | "call" => some fun depth node => (Call.decodeWith expr depth node).map .call
  | "instance_initializer_call" =>
    some fun depth node => (single "class" DeclId.decode depth node).map .instanceInitializerCall
  | "throw" => some fun depth node => (single "value" expr depth node).map .throwExpr
  | "break" => some fun depth node => (Jump.decode depth node).map .breakExpr
  | "continue" => some fun depth node => (Jump.decode depth node).map .continueExpr
  | "return" => some fun depth node => (single "value" expr depth node).map .returnExpr
  | "try" => some (ExprKind.decodeTry expr)
  | "block" => some fun depth node =>
    (single "statements" (list (Statement.decodeWith expr)) depth node).map .block
  | "while" => some fun depth node => (Loop.decodeWith expr depth node).map .whileLoop
  | "do_while" => some fun depth node => (Loop.decodeWith expr depth node).map .doWhileLoop
  | "string_concatenation" => some fun depth node =>
    (single "arguments" (list expr) depth node).map .stringConcatenation
  | "const" => some fun depth node => (ConstValue.decode depth node).map .const
  | "get_value" => some fun depth node =>
    (single "symbol" DeclId.decode depth node).map .getValue
  | "get_field" => some fun depth node =>
    (single "field" DeclId.decode depth node).map .getField
  | "get_enum_value" => some fun depth node =>
    (single "entry" DeclId.decode depth node).map .getEnumValue
  | "set_value" => some fun depth node =>
    (assignment expr "symbol" depth node).map fun (id, value) => .setValue id value
  | "set_field" => some fun depth node =>
    (assignment expr "field" depth node).map fun (id, value) => .setField id value
  | "when" => some (ExprKind.decodeWhen expr)
  | "get_class" => some fun depth node => (single "argument" expr depth node).map .getClass
  | "type_operator" => some (ExprKind.decodeTypeOperator expr)
  | "vararg" => some fun depth node =>
    (single "elements" (list (VarargElement.decodeWith expr)) depth node).map .vararg
  | "get_object_value" => some fun depth node =>
    (single "class" DeclId.decode depth node).map .getObjectValue
  | "unsupported" => some fun depth node =>
    (single "description" string depth node).map .unsupported
  | _ => none

def ExprKind.decodeWith : Decoder ExprKind := tagged fun tag =>
  (ExprKind.variant? expr tag).map .holding

def Expr.decodeWith : Decoder Expr := fun depth node => do
  let r ← Reading.ofNode ["span", "ty", "kind"] depth node
  let span := r.optional "span" Span.decode .undefined
  let type := r.required "ty" IrType.decode
  let kind := r.required "kind" (ExprKind.decodeWith expr)
  r.settle [("span", fault? span), ("ty", fault? type), ("kind", fault? kind)]
  return { span := ← span, type := ← type, kind := ← kind }

end

def Expr.decodeWithin : Nat → Decoder Expr
  | 0 => fun _ _ => .error .malformed
  | levels + 1 => Expr.decodeWith (Expr.decodeWithin levels)

def Expr.decode : Decoder Expr := Expr.decodeWithin (maxDepth + 1)

def Statement.decode : Decoder Statement := Statement.decodeWith Expr.decode

/-! ## Declarations -/

def DeclParent.decode : Decoder DeclParent := tagged fun
  | "file" => some (.holding fun depth node => (FileId.decode depth node).map .file)
  | "decl" => some (.holding fun depth node => (DeclId.decode depth node).map .decl)
  | "package" => some (.holding fun depth node => (string depth node).map .package)
  | _ => none

def DeclOrigin.decode : Decoder DeclOrigin := tagged fun
  | "source" => some (.bare .source)
  | "external_stub" => some (.bare .externalStub)
  | "external_java_stub" => some (.bare .externalJavaStub)
  | _ => none

def ClassKind.decode : Decoder ClassKind := tagged fun
  | "class" => some (.bare .ordinary)
  | "interface" => some (.bare .interface)
  | "enum_class" => some (.bare .enumClass)
  | "enum_entry" => some (.bare .enumEntry)
  | "annotation_class" => some (.bare .annotationClass)
  | "object" => some (.bare .object)
  | _ => none

def Modality.decode : Decoder Modality := tagged fun
  | "final" => some (.bare .final)
  | "sealed" => some (.bare .sealed)
  | "open" => some (.bare .open)
  | "abstract" => some (.bare .abstract)
  | _ => none

def ClassDecl.decode : Decoder ClassDecl := fun depth node => do
  let r ← Reading.ofNode ["name", "kind", "modality", "is_companion", "type_parameters",
    "super_types", "declarations", "this_receiver", "binary_path"] depth node
  let name := r.required "name" string
  let kind := r.optional "kind" ClassKind.decode .ordinary
  let modality := r.optional "modality" Modality.decode .final
  let isCompanion := r.optional "is_companion" bool false
  let typeParameters := r.optional "type_parameters" (list DeclId.decode) []
  let superTypes := r.optional "super_types" (list IrType.decode) []
  let members := r.optional "declarations" (list DeclId.decode) []
  let thisReceiver := r.optional "this_receiver" (optionOf DeclId.decode) none
  let binaryPath := r.optional "binary_path" (optionOf string) none
  r.settle [("name", fault? name), ("kind", fault? kind), ("modality", fault? modality),
    ("is_companion", fault? isCompanion), ("type_parameters", fault? typeParameters),
    ("super_types", fault? superTypes), ("declarations", fault? members),
    ("this_receiver", fault? thisReceiver), ("binary_path", fault? binaryPath)]
  return {
    name := ← name
    kind := ← kind
    modality := ← modality
    isCompanion := ← isCompanion
    typeParameters := ← typeParameters
    superTypes := ← superTypes
    members := ← members
    thisReceiver := ← thisReceiver
    binaryPath := ← binaryPath }

def Body.decode : Decoder Body := fun depth node => do
  let r ← Reading.ofNode ["span", "statements"] depth node
  let span := r.optional "span" Span.decode .undefined
  let statements := r.required "statements" (list Statement.decode)
  r.settle [("span", fault? span), ("statements", fault? statements)]
  return { span := ← span, statements := ← statements }

def FunctionDecl.decode : Decoder FunctionDecl := fun depth node => do
  let r ← Reading.ofNode ["name", "is_constructor", "is_primary", "type_parameters",
    "value_parameters", "dispatch_receiver", "extension_receiver", "return_type", "body"]
    depth node
  let name := r.required "name" string
  let isConstructor := r.optional "is_constructor" bool false
  let isPrimary := r.optional "is_primary" bool false
  let typeParameters := r.optional "type_parameters" (list DeclId.decode) []
  let valueParameters := r.optional "value_parameters" (list DeclId.decode) []
  let dispatchReceiver := r.optional "dispatch_receiver" (optionOf DeclId.decode) none
  let extensionReceiver := r.optional "extension_receiver" (optionOf DeclId.decode) none
  let returnType := r.required "return_type" IrType.decode
  let body := r.optional "body" (optionOf Body.decode) none
  r.settle [("name", fault? name), ("is_constructor", fault? isConstructor),
    ("is_primary", fault? isPrimary), ("type_parameters", fault? typeParameters),
    ("value_parameters", fault? valueParameters), ("dispatch_receiver", fault? dispatchReceiver),
    ("extension_receiver", fault? extensionReceiver), ("return_type", fault? returnType),
    ("body", fault? body)]
  return {
    name := ← name
    isConstructor := ← isConstructor
    isPrimary := ← isPrimary
    typeParameters := ← typeParameters
    valueParameters := ← valueParameters
    dispatchReceiver := ← dispatchReceiver
    extensionReceiver := ← extensionReceiver
    returnType := ← returnType
    body := ← body }

def PropertyDecl.decode : Decoder PropertyDecl := fun depth node => do
  let r ← Reading.ofNode ["name", "is_var", "modality", "getter", "setter", "backing_field"]
    depth node
  let name := r.required "name" string
  let isVar := r.optional "is_var" bool false
  let modality := r.optional "modality" Modality.decode .final
  let getter := r.optional "getter" (optionOf DeclId.decode) none
  let setter := r.optional "setter" (optionOf DeclId.decode) none
  let backingField := r.optional "backing_field" (optionOf DeclId.decode) none
  r.settle [("name", fault? name), ("is_var", fault? isVar), ("modality", fault? modality),
    ("getter", fault? getter), ("setter", fault? setter), ("backing_field", fault? backingField)]
  return {
    name := ← name
    isVar := ← isVar
    modality := ← modality
    getter := ← getter
    setter := ← setter
    backingField := ← backingField }

def FieldDecl.decode : Decoder FieldDecl := fun depth node => do
  let r ← Reading.ofNode ["name", "ty", "is_static", "initializer"] depth node
  let name := r.required "name" string
  let type := r.required "ty" IrType.decode
  let isStatic := r.optional "is_static" bool false
  let initializer := r.optional "initializer" (optionOf Expr.decode) none
  r.settle [("name", fault? name), ("ty", fault? type), ("is_static", fault? isStatic),
    ("initializer", fault? initializer)]
  return { name := ← name, type := ← type, isStatic := ← isStatic, initializer := ← initializer }

def TypeAliasDecl.decode : Decoder TypeAliasDecl := fun depth node => do
  let r ← Reading.ofNode ["name", "type_parameters", "expanded_type"] depth node
  let name := r.required "name" string
  let typeParameters := r.optional "type_parameters" (list DeclId.decode) []
  let expandedType := r.required "expanded_type" IrType.decode
  r.settle [("name", fault? name), ("type_parameters", fault? typeParameters),
    ("expanded_type", fault? expandedType)]
  return { name := ← name, typeParameters := ← typeParameters, expandedType := ← expandedType }

def InitializerDecl.decode : Decoder InitializerDecl := fun depth node => do
  let r ← Reading.ofNode ["is_static", "statements"] depth node
  let isStatic := r.optional "is_static" bool false
  let statements := r.required "statements" (list Statement.decode)
  r.settle [("is_static", fault? isStatic), ("statements", fault? statements)]
  return { isStatic := ← isStatic, statements := ← statements }

def TypeParameterDecl.decode : Decoder TypeParameterDecl := fun depth node => do
  let r ← Reading.ofNode ["name", "index", "super_types"] depth node
  let name := r.required "name" string
  let index := r.required "index" uint64
  let superTypes := r.optional "super_types" (list IrType.decode) []
  r.settle [("name", fault? name), ("index", fault? index), ("super_types", fault? superTypes)]
  return { name := ← name, index := ← index, superTypes := ← superTypes }

def ValueParameterDecl.decode : Decoder ValueParameterDecl := fun depth node => do
  let r ← Reading.ofNode ["name", "index", "ty"] depth node
  let name := r.required "name" string
  let index := r.required "index" int32
  let type := r.required "ty" IrType.decode
  r.settle [("name", fault? name), ("index", fault? index), ("ty", fault? type)]
  return { name := ← name, index := ← index, type := ← type }

def VariableDecl.decode : Decoder VariableDecl := fun depth node => do
  let r ← Reading.ofNode ["name", "ty", "initializer"] depth node
  let name := r.required "name" string
  let type := r.required "ty" IrType.decode
  let initializer := r.optional "initializer" (optionOf Expr.decode) none
  r.settle [("name", fault? name), ("ty", fault? type), ("initializer", fault? initializer)]
  return { name := ← name, type := ← type, initializer := ← initializer }

def DeclKind.decode : Decoder DeclKind := tagged fun
  | "class" => some (.holding fun depth node => (ClassDecl.decode depth node).map .class)
  | "function" => some (.holding fun depth node => (FunctionDecl.decode depth node).map .function)
  | "property" => some (.holding fun depth node => (PropertyDecl.decode depth node).map .property)
  | "field" => some (.holding fun depth node => (FieldDecl.decode depth node).map .field)
  | "enum_entry" =>
    some (.holding fun depth node => (single "name" string depth node).map .enumEntry)
  | "type_alias" =>
    some (.holding fun depth node => (TypeAliasDecl.decode depth node).map .typeAlias)
  | "anonymous_initializer" =>
    some (.holding fun depth node => (InitializerDecl.decode depth node).map .initializer)
  | "type_parameter" =>
    some (.holding fun depth node => (TypeParameterDecl.decode depth node).map .typeParameter)
  | "value_parameter" =>
    some (.holding fun depth node => (ValueParameterDecl.decode depth node).map .valueParameter)
  | "variable" => some (.holding fun depth node => (VariableDecl.decode depth node).map .variable)
  | _ => none

def Declaration.decode : Decoder Declaration := fun depth node => do
  let r ← Reading.ofNode ["parent", "origin", "span", "kind"] depth node
  let parent := r.required "parent" DeclParent.decode
  let origin := r.optional "origin" DeclOrigin.decode .source
  let span := r.optional "span" Span.decode .undefined
  let kind := r.required "kind" DeclKind.decode
  r.settle [("parent", fault? parent), ("origin", fault? origin), ("span", fault? span),
    ("kind", fault? kind)]
  return { parent := ← parent, origin := ← origin, span := ← span, kind := ← kind }

/-! ## Documents -/

def FileAnnotation.decode : Decoder FileAnnotation := fun depth node => do
  let r ← Reading.ofNode ["class", "arguments"] depth node
  let annotationClass := r.required "class" DeclId.decode
  let arguments := r.optional "arguments" (list Expr.decode) []
  r.settle [("class", fault? annotationClass), ("arguments", fault? arguments)]
  return { annotationClass := ← annotationClass, arguments := ← arguments }

def FileEntry.decode : Decoder FileEntry := fun depth node => do
  let r ← Reading.ofNode ["path", "package", "declarations", "annotations", "lines"] depth node
  let path := r.required "path" string
  let package := r.optional "package" string ""
  let declarations := r.optional "declarations" (list DeclId.decode) []
  let annotations := r.optional "annotations" (list FileAnnotation.decode) []
  let lines := r.optional "lines" LineTable.decode .single
  r.settle [("path", fault? path), ("package", fault? package),
    ("declarations", fault? declarations), ("annotations", fault? annotations),
    ("lines", fault? lines)]
  return {
    path := ← path
    package := ← package
    declarations := ← declarations
    annotations := ← annotations
    lines := ← lines }

def Document.decode : Decoder Document := fun depth node => do
  let r ← Reading.ofNode ["files", "declarations"] depth node
  let files := r.optional "files" (list FileEntry.decode) []
  let declarations := r.optional "declarations" (list Declaration.decode) []
  r.settle [("files", fault? files), ("declarations", fault? declarations)]
  return { files := ← files, declarations := ← declarations }

end IrFacts
