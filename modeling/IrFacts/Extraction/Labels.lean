import IrFacts.Extraction.Session
import IrFacts.Text.Uppercase

/-!
# Labels that need no types

Packages, modifiers, classes known by name only, and the class that holds the
top-level members of a file.
-/

set_option autoImplicit false

namespace IrFacts

/-- The name of the class for a file: `utils.kt` becomes `UtilsKt`. -/
def defaultFileClassName (fileName : String) : String :=
  let name := fileName.toList
  let ending := ".kt".toList
  let stem := if ending.isSuffixOf name then name.take (name.length - ending.length) else name
  match stem with
  | [] => "Kt"
  | first :: rest => String.ofList (Text.uppercase first ++ rest ++ ['K', 't'])

def fileNameAnnotation : String := "kotlin.jvm.JvmName"

namespace Program

/-- The name that the annotations of a file give its class. Only the first
such annotation counts, and only if its first argument is a string. -/
def annotatedName? (p : Program) (entry : FileEntry) : Option String := do
  let annotation ← entry.annotations.find? fun a =>
    decide (p.fqName? a.annotationClass = some fileNameAnnotation)
  match (← annotation.arguments.head?).kind with
  | .const (.string name) => some name
  | _ => none

def fileClassName (p : Program) (entry : FileEntry) : String :=
  (p.annotatedName? entry).getD (defaultFileClassName entry.name)

end Program

namespace Extract

def packageLabel (name : String) : Extract Label :=
  labelWith ("package;" ++ name) fun id => write (.packages id name)

def modifierLabel (name : String) : Extract Label :=
  labelWith ("modifier;" ++ name) fun id => write (.modifiers id name)

def addModifier (entity : Label) (name : String) : Extract Unit := do
  write (.hasModifier entity (← modifierLabel name))

def addModifiers (entity : Label) (names : List String) : Extract Unit :=
  names.forM (addModifier entity)

/-- A class without a declaration behind it. -/
def namedClass (package name : String) : Extract Label := do
  let packageLabel ← packageLabel package
  labelWith ("class;" ++ qualify package name) fun id =>
    write (.classes id name packageLabel id)

def fileClassLabel (file : FileId) : Extract Label := do
  let p ← read
  match p.file? file with
  | some entry => labelFor ("class;" ++ qualify entry.package (p.fileClassName entry))
  | none => return .placeholder

end Extract

end IrFacts
