import IrFacts.Program
import IrFacts.Text.Path

/-!
# Paths of classes

Where a class was loaded from, and where its trap is kept below the trap
directory: in folders after its binary name, beside two sidecar files.
-/

set_option autoImplicit false

namespace IrFacts

def dotsToSlashes (name : String) : String :=
  String.ofList (name.toList.map fun c => if c = '.' then '/' else c)

def unknownFolder : String := "/!unknown-binary-location/"

def Program.binaryPath (p : Program) (id : DeclId) : String :=
  match (p.class? id).bind (·.binaryPath) with
  | some path => path
  | none =>
    unknownFolder ++ dotsToSlashes ((p.binaryName? id).getD id.render) ++ ".class"

namespace ClassPath

def trapEnding : String := ".trap.gz"

/-- The class `a.b.C` has its trap at `classes/a/b/C.members.trap.gz`. -/
def ofBinaryName (name : String) : Path :=
  (Path.mk "classes").join ⟨dotsToSlashes name ++ ".members" ++ trapEnding⟩

/-- The path without the ending of a trap. -/
def base (trap : Path) : String :=
  let ending := trapEnding.toList
  let text := trap.text.toList
  if ending.isSuffixOf text then String.ofList (text.take (text.length - ending.length))
  else trap.text

def sidecar (trap : Path) (suffix : String) : Path := ⟨base trap ++ suffix⟩

def dependencies (trap : Path) : Path := sidecar trap ".dep"

/-- Holds the fingerprint of the class that a trap was written for. -/
def metadata (trap : Path) : Path := sidecar trap ".metadata"

end ClassPath

end IrFacts
