import IrFacts.Ir.Decode
import IrFacts.Run.Error

/-!
# Loading programs

A document is read from a file, decoded, and checked. A folder can be opened
like a file, but not read, so it counts as a document that is not readable.
-/

set_option autoImplicit false

namespace IrFacts

def Program.ofText (text : String) : Except ExtractError Program :=
  match Json.decodeText Document.decode text with
  | .error fault => .error (.document (.fault fault))
  | .ok document => (Program.ofDocument document).mapError .program

def Program.ofBytes (bytes : ByteArray) : Except ExtractError Program :=
  match String.fromUTF8? bytes with
  | some text => Program.ofText text
  | none => .error (.document (.fault .malformed))

variable {m : Type → Type} {Handle : Type} [Monad m] [Files m Handle]

def Program.load (path : Path) : m (Except RunError Program) := do
  match ← Files.read path with
  | .ok bytes => return (Program.ofBytes bytes).mapError (.input path)
  | .error .isFolder => return .error (.input path (.document (.unreadable .isFolder)))
  | .error error => return .error (.io path error)

end IrFacts
