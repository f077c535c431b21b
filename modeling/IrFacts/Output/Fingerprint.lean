import IrFacts.Digest.Sha256
import IrFacts.Ir.Encode
import IrFacts.Program

/-!
# Fingerprints

The digest of a class declaration and its members. A class trap is current as
long as the fingerprint of its class is the one that it was written for.
-/

set_option autoImplicit false

namespace IrFacts

def bytesOf (text : String) : List UInt8 := text.toUTF8.toList

namespace Program

def encodedDecl (d : Declaration) : List UInt8 := bytesOf d.encode.render

/-- The bytes that stand for the members of a class, a zero byte in front of
each. -/
def memberBytes (p : Program) (id : DeclId) : List UInt8 :=
  match p.class? id with
  | none => []
  | some c => c.members.flatMap fun member =>
    match p.decl? member with
    | some d => 0 :: encodedDecl d
    | none => []

/-- What a fingerprint is taken of: the binary name, which is empty for what
is no class, the declaration, and the members. -/
def fingerprintBytes (p : Program) (id : DeclId) (d : Declaration) : List UInt8 :=
  bytesOf ((p.binaryName? id).getD "") ++ 0 :: encodedDecl d ++ p.memberBytes id

def fingerprint (p : Program) (id : DeclId) : Except ProgramError String :=
  match p.decl? id with
  | some d => .ok (Sha256.hexDigest (p.fingerprintBytes id d))
  | none => .error (.danglingDecl id)

end Program

end IrFacts
