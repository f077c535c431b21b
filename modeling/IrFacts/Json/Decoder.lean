import IrFacts.Json.Parse

/-!
# Decoding document trees

A decoder is given the number of brackets that may still be opened. Whatever
it decodes, the first fault in the order of the text is the one it reports:
`Reading` keeps the members of an object in that order, and `Reading.settle`
picks the fault once every member has been decoded.
-/

set_option autoImplicit false

namespace IrFacts.Json

abbrev Decoder (α : Type) := Nat → Node → Except Fault α

def fault? {α : Type} : Except Fault α → Option Fault
  | .ok _ => none
  | .error fault => some fault

namespace Decoder

def maxDepth : Nat := 127

/-! ## Single values -/

def bool : Decoder Bool
  | _, .bool value => .ok value
  | _, node => .error node.mismatch

def string : Decoder String
  | _, .string value _ => value
  | _, node => .error node.mismatch

def unit : Decoder Unit
  | _, .null => .ok ()
  | _, node => .error node.mismatch

def numeral : Decoder Numeral
  | _, .number value _ => value
  | _, node => .error node.mismatch

/-- An integer from `low` up to, but not including, `high`. -/
def integer (low high : Int) : Decoder Int := fun depth node => do
  let n ← match ← numeral depth node with
    | .natural n => pure (n : Int)
    | .negative n => pure n
    | .real _ => throw .mismatched
  if low ≤ n ∧ n < high then pure n else throw .mismatched

def uint32 : Decoder UInt32 := fun depth node =>
  (integer 0 UInt32.size depth node).map fun n => UInt32.ofNat n.toNat

def uint64 : Decoder UInt64 := fun depth node =>
  (integer 0 UInt64.size depth node).map fun n => UInt64.ofNat n.toNat

def int8 : Decoder Int8 := fun depth node =>
  (integer (-0x80) 0x80 depth node).map Int8.ofInt

def int16 : Decoder Int16 := fun depth node =>
  (integer (-0x8000) 0x8000 depth node).map Int16.ofInt

def int32 : Decoder Int32 := fun depth node =>
  (integer (-0x80000000) 0x80000000 depth node).map Int32.ofInt

def int64 : Decoder Int64 := fun depth node =>
  (integer (-0x8000000000000000) 0x8000000000000000 depth node).map Int64.ofInt

def float : Decoder Float := fun depth node =>
  (numeral depth node).map fun
    | .natural n => n.toUInt64.toFloat
    | .negative n => (Int64.ofInt n).toFloat
    | .real x => x

/-- A single-precision number is rounded once from an integer, and from the
double otherwise. -/
def float32 : Decoder Float32 := fun depth node =>
  (numeral depth node).map fun
    | .natural n => n.toUInt64.toFloat32
    | .negative n => (Int64.ofInt n).toFloat32
    | .real x => x.toFloat32

def char : Decoder Char := fun depth node => do
  match (← string depth node).toList with
  | [c] => pure c
  | _ => throw .mismatched

def optionOf {α : Type} (item : Decoder α) : Decoder (Option α)
  | _, .null => .ok none
  | _, .almostNull fault => .error fault
  | depth, node => (item depth node).map some

/-! ## Lists -/

def enter {α : Type} (body : Nat → Except Fault α) : Nat → Except Fault α
  | 0 => .error .malformed
  | depth + 1 => body depth

def items {α : Type} (item : Decoder α) (depth : Nat) : List Node → Except Fault (List α)
  | [] => .ok []
  | node :: rest => do
    let value ← item depth node
    let values ← items item depth rest
    pure (value :: values)

def list {α : Type} (item : Decoder α) : Decoder (List α)
  | depth, .array nodes ending =>
    enter (fun depth => do
      let values ← items item depth nodes
      match ending.fault? with
      | some fault => throw fault
      | none => pure values) depth
  | _, node => .error node.mismatch

end Decoder

/-! ## Records -/

/-- The members of a record in the order of the text, as far as they could be
told apart, and the fault that ended that. -/
structure Reading where
  depth : Nat
  members : List (String × Node)
  fault : Option Fault

namespace Reading

/-- Goes through the members of an object. Unknown members are skipped, and a
known one may not come twice. -/
def ofMembers (names seen : List String) (ending : Ending) :
    List (Key × Node) → List (String × Node) × Option Fault
  | [] => ([], ending.fault?)
  | (key, value) :: rest =>
    match key.value with
    | .error fault => ([], some fault)
    | .ok name =>
      if names.contains name then
        if seen.contains name then ([], some .mismatched)
        else
          let (members, fault) := ofMembers names (name :: seen) ending rest
          ((name, value) :: members, fault)
      else match value.skip with
        | some fault => ([], some fault)
        | none => ofMembers names seen ending rest

/-- Gives the items of an array the names of the members in their order. Once
every member has its item, only the closing bracket may follow. -/
def ofItems (ending : Ending) : List String → List Node → List (String × Node) × Option Fault
  | _ :: _, [] => ([], ending.fault?)
  | [], [] =>
    ([], match ending with
      | .closed => none
      | .broken fault => some fault
      | .afterComma _ => some .malformed)
  | [], _ :: _ => ([], some .malformed)
  | name :: names, item :: rest =>
    let (members, fault) := ofItems ending names rest
    ((name, item) :: members, fault)

/-- A record is written as an object or as an array of its members. -/
def ofNode (names : List String) : Decoder Reading
  | depth, .object members ending =>
    Decoder.enter (fun depth =>
      let (members, fault) := ofMembers names [] ending members
      .ok { depth, members, fault }) depth
  | depth, .array items ending =>
    Decoder.enter (fun depth =>
      let (members, fault) := ofItems ending names items
      .ok { depth, members, fault }) depth
  | _, node => .error node.mismatch

variable {α : Type}

def required (r : Reading) (name : String) (decode : Decoder α) : Except Fault α :=
  match r.members.lookup name with
  | some node => decode r.depth node
  | none => .error .mismatched

def optional (r : Reading) (name : String) (decode : Decoder α) (absent : α) : Except Fault α :=
  match r.members.lookup name with
  | some node => decode r.depth node
  | none => .ok absent

/-- The first fault in the order of the text: that of a member, then the one
that ended the members, then that of a member that is missing. -/
def firstFault (r : Reading) (faults : List (String × Option Fault)) : Option Fault :=
  (r.members.findSome? fun (name, _) => (faults.lookup name).join).or <|
    r.fault.or (faults.findSome? fun (_, fault) => fault)

def settle (r : Reading) (faults : List (String × Option Fault)) : Except Fault Unit :=
  match r.firstFault faults with
  | some fault => .error fault
  | none => .ok ()

end Reading

/-! ## Variants -/

inductive Variant (α : Type) where
  /-- By its tag alone. -/
  | bare (value : α)
  /-- By its tag and what belongs to it. -/
  | holding (content : Decoder α)

namespace Decoder

variable {α : Type}

/-- The content of an object with one member, whose key is the tag. -/
def content (variant : Variant α) : Decoder α
  | depth, node =>
    match variant with
    | .bare value => (unit depth node).map fun _ => value
    | .holding decode => decode depth node

def afterContent : List (Key × Node) → Ending → Option Fault
  | [], .closed => none
  | [], .broken fault => some fault
  | _, _ => some .malformed

def tagged (variant? : String → Option (Variant α)) : Decoder α
  | _, .string tag _ => do
    match variant? (← tag) with
    | some (.bare value) => pure value
    | _ => throw .mismatched
  | depth, .object members ending =>
    enter (fun depth =>
      match members with
      | [] => .error (ending.fault?.getD .malformed)
      | (key, node) :: more => do
        let tag ← key.value
        let some variant := variant? tag | throw .mismatched
        let value ← content variant depth node
        match afterContent more ending with
        | some fault => throw fault
        | none => pure value) depth
  | _, .cut fault => .error fault
  | _, _ => .error .malformed

end Decoder

def decodeText {α : Type} (decode : Decoder α) (text : String) : Except Fault α := do
  let document := Document.parse text.toList
  let value ← decode Decoder.maxDepth document.root
  if document.isComplete then pure value else throw .malformed

end IrFacts.Json
