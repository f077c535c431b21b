import IrFacts.Json.Numeral

/-!
# Reading document trees

`Document.parse` reads one value off a text and keeps what follows it. A value
that holds others begins with a bracket, and a list goes on behind a comma, so
two units of fuel for each character are enough: one for a value and one for
the list that it opens.
-/

set_option autoImplicit false

namespace IrFacts.Json

def isSpace (c : Char) : Bool :=
  c = ' ' || c = '\n' || c = '\t' || c = '\r'

def dropSpace (cs : List Char) : List Char := cs.dropWhile isSpace

def hexDigit? (c : Char) : Option Nat :=
  if '0' ≤ c ∧ c ≤ '9' then some (c.toNat - '0'.toNat)
  else if 'a' ≤ c ∧ c ≤ 'f' then some (c.toNat - 'a'.toNat + 10)
  else if 'A' ≤ c ∧ c ≤ 'F' then some (c.toNat - 'A'.toNat + 10)
  else none

def hexNumber? (a b c d : Char) : Option Nat := do
  return ((← hexDigit? a) * 16 + (← hexDigit? b)) * 256 + (← hexDigit? c) * 16 + (← hexDigit? d)

/-- What a string has come to while it is read: its characters so far, the
latest first, or the fault of a reader that wants it. -/
abbrev Partial := Except Fault (List Char)

def Partial.push (p : Partial) (c : Char) : Partial := p.map (c :: ·)

def Partial.spoil (p : Partial) (fault : Fault) : Partial :=
  match p with
  | .ok _ => .error fault
  | .error first => .error first

/-- A string behind its opening quote: its value, and the text behind the
closing quote or the fault that ends reading. -/
structure StringLexing where
  value : Except Fault String
  rest : Except Fault (List Char)

def stopped (p : Partial) (fault : Fault) : StringLexing :=
  { value := (p.spoil fault).map fun cs => String.ofList cs.reverse, rest := .error fault }

def simpleEscape? : Char → Option Char
  | '"' => some '"'
  | '\\' => some '\\'
  | '/' => some '/'
  | 'b' => some '\x08'
  | 'f' => some '\x0c'
  | 'n' => some '\n'
  | 'r' => some '\r'
  | 't' => some '\t'
  | _ => none

def isHighSurrogate (n : Nat) : Bool := 0xD800 ≤ n && n ≤ 0xDBFF

def isLowSurrogate (n : Nat) : Bool := 0xDC00 ≤ n && n ≤ 0xDFFF

/-- Reads a string to its closing quote. `high` is a first half of a surrogate
pair that waits for the second one, which has to follow at once: anything but
an escape spoils the value, but not the reading. With fewer than four bytes
behind `u` the text breaks off there, whatever they are. -/
def lexString (high : Option Nat) (p : Partial) : List Char → StringLexing
  | [] => stopped p .truncated
  | ['\\'] => stopped p .truncated
  | '\\' :: 'u' :: a :: b :: c :: d :: rest =>
    match hexNumber? a b c d, high with
    | none, _ => stopped p .malformed
    | some n, some h =>
      if isLowSurrogate n then
        let pair := 0x10000 + (h - 0xD800) * 0x400 + (n - 0xDC00)
        lexString none (p.push (Char.ofNat pair)) rest
      else lexString none (p.spoil .malformed) rest
    | some n, none =>
      if isHighSurrogate n then lexString (some n) p rest
      else if isLowSurrogate n then lexString none (p.spoil .malformed) rest
      else lexString none (p.push (Char.ofNat n)) rest
  | '\\' :: 'u' :: few =>
    stopped p (if 4 ≤ (String.ofList few).utf8ByteSize then .malformed else .truncated)
  | '\\' :: e :: rest =>
    let p := if high.isSome then p.spoil .malformed else p
    match simpleEscape? e with
    | some c => lexString none (p.push c) rest
    | none => stopped p .malformed
  | c :: rest =>
    let p := if high.isSome then p.spoil .malformed else p
    if c = '"' then
      { value := p.map fun cs => String.ofList cs.reverse, rest := .ok rest }
    else if c.toNat < 0x20 then stopped p .malformed
    else lexString none (p.push c) rest

/-- A node, and the text behind it unless reading ended within. -/
abbrev NodeReading := Node × Option (List Char)

/-- The rest of a word: the text behind it, or what is wrong with it. -/
def readWord : List Char → List Char → Except Fault (List Char)
  | [], rest => .ok rest
  | _ :: _, [] => .error .truncated
  | l :: ls, c :: rest => if l = c then readWord ls rest else .error .malformed

def orBroken (word : Except Fault (List Char)) (node : Node) (broken : Fault → Node) :
    NodeReading :=
  match word with
  | .ok rest => (node, some rest)
  | .error fault => (broken fault, none)

def readNumber (cs : List Char) : NodeReading :=
  match lexNumber cs with
  | .ok (text, rest) => (.number text.value none, some rest)
  | .error fault => (.number (.error fault) (some .malformed), none)

def readKey (cs : List Char) : Key × Option (List Char) :=
  let s := lexString none (.ok []) cs
  match s.rest with
  | .ok rest => (⟨s.value, none⟩, some rest)
  | .error fault => (⟨s.value, some fault⟩, none)

def readString (cs : List Char) : NodeReading :=
  let (text, rest) := readKey cs
  (.string text.value text.skipped, rest)

mutual
def readValue : Nat → List Char → NodeReading
  | 0, _ => (.cut .truncated, none)
  | fuel + 1, cs =>
    match dropSpace cs with
    | [] => (.cut .truncated, none)
    | c :: rest =>
      if c = 'n' then orBroken (readWord ['u', 'l', 'l'] rest) .null .almostNull
      else if c = 't' then orBroken (readWord ['r', 'u', 'e'] rest) (.bool true) .junk
      else if c = 'f' then orBroken (readWord ['a', 'l', 's', 'e'] rest) (.bool false) .junk
      else if c = '-' || c.isDigit then readNumber (c :: rest)
      else if c = '"' then readString rest
      else if c = '[' then
        match dropSpace rest with
        | [] => (.array [] (.broken .truncated), none)
        | ']' :: after => (.array [] .closed, some after)
        | start =>
          let (items, ending, after) := readItems fuel start
          (.array items ending, after)
      else if c = '\x7b' then
        match dropSpace rest with
        | [] => (.object [] (.broken .truncated), none)
        | '\x7d' :: after => (.object [] .closed, some after)
        | start =>
          let (members, ending, after) := readMembers fuel start
          (.object members ending, after)
      else (.junk .malformed, none)

def readItems : Nat → List Char → List Node × Ending × Option (List Char)
  | 0, _ => ([], .broken .truncated, none)
  | fuel + 1, cs =>
    match readValue fuel cs with
    | (item, none) => ([item], .broken .truncated, none)
    | (item, some after) =>
      match dropSpace after with
      | [] => ([item], .broken .truncated, none)
      | ']' :: rest => ([item], .closed, some rest)
      | ',' :: rest =>
        match dropSpace rest with
        | [] => ([item], .afterComma .truncated, none)
        | ']' :: _ => ([item], .afterComma .malformed, none)
        | start =>
          let (items, ending, rest) := readItems fuel start
          (item :: items, ending, rest)
      | _ => ([item], .broken .malformed, none)

def readMembers : Nat → List Char → List (Key × Node) × Ending × Option (List Char)
  | 0, _ => ([], .broken .truncated, none)
  | fuel + 1, cs =>
    match cs with
    | '"' :: rest =>
      match readKey rest with
      | (key, none) => ([(key, .cut .truncated)], .broken .truncated, none)
      | (key, some after) =>
        match dropSpace after with
        | [] => ([(key, .cut .truncated)], .broken .truncated, none)
        | ':' :: rest =>
          match readValue fuel rest with
          | (value, none) => ([(key, value)], .broken .truncated, none)
          | (value, some after) =>
            match dropSpace after with
            | [] => ([(key, value)], .broken .truncated, none)
            | '\x7d' :: rest => ([(key, value)], .closed, some rest)
            | ',' :: rest =>
              match dropSpace rest with
              | [] => ([(key, value)], .afterComma .truncated, none)
              | '\x7d' :: _ => ([(key, value)], .afterComma .malformed, none)
              | start =>
                let (members, ending, rest) := readMembers fuel start
                ((key, value) :: members, ending, rest)
            | _ => ([(key, value)], .broken .malformed, none)
        | _ => ([(key, .cut .malformed)], .broken .truncated, none)
    | _ => ([], .broken .malformed, none)
end

structure Document where
  root : Node
  rest : Option (List Char)

def Document.parse (text : List Char) : Document :=
  let (root, rest) := readValue (2 * text.length + 1) text
  { root, rest }

/-- Whether only space follows the value. -/
def Document.isComplete (d : Document) : Bool :=
  match d.rest with
  | some rest => (dropSpace rest).isEmpty
  | none => false

end IrFacts.Json
