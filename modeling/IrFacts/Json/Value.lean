import IrFacts.Decimal.Layout

/-!
# Writing documents

A `Value` is a document to be written: members come in the order given, and
nothing stands between the tokens.
-/

set_option autoImplicit false

namespace IrFacts.Json

inductive Value where
  | null
  | bool (value : Bool)
  | integer (value : Int)
  | real (value : Float)
  | real32 (value : Float32)
  | string (value : String)
  | array (items : List Value)
  | object (members : List (String × Value))
deriving Inhabited

def hexDigit (n : Nat) : Char :=
  Char.ofNat (if n < 10 then '0'.toNat + n else 'a'.toNat + (n - 10))

/-- Quotes, backslashes and control characters are escaped, and nothing else. -/
def escapeChar (c : Char) : List Char :=
  if c = '"' then ['\\', '"']
  else if c = '\\' then ['\\', '\\']
  else if c = '\n' then ['\\', 'n']
  else if c = '\r' then ['\\', 'r']
  else if c = '\t' then ['\\', 't']
  else if c = '\x08' then ['\\', 'b']
  else if c = '\x0c' then ['\\', 'f']
  else if c.toNat < 0x20 then
    ['\\', 'u', '0', '0', hexDigit (c.toNat / 16), hexDigit (c.toNat % 16)]
  else [c]

def quoted (s : String) : String :=
  "\"" ++ String.ofList (s.toList.flatMap escapeChar) ++ "\""

namespace Value

mutual
def render : Value → String
  | .null => "null"
  | .bool true => "true"
  | .bool false => "false"
  | .integer n => toString n
  | .real x => Decimal.jsonLayout.write (Decimal.ofFloat x)
  | .real32 x => Decimal.jsonSingleLayout.write (Decimal.ofFloat32 x)
  | .string s => quoted s
  | .array [] => "[]"
  | .array (item :: rest) => "[" ++ item.render ++ renderItems rest
  | .object [] => "\x7b\x7d"
  | .object ((name, value) :: rest) =>
    "\x7b" ++ quoted name ++ ":" ++ value.render ++ renderMembers rest

def renderItems : List Value → String
  | [] => "]"
  | item :: rest => "," ++ item.render ++ renderItems rest

def renderMembers : List (String × Value) → String
  | [] => "\x7d"
  | (name, value) :: rest => "," ++ quoted name ++ ":" ++ value.render ++ renderMembers rest
end

end Value

end IrFacts.Json
