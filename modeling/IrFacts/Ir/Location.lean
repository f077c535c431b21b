/-!
# Offsets and line tables

Nodes of a program carry byte offsets into their file. A line table holds the
offset at which each line starts; offsets, lines and columns count from zero.
A table that was handed over is taken as it is, so it may be empty or out of
order; the ones built here start at zero and increase.
-/

set_option autoImplicit false

namespace IrFacts

/-- A range of offsets, from `start` up to, but not including, `stop`. -/
structure Span where
  start : Int32
  stop : Int32
deriving DecidableEq, Repr

namespace Span

def noOffset : Int32 := -1

def undefined : Span := ⟨noOffset, noOffset⟩

instance : Inhabited Span := ⟨undefined⟩

def isUndefined (s : Span) : Bool := s.start = noOffset || s.stop = noOffset

def clamp (offset : Int32) : UInt32 := if offset < 0 then 0 else offset.toUInt32

def first (s : Span) : UInt32 := clamp s.start

/-- A span that ends before its start ends there. -/
def last (s : Span) : UInt32 := clamp (if s.stop < s.start then s.start else s.stop)

end Span

structure LineTable where
  starts : Array UInt32
deriving DecidableEq, Repr

namespace LineTable

def single : LineTable := ⟨#[0]⟩

instance : Inhabited LineTable := ⟨single⟩

/-- Leaves out every start that equals the one before. -/
def dropRepeats : List UInt32 → List UInt32
  | [] => []
  | [a] => [a]
  | a :: b :: rest => if a = b then dropRepeats (b :: rest) else a :: dropRepeats (b :: rest)

/-- The table with the given starts, and a first line at zero. -/
def ofStarts (starts : List UInt32) : LineTable :=
  ⟨(dropRepeats (if starts.head? = some 0 then starts else 0 :: starts)).toArray⟩

/-- The starts behind the newlines of a text whose first byte is at `offset`. -/
def startsFrom (offset : Nat) : List Char → List UInt32
  | [] => []
  | c :: rest =>
    let next := offset + c.utf8Size
    if c = '\n' then UInt32.ofNat next :: startsFrom next rest else startsFrom next rest

def ofText (text : String) : LineTable := ⟨(0 :: startsFrom 0 text.toList).toArray⟩

def lineCount (t : LineTable) : Nat := t.starts.size

/-- Halves the range of `size` lines from `base` on until one is left: the
upper half is kept when it does not start behind `offset`. -/
def narrow (t : LineTable) (offset : UInt32) : Nat → Nat → Nat → Nat
  | 0, base, _ => base
  | fuel + 1, base, size =>
    if size ≤ 1 then base
    else
      let middle := base + size / 2
      let behind := match t.starts[middle]? with
        | some start => decide (offset < start)
        | none => true
      t.narrow offset fuel (if behind then base else middle) (size - size / 2)

/-- The line of an offset: the last one that does not start behind it, and the
first one if all do. -/
def lineOf (t : LineTable) (offset : UInt32) : Nat :=
  let line := t.narrow offset t.starts.size 0 t.starts.size
  match t.starts[line]? with
  | some start => if offset < start then line - 1 else line
  | none => 0

/-- The distance from the start of the line. There is none in an empty table. -/
def columnOf? (t : LineTable) (offset : UInt32) : Option UInt32 :=
  t.starts[t.lineOf offset]?.map (offset - ·)

end LineTable

end IrFacts
