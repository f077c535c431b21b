import IrFacts.Trap.Line

/-!
# Sinks

A sink receives the text of a trap in chunks: the text of a line, then its
newline. It takes a chunk whole or refuses it whole, and it may refuse one
and take the next. What it took is kept as lines, so that the text of a trap
can be read back as what was said. A sink that has taken everything may still
refuse to be flushed, as one that keeps what it took in a buffer does when the
disk behind the buffer is full.
-/

set_option autoImplicit false

namespace IrFacts.Trap

inductive Chunk where
  | line (l : Line)
  | newline
deriving Repr, Inhabited

def Chunk.text : Chunk → String
  | .line l => l.render
  | .newline => "\n"

structure SinkError where
  message : String
deriving DecidableEq, Repr, Inhabited

structure Sink where
  /-- Whether a chunk is refused, from the number of chunks offered before it
  and the number of bytes there would be with it. -/
  refuses : Nat → Nat → Option SinkError
  /-- Whether a flush is refused, from the number of flushes before it. -/
  refusesFlush : Nat → Option SinkError := fun _ => none
  offered : Nat := 0
  bytes : Nat := 0
  /-- The chunks that were taken, the latest first. -/
  taken : List Chunk := []
  flushes : Nat := 0
  /-- How many chunks had been taken at the last flush that was not refused. -/
  flushed : Nat := 0

namespace Sink

def unbounded : Sink := { refuses := fun _ _ => none }

def full : SinkError := ⟨"disk full"⟩

def ofCapacity (capacity : Nat) : Sink :=
  { refuses := fun _ total => if capacity < total then some full else none }

instance : Inhabited Sink := ⟨unbounded⟩

def offer (s : Sink) (c : Chunk) : Except SinkError Unit × Sink :=
  let total := s.bytes + c.text.utf8ByteSize
  match s.refuses s.offered total with
  | some error => (.error error, { s with offered := s.offered + 1 })
  | none => (.ok (), { s with offered := s.offered + 1, bytes := total, taken := c :: s.taken })

def flush (s : Sink) : Except SinkError Unit × Sink :=
  match s.refusesFlush s.flushes with
  | some error => (.error error, { s with flushes := s.flushes + 1 })
  | none => (.ok (), { s with flushes := s.flushes + 1, flushed := s.taken.length })

/-- The chunks that were taken, the earliest first. -/
def chunks (s : Sink) : List Chunk := s.taken.reverse

def lines (s : Sink) : List Line :=
  s.chunks.filterMap fun c => match c with
    | .line l => some l
    | .newline => none

def text (s : Sink) : String := String.join (s.chunks.map Chunk.text)

end Sink

end IrFacts.Trap
