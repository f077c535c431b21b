import IrFacts.Trap.Schema
import IrFacts.Trap.Sink

/-!
# Writers

A writer names entities and writes lines about them into one sink. A refused
chunk is remembered, not reported: from then on nothing is offered until
`flush` has told of it, while labels are handed out as if nothing had happened.
-/

set_option autoImplicit false

namespace IrFacts.Trap

structure Writer where
  labels : LabelTable := .empty
  sink : Sink
  /-- The first refusal since the last flush. -/
  failure : Option SinkError := none
deriving Inhabited

namespace Writer

def ofSink (sink : Sink) : Writer := { sink }

def hasFailed (w : Writer) : Bool := w.failure.isSome

/-- Offers the text of a line and, if that is taken, its newline. -/
def put (w : Writer) (l : Line) : Writer :=
  match w.failure with
  | some _ => w
  | none =>
    match w.sink.offer (.line l) with
    | (.error error, sink) => { w with sink, failure := some error }
    | (.ok (), sink) =>
      match sink.offer .newline with
      | (.error error, sink) => { w with sink, failure := some error }
      | (.ok (), sink) => { w with sink }

def comment (w : Writer) (text : String) : Writer := w.put (.comment text)

def fact (w : Writer) (f : Fact) : Writer := w.put (.fact f)

/-- The label of a key, which is defined when it is asked for first. -/
def lookup (w : Writer) (key : String) : Lookup × Writer :=
  match w.labels.lookup key with
  | (.existing label, _) => (.existing label, w)
  | (.created label, labels) => (.created label, { w with labels }.put (.define label key))

def labelFor (w : Writer) (key : String) : Label × Writer :=
  let (found, w) := w.lookup key
  (found.label, w)

def fresh (w : Writer) : Label × Writer :=
  let (label, labels) := w.labels.fresh
  (label, { w with labels }.put (.fresh label))

/-- Tells of the first refusal, or else flushes the sink and tells what comes of that. -/
def flush (w : Writer) : Except SinkError Unit × Writer :=
  match w.failure with
  | some error => (.error error, { w with failure := none })
  | none =>
    let (outcome, sink) := w.sink.flush
    (outcome, { w with sink })

def text (w : Writer) : String := w.sink.text

def version : String := "0.1.0"

def header (w : Writer) (invocation : String) : Writer :=
  (w.comment ("Generated by trapgen " ++ version)).comment ("Part of invocation " ++ invocation)

end Writer

end IrFacts.Trap
