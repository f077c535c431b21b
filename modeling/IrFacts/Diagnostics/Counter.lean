import IrFacts.Diagnostics.Severity
import IrFacts.Trap.Writer

/-!
# Rate limits

Each site that reports diagnostics may have a limited number of them written.
The one that reaches the limit says so, later ones are only counted, and a
summary tells in the end how many there were. A limit of zero is none.
-/

set_option autoImplicit false

namespace IrFacts

inductive Verdict where
  | log
  /-- Written, as the last one of its site. -/
  | limitReached
  | suppressed
deriving DecidableEq, Repr

/-- How often each site reported, in the order of the sites, and the number of
reports that were errors. -/
structure Counter where
  counts : List (String × Nat) := []
  errors : Nat := 0
  limit : Nat := 100
deriving Repr, Inhabited

namespace Counter

def increment (site : String) : List (String × Nat) → List (String × Nat)
  | [] => [(site, 1)]
  | (other, n) :: rest =>
    if site = other then (other, n + 1) :: rest
    else if site < other then (site, 1) :: (other, n) :: rest
    else (other, n) :: increment site rest

def countOf (c : Counter) (site : String) : Nat := (c.counts.lookup site).getD 0

def accept (c : Counter) (site : String) : Verdict × Counter :=
  let c := { c with counts := increment site c.counts }
  let n := c.countOf site
  let verdict :=
    if c.limit = 0 then .log
    else if n = c.limit then .limitReached
    else if c.limit < n then .suppressed
    else .log
  (verdict, c)

def limited (c : Counter) : List (String × Nat) :=
  if c.limit = 0 then [] else c.counts.filter fun (_, n) => c.limit ≤ n

def summaryOf (site : String) (n : Nat) : String :=
  "Total of " ++ toString n ++ " diagnostics from " ++ site ++ "."

def summarize (c : Counter) (w : Trap.Writer) : Trap.Writer :=
  c.limited.foldl (fun w (site, n) => w.comment (summaryOf site n)) w

def limitNotice (site : String) : String :=
  " Limit reached for diagnostics from " ++ site ++ "."

/-- Writes one diagnostic, unless its site has used up its limit. What is only
information is neither counted nor written. -/
def report (c : Counter) (w : Trap.Writer) (site : String) (severity : Severity)
    (message : String) (location : Label) : Counter × Trap.Writer :=
  if severity = .info then (c, w)
  else
    let c := if severity.isError then { c with errors := c.errors + 1 } else c
    let write (full : String) : Trap.Writer :=
      w.fact (.diagnostics .star Trap.diagnosticSource severity.code "" message full location)
    match c.accept site with
    | (.suppressed, c) => (c, w)
    | (.limitReached, c) => (c, write (message ++ limitNotice site))
    | (.log, c) => (c, write message)

end Counter

end IrFacts
