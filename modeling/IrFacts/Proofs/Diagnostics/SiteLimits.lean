import IrFacts.Proofs.Diagnostics.Counts
import IrFacts.Proofs.Diagnostics.Reports
import IrFacts.Proofs.Diagnostics.RateLimit

/-!
# What is written of a site

Reports of several sites share one counter, in whatever order they come and whichever writers
they are made to. What becomes of a report depends on how many there were of its site before it,
so of each site the first ones are written, up to the limit, and the last of these says so. All of
them are counted but for those that are only information.
-/

set_option autoImplicit false

namespace IrFacts

open Trap (Line Writer)

/-- A diagnostic, and the site that reports it. -/
structure Report where
  site : String
  severity : Severity
  message : String
  location : Label
deriving DecidableEq, Repr

namespace Report

def isCounted (r : Report) : Bool := r.severity ≠ .info

/-- The line that tells of the report with this full message. -/
def line (r : Report) (full : String) : Line :=
  .fact (.diagnostics .star Trap.diagnosticSource r.severity.code "" r.message full r.location)

/-- The full message of the report that reaches the limit. -/
def lastMessage (r : Report) : String := r.message ++ Counter.limitNotice r.site

def linesFor (r : Report) : Verdict → List Line
  | .log => [r.line r.message]
  | .limitReached => [r.line r.lastMessage]
  | .suppressed => []

def countedAt (site : String) (reports : List Report) : List Report :=
  reports.filter fun r => r.site = site && r.isCounted

theorem countedAt_cons (site : String) (r : Report) (reports : List Report) :
    countedAt site (r :: reports) =
      (if r.site = site ∧ r.isCounted then [r] else []) ++ countedAt site reports := by
  rw [countedAt, countedAt, List.filter_cons]
  by_cases h : r.site = site ∧ r.isCounted
  · rw [if_pos h, if_pos (by simpa using h)]
    rfl
  · rw [if_neg h, if_neg (by simpa using h)]
    rfl

end Report

/-! ## Verdicts -/

def Verdict.ofCount (limit n : Nat) : Verdict :=
  if limit = 0 then .log
  else if n = limit then .limitReached
  else if limit < n then .suppressed
  else .log

namespace Report

def linesBehind (limit : Nat) : Nat → List Report → List Line
  | _, [] => []
  | n, r :: rest => r.linesFor (.ofCount limit (n + 1)) ++ linesBehind limit (n + 1) rest

theorem linesBehind_unlimited (n : Nat) (reports : List Report) :
    linesBehind 0 n reports = reports.map fun r => r.line r.message := by
  induction reports generalizing n with
  | nil => rfl
  | cons r rest ih =>
    rw [linesBehind, ih]
    rfl

theorem linesBehind_limited {limit : Nat} (hlimit : limit ≠ 0) (n : Nat) (reports : List Report) :
    linesBehind limit n reports = (reports.take (limit - n)).mapIdx fun i r =>
      r.line (if n + i + 1 = limit then r.lastMessage else r.message) := by
  induction reports generalizing n with
  | nil => rw [List.take_nil]; rfl
  | cons r rest ih =>
    rw [linesBehind, ih]
    rcases Nat.lt_trichotomy (n + 1) limit with hbelow | hlast | hbeyond
    · obtain ⟨left, hleft⟩ : ∃ left, limit - n = left + 1 := ⟨limit - n - 1, by omega⟩
      have hverdict : Verdict.ofCount limit (n + 1) = .log := by
        rw [Verdict.ofCount, if_neg hlimit, if_neg (by omega), if_neg (by omega)]
      rw [hverdict, hleft, show limit - (n + 1) = left by omega, List.take_succ_cons,
        List.mapIdx_cons, linesFor, if_neg (by omega), List.singleton_append]
      simp only [Nat.add_assoc, Nat.add_comm 1]
    · have hverdict : Verdict.ofCount limit (n + 1) = .limitReached := by
        rw [Verdict.ofCount, if_neg hlimit, if_pos hlast]
      rw [hverdict, show limit - n = 1 by omega, show limit - (n + 1) = 0 by omega,
        List.take_succ_cons, List.take_zero, List.mapIdx_cons, linesFor,
        if_pos hlast]
      rfl
    · have hverdict : Verdict.ofCount limit (n + 1) = .suppressed := by
        rw [Verdict.ofCount, if_neg hlimit, if_neg (by omega), if_pos hbeyond]
      rw [hverdict, show limit - n = 0 by omega, show limit - (n + 1) = 0 by omega]
      rfl

/-- The lines that tell of the reports of a site: of the first ones, up to the limit. -/
theorem linesBehind_zero (limit : Nat) (reports : List Report) :
    linesBehind limit 0 reports =
      (reports.take (if limit = 0 then reports.length else limit)).mapIdx fun i r =>
        r.line (if i + 1 = limit then r.lastMessage else r.message) := by
  by_cases hlimit : limit = 0
  · subst hlimit
    rw [linesBehind_unlimited, if_pos rfl, List.take_length]
    exact List.ext_getElem? fun i => by simp
  · rw [linesBehind_limited hlimit, if_neg hlimit, Nat.sub_zero]
    simp only [Nat.zero_add]

end Report

/-! ## One report -/

namespace Counter

variable {c d : Counter} {r : Report} {site : String}

def make (c : Counter) (w : Writer) (r : Report) : Counter × Writer :=
  c.report w r.site r.severity r.message r.location

def after (c : Counter) (r : Report) : Counter :=
  if r.isCounted then
    { (c.accept r.site).2 with errors := c.errors + if r.severity.isError then 1 else 0 }
  else c

def linesOf (c : Counter) (r : Report) : List Line :=
  if r.isCounted then r.linesFor (c.accept r.site).1 else []

theorem make_eq (c : Counter) (w : Writer) (r : Report) :
    c.make w r = (c.after r, (c.linesOf r).foldl Writer.put w) := by
  unfold make report after linesOf
  by_cases hinfo : r.severity = .info
  · have hcounted : ¬r.isCounted = true := by simp [Report.isCounted, hinfo]
    rw [if_pos hinfo, if_neg hcounted, if_neg hcounted]
    rfl
  · have hcounted : r.isCounted = true := by simp [Report.isCounted, hinfo]
    have haccept (errors : Nat) : { c with errors }.accept r.site =
        ((c.accept r.site).1, { (c.accept r.site).2 with errors }) := rfl
    have herrors : (if r.severity.isError then { c with errors := c.errors + 1 } else c) =
        { c with errors := c.errors + if r.severity.isError then 1 else 0 } := by
      cases r.severity.isError <;> rfl
    rw [if_neg hinfo, if_pos hcounted, if_pos hcounted]
    dsimp only
    rw [herrors, haccept]
    cases (c.accept r.site).1 <;> rfl

theorem verdict_accept (hc : c.Ordered) (site : String) :
    (c.accept site).1 = .ofCount c.limit (c.countOf site + 1) := by
  have hcount : (c.accept site).2.countOf site = c.countOf site + 1 := by
    rw [countOf_accept hc, if_pos rfl]
  rw [Verdict.ofCount, ← hcount]
  rfl

theorem Ordered.after (hc : c.Ordered) (r : Report) : (c.after r).Ordered := by
  unfold Counter.after
  split
  · exact hc.accept r.site
  · exact hc

theorem limit_after (c : Counter) (r : Report) : (c.after r).limit = c.limit := by
  unfold after
  split <;> rfl

theorem errors_after (c : Counter) (r : Report) :
    (c.after r).errors = c.errors + if r.severity.isError then 1 else 0 := by
  unfold after
  by_cases hcounted : r.isCounted = true
  · rw [if_pos hcounted]
  · have hinfo : r.severity = .info := by simpa [Report.isCounted] using hcounted
    rw [if_neg hcounted, hinfo]
    rfl

theorem countOf_after (hc : c.Ordered) (r : Report) (site : String) :
    (c.after r).countOf site =
      c.countOf site + if r.site = site ∧ r.isCounted then 1 else 0 := by
  unfold after
  by_cases hcounted : r.isCounted = true
  · have haccept := countOf_accept hc r.site site
    simp only [hcounted, and_true, eq_comm (a := r.site)]
    exact haccept
  · simp [hcounted]

theorem linesOf_eq (hc : c.Ordered) (r : Report) : c.linesOf r =
    if r.isCounted then r.linesFor (.ofCount c.limit (c.countOf r.site + 1)) else [] := by
  rw [linesOf, verdict_accept hc]

/-! ## Sequences of reports -/

/-- The reports are made one after the other, each to a writer that takes everything, and each
adds these lines there. -/
inductive Logs : Counter → List (Report × Writer) → List (Report × List Line) → Counter → Prop
  | none {c : Counter} : Logs c [] [] c
  | more {c d e : Counter} {r : Report} {w v : Writer} {lines : List Line}
      {reports : List (Report × Writer)} {log : List (Report × List Line)}
      (takes : w.Unfailing) (makes : c.make w r = (d, v))
      (adds : v.sink.lines = w.sink.lines ++ lines) (rest : Logs d reports log e) :
      Logs c ((r, w) :: reports) ((r, lines) :: log) e

theorem exists_logs (c : Counter) {reports : List (Report × Writer)}
    (h : ∀ made ∈ reports, made.2.Unfailing) : ∃ log d, Logs c reports log d := by
  induction reports generalizing c with
  | nil => exact ⟨[], c, .none⟩
  | cons made rest ih =>
    obtain ⟨hw, hrest⟩ := List.forall_mem_cons.mp h
    obtain ⟨log, d, hlog⟩ := ih (c.after made.1) hrest
    exact ⟨_, d, .more hw (c.make_eq made.2 made.1) (Writer.puts_lines hw _) hlog⟩

/-- What reports leave in the counter, and what they add to their writers. -/
structure Tells (c : Counter) (reports : List Report) (log : List (Report × List Line))
    (d : Counter) : Prop where
  told : log.map (·.1) = reports
  ordered : d.Ordered
  limit : d.limit = c.limit
  errors : d.errors = c.errors + reports.countP (·.severity.isError)
  countOf : ∀ site, d.countOf site = c.countOf site + (Report.countedAt site reports).length
  lines : ∀ site, (log.filter (·.1.site = site)).flatMap (·.2) =
    Report.linesBehind c.limit (c.countOf site) (Report.countedAt site reports)
  info : ∀ entry ∈ log, entry.1.severity = .info → entry.2 = []

theorem Logs.tells {reports : List (Report × Writer)} {log : List (Report × List Line)}
    (h : Logs c reports log d) (hc : c.Ordered) : Tells c (reports.map (·.1)) log d := by
  induction h with
  | none => exact ⟨rfl, hc, rfl, rfl, fun _ => rfl, fun _ => rfl, nofun⟩
  | @more c _ _ r w _ lines _ _ takes makes adds _ ih =>
    rw [make_eq] at makes
    cases makes
    obtain rfl : c.linesOf r = lines := by
      rw [show ((c.linesOf r).foldl Writer.put w).sink.lines = _ from
        Writer.puts_lines takes _] at adds
      exact List.append_cancel_left adds
    have hrest := ih (hc.after r)
    refine
      { told := by rw [List.map_cons, List.map_cons, hrest.told]
        ordered := hrest.ordered
        limit := hrest.limit.trans (limit_after c r)
        errors := ?_
        countOf := fun site => ?_
        lines := fun site => ?_
        info := List.forall_mem_cons.mpr ⟨fun hinfo => ?_, hrest.info⟩ }
    · rw [hrest.errors, errors_after, List.map_cons, List.countP_cons, Nat.add_assoc]
      exact congrArg _ (Nat.add_comm ..)
    · rw [hrest.countOf, countOf_after hc, List.map_cons, Report.countedAt_cons,
        List.length_append, Nat.add_assoc]
      split <;> rfl
    · have hmore := hrest.lines site
      rw [limit_after, countOf_after hc] at hmore
      rw [List.map_cons, Report.countedAt_cons, List.filter_cons, linesOf_eq hc]
      by_cases hsite : r.site = site
      · subst hsite
        by_cases hcounted : r.isCounted = true
        · simp only [hcounted, and_self, if_true, decide_true, List.flatMap_cons] at hmore ⊢
          rw [hmore]
          rfl
        · simp only [hcounted, Bool.false_eq_true, and_false, if_false, if_true, decide_true,
            List.flatMap_cons] at hmore ⊢
          exact hmore
      · simp only [hsite, false_and, if_false, decide_false] at hmore ⊢
        exact hmore
    · have hcounted : ¬r.isCounted = true := by simpa [Report.isCounted] using hinfo
      exact if_neg hcounted

/-! ## Limited sites -/

theorem mem_counts_iff (hc : c.Ordered) {n : Nat} (hn : n ≠ 0) :
    (site, n) ∈ c.counts ↔ c.countOf site = n := by
  rw [countOf]
  constructor
  · intro hmem
    obtain ⟨front, rest, hsplit⟩ := List.append_of_mem hmem
    have hfront : ∀ entry ∈ front, site != entry.1 := by
      intro entry hentry
      have hordered := hc
      rw [Ordered, hsplit, List.map_append, List.pairwise_append] at hordered
      refine bne_iff_ne.mpr (ne_of_gt (hordered.2.2 entry.1 ?_ site ?_))
      · exact List.mem_map_of_mem hentry
      · exact List.mem_map_of_mem List.mem_cons_self
    rw [List.lookup_eq_some_iff.mpr ⟨front, rest, hsplit, hfront⟩, Option.getD_some]
  · intro hcount
    cases hfound : c.counts.lookup site with
    | none =>
      rw [hfound] at hcount
      exact absurd hcount.symm hn
    | some m =>
      rw [hfound, Option.getD_some] at hcount
      obtain ⟨front, rest, hsplit, -⟩ := List.lookup_eq_some_iff.mp hfound
      rw [hsplit, ← hcount]
      exact List.mem_append_right _ List.mem_cons_self

theorem mem_limited_iff (hc : c.Ordered) (site : String) (n : Nat) : (site, n) ∈ c.limited ↔
    0 < c.limit ∧ c.limit ≤ n ∧ c.countOf site = n := by
  unfold limited
  by_cases hlimit : c.limit = 0
  · simp [hlimit]
  · rw [if_neg hlimit, List.mem_filter]
    simp only [decide_eq_true_eq]
    constructor
    · rintro ⟨hmem, hle⟩
      exact ⟨Nat.pos_of_ne_zero hlimit, hle, (mem_counts_iff hc (by omega)).mp hmem⟩
    · rintro ⟨hpos, hle, hcount⟩
      exact ⟨(mem_counts_iff hc (by omega)).mpr hcount, hle⟩

theorem Ordered.limited (hc : c.Ordered) : (c.limited.map (·.1)).Pairwise (· < ·) := by
  unfold Counter.limited
  split
  · exact .nil
  · exact List.Pairwise.sublist (List.Sublist.map _ List.filter_sublist) hc

def mixedReports : List (Report × Writer) :=
  [⟨"a", .warn, "one", .number 5⟩, ⟨"b", .error, "odd", .number 5⟩, ⟨"a", .warn, "two", .number 6⟩,
    ⟨"b", .info, "so far", .number 5⟩, ⟨"a", .errorSevere, "three", .number 7⟩].map
      fun r => (r, .ofSink .unbounded)

end Counter

end IrFacts
