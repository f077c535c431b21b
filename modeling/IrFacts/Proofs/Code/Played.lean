import IrFacts.Proofs.Code.Layout
import IrFacts.Proofs.Diagnostics.Counts
import IrFacts.Proofs.Run.ScriptedCode

/-!
# Sessions that play cues

Between two sessions some cues were played: the rows in them were written, with
ids that were handed out in their order, the loops were opened and closed, and
each jump was told its target, or a problem was counted. Projection plays none.
-/

set_option autoImplicit false

namespace IrFacts

/-! ## What the lines tell -/

namespace Trap

def ExprKind.ofCode? (code : Int) : Option ExprKind := ExprKind.all.find? fun k => k.code = code

def StmtKind.ofCode? (code : Int) : Option StmtKind := StmtKind.all.find? fun k => k.code = code

theorem ExprKind.ofCode?_code (k : ExprKind) : ofCode? k.code = some k := by
  cases k <;> rfl

theorem StmtKind.ofCode?_code (k : StmtKind) : ofCode? k.code = some k := by
  cases k <;> rfl

def Fact.row? (f : Fact) : Option Row :=
  if f.relation = "exprs" then
    match f.args with
    | [.label id, .int code, .label _, .label parent, .int index] =>
      (ExprKind.ofCode? code).map fun k => ⟨.expr k, id, parent, index⟩
    | _ => none
  else if f.relation = "stmts" then
    match f.args with
    | [.label id, .int code, .label parent, .int index, .label _] =>
      (StmtKind.ofCode? code).map fun k => ⟨.stmt k, id, parent, index⟩
    | _ => none
  else if f.relation = "when_branch" then
    match f.args with
    | [.label id, .label parent, .int index] => some ⟨.branch, id, parent, index⟩
    | _ => none
  else none

/-- The statement and the loop that a fact calls its target. -/
def Fact.leap? (f : Fact) : Option (Label × Label) :=
  if f.relation = "ktBreakContinueTargets" then
    match f.args with
    | [.label stmt, .label loop] => some (stmt, loop)
    | _ => none
  else none

def Line.row? : Line → Option Row
  | .fact f => f.row?
  | _ => none

def Line.leap? : Line → Option (Label × Label)
  | .fact f => f.leap?
  | _ => none

theorem Fact.row?_exprs (id type parent : Label) (kind : ExprKind) (index : Int) :
    (Fact.exprs id kind type parent index).row? = some ⟨.expr kind, id, parent, index⟩ := by
  simp [exprs, row?, ExprKind.ofCode?_code]

theorem Fact.row?_stmts (id parent callable : Label) (kind : StmtKind) (index : Int) :
    (Fact.stmts id kind parent index callable).row? = some ⟨.stmt kind, id, parent, index⟩ := by
  simp [stmts, row?, StmtKind.ofCode?_code]

theorem Fact.row?_whenBranch (id parent : Label) (index : Int) :
    (Fact.whenBranch id parent index).row? = some ⟨.branch, id, parent, index⟩ := by
  simp [whenBranch, row?]

theorem Fact.row?_of_notMem {f : Fact} (h : f.relation ∉ nodeRelations) : f.row? = none := by
  simp only [nodeRelations, List.mem_cons, List.not_mem_nil, or_false, not_or] at h
  simp only [row?, if_neg h.1, if_neg h.2.1, if_neg h.2.2.1]

theorem Fact.leap?_of_ne {f : Fact} (h : f.relation ≠ "ktBreakContinueTargets") :
    f.leap? = none := if_neg h

end Trap

/-! ## Ids in order -/

/-- The ids are numbers from `low` up to `high`, each larger than the one before. -/
inductive Ascending : Nat → Nat → List Row → Prop
  | nil {low high : Nat} : low ≤ high → Ascending low high []
  | cons {low high k : Nat} {r : Row} {rows : List Row} : r.id = .number k → low ≤ k →
      Ascending (k + 1) high rows → Ascending low high (r :: rows)

namespace Ascending

variable {low mid high : Nat} {rows more : List Row}

theorem le (h : Ascending low high rows) : low ≤ high := by
  induction h with
  | nil h => exact h
  | cons _ hk _ ih => omega

theorem mono {low' : Nat} (h : Ascending low high rows) (hlow : low' ≤ low) :
    Ascending low' high rows := by
  cases h with
  | nil h => exact .nil (Nat.le_trans hlow h)
  | cons hid hk hrest => exact .cons hid (Nat.le_trans hlow hk) hrest

theorem append (h : Ascending low mid rows) (k : Ascending mid high more) :
    Ascending low high (rows ++ more) := by
  induction h with
  | nil hle => exact k.mono hle
  | cons hid hk _ ih => exact .cons hid hk (ih k)

theorem fresh (h : Ascending low high rows) {r : Row} (hr : r ∈ rows) :
    ∃ k, r.id = .number k ∧ low ≤ k ∧ k < high := by
  induction h with
  | nil => cases hr
  | cons hid hk hrest ih =>
    rcases List.mem_cons.mp hr with rfl | hr
    · exact ⟨_, hid, hk, hrest.le⟩
    · obtain ⟨m, hm, hlow, hhigh⟩ := ih hr
      exact ⟨m, hm, by omega, hhigh⟩

theorem nodup (h : Ascending low high rows) : (rows.map (·.id)).Nodup := by
  induction h with
  | nil => exact List.nodup_nil
  | cons hid hk hrest ih =>
    refine List.nodup_cons.mpr ⟨fun hm => ?_, ih⟩
    obtain ⟨r, hr, he⟩ := List.mem_map.mp hm
    obtain ⟨m, hm, hlow, -⟩ := hrest.fresh hr
    have := Label.number.inj (hid.symm.trans (he.symm.trans hm))
    omega

end Ascending

/-! ## Played cues -/

/-- The site of problems with the targets of jumps. -/
def Problem.jumpSite : String := "code/jump"

theorem Problem.site_eq_jumpSite {problem : Problem} (h : problem.site = jumpSite) :
    ∃ jump, problem = .jumpTarget jump := by
  cases problem with
  | jumpTarget jump => exact ⟨jump, rfl⟩
  | _ => exact absurd h (by simp [site, jumpSite])

namespace Cue

/-- The jumps that have a target, as they are told of. -/
def told (jumps : List (Label × Option Label)) : List (Label × Label) :=
  jumps.filterMap fun j => j.2.map (j.1, ·)

/-- The number of jumps without a target. -/
def astray (jumps : List (Label × Option Label)) : Nat := jumps.countP fun j => j.2.isNone

theorem told_append (as bs : List (Label × Option Label)) :
    told (as ++ bs) = told as ++ told bs := List.filterMap_append

theorem astray_append (as bs : List (Label × Option Label)) :
    astray (as ++ bs) = astray as + astray bs := List.countP_append

end Cue

namespace Session

/-- Between `s` and `t` nothing was shown of code but the cues. -/
structure Shows (s t : Session) (cues : List Cue) : Prop where
  next : s.table.next ≤ t.table.next
  lines : ∃ ls, s.Wrote t ls ∧ ls.filterMap Trap.Line.row? = Cue.rows cues ∧
    ls.filterMap Trap.Line.leap? = Cue.told (Cue.jumps cues s.openLoops)
  loops : t.openLoops = Cue.loopsAfter cues s.openLoops
  current : t.currentFunction = s.currentFunction
  counter : s.counter.Ordered → t.counter.Ordered ∧ t.counter.countOf Problem.jumpSite =
    s.counter.countOf Problem.jumpSite + Cue.astray (Cue.jumps cues s.openLoops)

/-- Between `s` and `t` the cues were played, with new ids for the rows. -/
structure Plays (s t : Session) (cues : List Cue) : Prop extends Shows s t cues where
  ids : Ascending s.table.next t.table.next (Cue.rows cues)

variable {s t u : Session} {as bs : List Cue}

theorem Shows.refl (s : Session) : s.Shows s [] :=
  ⟨Nat.le_refl _, ⟨[], wrote_nil rfl, rfl, rfl⟩, rfl, rfl, fun h => ⟨h, rfl⟩⟩

theorem Shows.trans (h : s.Shows t as) (k : t.Shows u bs) : s.Shows u (as ++ bs) := by
  obtain ⟨ls, hls, hrows, hleaps⟩ := h.lines
  obtain ⟨ms, hms, krows, kleaps⟩ := k.lines
  have hjumps : Cue.jumps (as ++ bs) s.openLoops =
      Cue.jumps as s.openLoops ++ Cue.jumps bs t.openLoops := by
    rw [Cue.jumps_append, h.loops]
  refine ⟨Nat.le_trans h.next k.next, ⟨ls ++ ms, hls.trans hms, ?_, ?_⟩, ?_,
    k.current.trans h.current, fun ho => ?_⟩
  · rw [List.filterMap_append, hrows, krows, Cue.rows_append]
  · rw [List.filterMap_append, hleaps, kleaps, hjumps, Cue.told_append]
  · rw [k.loops, h.loops, Cue.loopsAfter_append]
  · obtain ⟨ht, hcount⟩ := h.counter ho
    obtain ⟨hu, kcount⟩ := k.counter ht
    rw [hjumps, Cue.astray_append, kcount, hcount, Nat.add_assoc]
    exact ⟨hu, rfl⟩

theorem Shows.plays (h : s.Shows t as) (hrows : Cue.rows as = []) : s.Plays t as :=
  ⟨h, by rw [hrows]; exact .nil h.next⟩

theorem Plays.refl (s : Session) : s.Plays s [] := (Shows.refl s).plays rfl

theorem Plays.trans (h : s.Plays t as) (k : t.Plays u bs) : s.Plays u (as ++ bs) :=
  ⟨h.toShows.trans k.toShows, by rw [Cue.rows_append]; exact h.ids.append k.ids⟩

theorem Plays.then (h : s.Plays t as) (k : t.Plays u []) : s.Plays u as := by
  have := h.trans k
  rwa [List.append_nil] at this

/-! ## Single events -/

theorem next_step (e : Event) (s : Session) :
    s.table.next ≤ (e.step s).table.next := Event.run_table_next [e] s

theorem shows_step {e : Event} {cues : List Cue}
    (hrows : (e.lines s).filterMap Trap.Line.row? = Cue.rows cues)
    (hleaps : (e.lines s).filterMap Trap.Line.leap? = Cue.told (Cue.jumps cues s.openLoops))
    (hloops : (e.step s).openLoops = Cue.loopsAfter cues s.openLoops)
    (hcurrent : (e.step s).currentFunction = s.currentFunction)
    (hcounter : s.counter.Ordered → (e.step s).counter.Ordered ∧
      (e.step s).counter.countOf Problem.jumpSite =
        s.counter.countOf Problem.jumpSite + Cue.astray (Cue.jumps cues s.openLoops)) :
    s.Shows (e.step s) cues :=
  ⟨next_step e s, ⟨_, Event.step_wrote e s, hrows, hleaps⟩, hloops, hcurrent, hcounter⟩

theorem report_counter (s : Session) (problem : Problem) (location : Label) :
    ((Event.report problem location).step s).counter =
      ({ s.counter with errors := s.counter.errors + 1 }.accept problem.site).2 := by
  simp only [Event.step, Event.report_eq]
  rfl

theorem report_countOf (h : s.counter.Ordered) (problem : Problem) (location : Label)
    (site : String) : ((Event.report problem location).step s).counter.Ordered ∧
      ((Event.report problem location).step s).counter.countOf site =
        s.counter.countOf site + if site = problem.site then 1 else 0 := by
  rw [report_counter]
  have ho : Counter.Ordered { s.counter with errors := s.counter.errors + 1 } := h
  exact ⟨ho.accept problem.site, Counter.countOf_accept ho problem.site site⟩

theorem diagnostic_silent (c : Counter) (problem : Problem) (location : Label) :
    (Event.diagnostic c problem location).filterMap Trap.Line.row? = [] ∧
      (Event.diagnostic c problem location).filterMap Trap.Line.leap? = [] := by
  unfold Event.diagnostic
  dsimp only
  split <;> exact ⟨rfl, rfl⟩

theorem shows_aside {p : Program} {e : Event} (he : Event.Aside p e) : s.Shows (e.step s) [] := by
  cases e with
  | fact f =>
    have hleap : f.relation ≠ "ktBreakContinueTargets" := fun h =>
      he.2 (by simp [h, Trap.nodeRelations])
    refine shows_step ?_ ?_ rfl rfl fun h => ⟨h, rfl⟩
    · simp [Event.lines, Trap.Line.row?, Trap.Fact.row?_of_notMem he.2, Cue.rows]
    · simp [Event.lines, Trap.Line.leap?, Trap.Fact.leap?_of_ne hleap, Cue.jumps, Cue.told]
  | lookup key asker =>
    refine shows_step ?_ ?_ rfl rfl fun h => ⟨h, rfl⟩ <;>
      (simp only [Event.lines]; split <;> rfl)
  | report problem location =>
    obtain ⟨hrows, hleaps⟩ := diagnostic_silent s.counter problem location
    refine shows_step hrows hleaps rfl rfl fun h => ?_
    have hsite : ¬ Problem.jumpSite = problem.site := by
      intro h
      obtain ⟨jump, rfl⟩ := Problem.site_eq_jumpSite h.symm
      exact he jump rfl
    have hreport := report_countOf h problem location Problem.jumpSite
    rwa [if_neg hsite] at hreport
  | enter id l => exact absurd he (by simp [Event.Aside])
  | leave id => exact absurd he (by simp [Event.Aside])
  | current f => exact absurd he (by simp [Event.Aside])
  | fresh => exact shows_step rfl rfl rfl rfl fun h => ⟨h, rfl⟩
  | schedule id f => exact shows_step rfl rfl rfl rfl fun h => ⟨h, rfl⟩
  | target t => exact shows_step rfl rfl rfl rfl fun h => ⟨h, rfl⟩
  | named id l => exact shows_step rfl rfl rfl rfl fun h => ⟨h, rfl⟩

theorem plays_script {p : Program} {es : List Event} (h : Script (Event.Aside p) s es) :
    s.Plays (Event.run es s) [] := by
  induction h with
  | nil s => exact .refl s
  | event he _ ih => exact ((shows_aside he).plays rfl).trans ih
  | @introduce s key r args es hkey hnone _ ih =>
    have hdisjoint : ∀ r ∈ Trap.introducingRelations, r ∉ Trap.nodeRelations := by decide
    have hr := hdisjoint r (Trap.mem_introducingRelations hkey)
    have hleap : r ≠ "ktBreakContinueTargets" := fun h => hr (by simp [h, Trap.nodeRelations])
    have hlookup : s.Shows ((Event.lookup key none).step s) [] := by
      refine shows_step ?_ ?_ rfl rfl fun h => ⟨h, rfl⟩ <;>
        (simp only [Event.lines, hnone]; rfl)
    have hfact : ((Event.lookup key none).step s).Shows
        ((Event.fact ⟨r, .label (.number s.table.next) :: args⟩).step
          ((Event.lookup key none).step s)) [] := by
      refine shows_step ?_ ?_ rfl rfl fun h => ⟨h, rfl⟩
      · simp [Event.lines, Trap.Line.row?, Trap.Fact.row?_of_notMem (f := ⟨r, _⟩) hr, Cue.rows]
      · simp [Event.lines, Trap.Line.leap?, Trap.Fact.leap?_of_ne (f := ⟨r, _⟩) hleap, Cue.jumps,
          Cue.told]
    exact ((hlookup.trans hfact).plays rfl).trans ih

end Session

namespace Extract

open Session

variable {α : Type} {p : Program} {s s' : Session}

theorem plays_of_aside {m : Extract α} {a : α} (hm : Aside p m) (he : Ends p s m a s') :
    s.Plays s' [] := by
  obtain ⟨es, hes, rfl⟩ := hm.runs he
  exact plays_script hes

theorem plays_write {r : String} {args : List Trap.Arg} {u : Unit}
    (hi : r ∉ Trap.introducingRelations) (hn : r ∉ Trap.nodeRelations)
    (he : Ends p s (write ⟨r, args⟩) u s') : s.Plays s' [] :=
  plays_of_aside (aside_write hi hn) he

theorem plays_pure {a b : α} (he : Ends p s (pure a) b s') : s.Plays s' [] :=
  plays_of_aside (.pure a) he

theorem plays_complain {problem : Problem} {u : Unit} (h : ∀ jump, problem ≠ .jumpTarget jump)
    (he : Ends p s (complain problem) u s') : s.Plays s' [] :=
  plays_of_aside (scripted_complain h) he

theorem plays_complainAt {problem : Problem} {span : Span} {u : Unit}
    (h : ∀ jump, problem ≠ .jumpTarget jump) (he : Ends p s (complainAt problem span) u s') :
    s.Plays s' [] :=
  plays_of_aside (scripted_complainAt h span) he

end Extract

end IrFacts
