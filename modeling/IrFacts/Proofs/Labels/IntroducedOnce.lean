import IrFacts.Proofs.Labels.Faithful
import IrFacts.Proofs.Run.Operation
import IrFacts.Proofs.Run.ScriptedCode
import IrFacts.Proofs.Run.Sink

/-!
# Keys are introduced once

Packages, modifiers, types, wildcards and places are introduced by one fact
each, which is written when the key gets its label. In a script no such key
gets its label in another way, and so a store that was written by scripts tells
of each of them once and of nothing else in these relations.
-/

set_option autoImplicit false

namespace IrFacts

namespace Trap

/-- Whether a line is a fact of the relation that starts with the label. -/
def Line.tells (relation : String) (l : Label) : Line → Bool
  | .fact ⟨r, .label m :: _⟩ => decide (r = relation ∧ m = l)
  | _ => false

/-- What the lines say of the keys that have labels in a table: of each that is
introduced by a fact and is not exempt, one fact of its relation, and of no
other label any fact of these relations. -/
structure IntroducedOnce (exempt : String → Prop) (t : LabelTable) (lines : List Line) : Prop where
  once : ∀ key l r, t.find? key = some l → introducedBy? key = some r → ¬ exempt key →
    lines.countP (·.tells r l) = 1
  only : ∀ f, .fact f ∈ lines → f.relation ∈ introducingRelations → ∃ l args,
    f.args = .label l :: args ∧ (∃ key, t.find? key = some l) ∧
      ∀ key, t.find? key = some l → introducedBy? key = some f.relation

theorem Line.tells_iff {r : String} {l : Label} {line : Line} :
    line.tells r l ↔ ∃ args, line = .fact ⟨r, .label l :: args⟩ := by
  constructor
  · intro h
    unfold tells at h
    split at h
    · obtain ⟨rfl, rfl⟩ := of_decide_eq_true h
      exact ⟨_, rfl⟩
    · cases h
  · rintro ⟨args, rfl⟩
    simp [tells]

theorem Line.countP_introduction (key r : String) (l m : Label) (args : List Arg) :
    [Line.define l key, .fact ⟨r, .label l :: args⟩].countP (·.tells r m) =
      if l = m then 1 else 0 := by
  simp [tells]

theorem Line.countP_introduction_of_ne (key r r' : String) {l m : Label} (args : List Arg)
    (h : l ≠ m) : [Line.define l key, .fact ⟨r, .label l :: args⟩].countP (·.tells r' m) = 0 := by
  simp [tells, h]

end Trap

namespace Event

/-- What leaves the keys alone that are introduced by facts and not exempt. -/
def Leaves (exempt : String → Prop) : Event → Prop
  | .fact f => f.relation ∉ Trap.introducingRelations
  | .lookup key _ => Trap.introducedBy? key = none ∨ exempt key
  | _ => True

end Event

/-- What is known of a store in the middle of a script. -/
structure Session.Introduces (exempt : String → Prop) (s : Session) (lines : List Trap.Line) :
    Prop where
  faithful : s.table.Faithful
  once : ∀ key l r, s.table.find? key = some l → Trap.introducedBy? key = some r → ¬ exempt key →
    lines.countP (·.tells r l) = 1
  only : ∀ f, .fact f ∈ lines → f.relation ∈ Trap.introducingRelations → ∃ key l args,
    f.args = .label l :: args ∧ s.table.find? key = some l ∧
      Trap.introducedBy? key = some f.relation

namespace Session

open Trap

variable {exempt : String → Prop} {s : Session} {lines : List Line}

theorem find?_step_lookup {key other : String} (hnone : s.table.find? key = none) :
    ((Event.lookup key none).step s).table.find? other =
      if other = key then some (.number s.table.next) else s.table.find? other := by
  rw [Event.step_table]
  exact LabelTable.find?_lookup_of_none hnone other

def Silent (lines : List Line) : Prop :=
  ∀ f, .fact f ∈ lines → f.relation ∉ introducingRelations

theorem Silent.countP {more : List Line} (h : Silent more) {key r : String} (l : Label)
    (hr : introducedBy? key = some r) : more.countP (·.tells r l) = 0 := by
  apply List.countP_eq_zero.mpr
  intro line hline htells
  obtain ⟨args, rfl⟩ := Line.tells_iff.mp htells
  exact h _ hline (mem_introducingRelations hr)

/-- Lines without introductions change nothing while the keys stay. -/
theorem Introduces.append_silent (h : s.Introduces exempt lines) {t : Session} {more : List Line}
    (ht : t.table.Faithful) (hfind : ∀ key, t.table.find? key = s.table.find? key)
    (hmore : Silent more) : t.Introduces exempt (lines ++ more) := by
  refine ⟨ht, ?_, ?_⟩
  · intro key l r hk hr hexempt
    rw [hfind] at hk
    rw [List.countP_append, h.once key l r hk hr hexempt, hmore.countP l hr]
  · intro f hf hr
    rcases List.mem_append.mp hf with hf | hf
    · obtain ⟨key, l, args, ha, hk, hi⟩ := h.only f hf hr
      exact ⟨key, l, args, ha, (hfind key).trans hk, hi⟩
    · exact absurd hr (hmore f hf)

theorem Introduces.lookup (h : s.Introduces exempt lines) {key : String}
    (hnone : s.table.find? key = none) (hkey : introducedBy? key = none ∨ exempt key) :
    ((Event.lookup key none).step s).Introduces exempt
      (lines ++ [.define (.number s.table.next) key]) := by
  have hsilent : Silent [.define (.number s.table.next) key] := by
    intro f hf
    cases List.mem_singleton.mp hf
  refine ⟨h.faithful.step _, ?_, ?_⟩
  · intro a l r ha hr hexempt
    rw [find?_step_lookup hnone] at ha
    split at ha
    · next he =>
      subst he
      rcases hkey with hkey | hkey
      · rw [hkey] at hr
        cases hr
      · exact absurd hkey hexempt
    · rw [List.countP_append, h.once a l r ha hr hexempt, hsilent.countP l hr]
  · intro f hf hr
    rcases List.mem_append.mp hf with hf | hf
    · obtain ⟨a, l, args, hargs, ha, hi⟩ := h.only f hf hr
      refine ⟨a, l, args, hargs, ?_, hi⟩
      have hne : a ≠ key := by
        rintro rfl
        rw [hnone] at ha
        cases ha
      rw [find?_step_lookup hnone, if_neg hne, ha]
    · exact absurd hr (hsilent f hf)

theorem Introduces.introduce (h : s.Introduces exempt lines) {key r : String} {args : List Arg}
    (hkey : introducedBy? key = some r) (hnone : s.table.find? key = none) :
    (Event.run [.lookup key none, .fact ⟨r, .label (.number s.table.next) :: args⟩] s).Introduces
      exempt (lines ++ [.define (.number s.table.next) key,
        .fact ⟨r, .label (.number s.table.next) :: args⟩]) := by
  have hfind (a : String) : (Event.run [.lookup key none,
      .fact ⟨r, .label (.number s.table.next) :: args⟩] s).table.find? a =
      ((Event.lookup key none).step s).table.find? a := by
    simp only [Event.run, Event.step_table (.fact _), Event.onTable]
  -- No line can have told of the label, as none was handed out with its number.
  have hunsaid (r' : String) (hr' : r' ∈ introducingRelations) :
      lines.countP (·.tells r' (.number s.table.next)) = 0 := by
    apply List.countP_eq_zero.mpr
    intro line hline htells
    obtain ⟨rest, rfl⟩ := Line.tells_iff.mp htells
    obtain ⟨a, l, _, hargs, ha, -⟩ := h.only _ hline hr'
    cases hargs
    exact h.faithful.find?_ne ha rfl
  refine ⟨h.faithful.run _, ?_, ?_⟩
  · intro a l r' ha hr' hexempt
    rw [hfind, find?_step_lookup hnone] at ha
    rw [List.countP_append]
    split at ha
    · next he =>
      subst he
      cases ha
      obtain rfl := Option.some.inj (hkey.symm.trans hr')
      rw [hunsaid r (mem_introducingRelations hkey), Line.countP_introduction, if_pos rfl]
    · have hne := h.faithful.find?_ne ha
      rw [h.once a l r' ha hr' hexempt,
        Line.countP_introduction_of_ne key r r' args (Ne.symm hne)]
  · intro f hf hr
    rcases List.mem_append.mp hf with hf | hf
    · obtain ⟨a, l, rest, hargs, ha, hi⟩ := h.only f hf hr
      refine ⟨a, l, rest, hargs, ?_, hi⟩
      have hne : a ≠ key := by
        rintro rfl
        rw [hnone] at ha
        cases ha
      rw [hfind, find?_step_lookup hnone, if_neg hne, ha]
    · have hf : f = ⟨r, .label (.number s.table.next) :: args⟩ := by simpa using hf
      subst hf
      exact ⟨key, _, args, rfl, by rw [hfind, find?_step_lookup hnone, if_pos rfl], hkey⟩

theorem Introduces.step (h : s.Introduces exempt lines) {e : Event}
    (he : Event.Leaves exempt e) : (e.step s).Introduces exempt (lines ++ e.lines s) := by
  cases e with
  | lookup key asker =>
    cases hk : s.table.find? key with
    | some l =>
      rw [Event.lookup_step asker hk]
      simpa [Event.lines, hk] using h
    | none =>
      simp only [Event.lines, hk]
      exact h.lookup hk he
  | fact f =>
    refine h.append_silent (h.faithful.step _) (fun key => by rw [Event.step_table]; rfl) ?_
    intro g hg
    cases List.mem_singleton.mp hg
    exact he
  | fresh =>
    refine h.append_silent (h.faithful.step _) (fun key => by rw [Event.step_table]; rfl) ?_
    intro g hg
    cases List.mem_singleton.mp hg
  | report problem location =>
    refine h.append_silent (h.faithful.step _) (fun key => by rw [Event.step_table]; rfl) ?_
    have hdiagnostics : "diagnostics" ∉ introducingRelations := by decide
    intro g hg
    simp only [Event.lines, Event.diagnostic] at hg
    split at hg
    · cases hg
    · cases List.mem_singleton.mp hg
      exact hdiagnostics
    · cases List.mem_singleton.mp hg
      exact hdiagnostics
  | _ =>
    exact h.append_silent h.faithful (fun key => rfl) fun g hg => absurd hg List.not_mem_nil

theorem Introduces.run (h : s.Introduces exempt lines) {es : List Event}
    (hes : Script (Event.Leaves exempt) s es) :
    (Event.run es s).Introduces exempt (lines ++ Event.linesOf es s) := by
  induction hes generalizing lines with
  | nil s =>
    rw [Event.linesOf, List.append_nil]
    exact h
  | event he _ ih =>
    rw [Event.linesOf, ← List.append_assoc]
    exact ih (h.step he)
  | @introduce s key r args es hkey hnone _ ih =>
    have hrest := ih (h.introduce hkey hnone)
    have hlines : Event.linesOf (.lookup key none ::
        .fact ⟨r, .label (.number s.table.next) :: args⟩ :: es) s =
        [.define (.number s.table.next) key, .fact ⟨r, .label (.number s.table.next) :: args⟩] ++
          Event.linesOf es (Event.run [.lookup key none,
            .fact ⟨r, .label (.number s.table.next) :: args⟩] s) := by
      simp only [Event.linesOf, Event.lines, hnone, Event.run, List.cons_append, List.nil_append]
    rw [hlines, ← List.append_assoc]
    exact hrest

theorem Introduces.introducedOnce (h : s.Introduces exempt lines) :
    IntroducedOnce exempt s.table lines := by
  refine ⟨h.once, fun f hf hr => ?_⟩
  obtain ⟨key, l, args, hargs, hl, hkey⟩ := h.only f hf hr
  refine ⟨l, args, hargs, ⟨key, hl⟩, fun other ho => ?_⟩
  rw [h.faithful.distinct other key l ho hl, hkey]

end Session

/-! ## A whole run -/

/-- The keys of the files that a store has places in, and of their folders. -/
def Program.FileKey (p : Program) (path key : String) : Prop :=
  ∃ text, (text = path ∨ p.IsPlace text) ∧ (Path.mk text).IsKey key

/-- An operation, or a label that is asked for on its own. -/
inductive Request where
  | operation (op : Operation)
  | package (name : String)
  | modifier (name : String)
  | classType (id : DeclId) (arguments : List TypeArgument) (nullable : Bool)
  | parent (owner : DeclParent)
  | value (id : DeclId)
  | place (span : Span)
  | wholeFile
  | noPlace

namespace Request

open Extract

def perform (w : Walk) : Request → Extract Unit
  | .operation op => op.perform w
  | .package name => do let _ ← packageLabel name
  | .modifier name => do let _ ← modifierLabel name
  | .classType id arguments nullable => do let _ ← w.classType id arguments nullable
  | .parent owner => do let _ ← w.parent owner
  | .value id => do let _ ← w.value id
  | .place span => do let _ ← location span
  | .wholeFile => do let _ ← Extract.wholeFile
  | .noPlace => do let _ ← unknownLocation

def run (w : Walk) (requests : List Request) : Extract Unit := requests.forM fun r => r.perform w

variable {p : Program} {w : Walk}

theorem plain_forget {α : Type} {m : Extract α} (h : Plain p m) :
    Plain p (do let _ ← m) := scripted_bind h fun _ => .pure _

theorem plain_operation (hw : KeepsPlain p w) (op : Operation) : Plain p (op.perform w) := by
  have hask (r : Reference) (x : Unit) :
      (scripts p).Says x (r.ask w.toProjection) [] Reading.Any :=
    ⟨(aside_ask hw.toStable r).plain, fun _ _ _ _ => trivial⟩
  obtain ⟨items, hitems⟩ := Reading.exists_says hw.treads hask nowhere op
  exact plain_of_says (hitems () trivial)

theorem plain_perform (hw : KeepsPlain p w) (r : Request) : Plain p (r.perform w) := by
  have hπ := hw.toStable
  cases r with
  | operation op => exact plain_operation hw op
  | package name => exact plain_forget (asks_packageLabel name).plain
  | modifier name => exact plain_forget (asks_modifierLabel name).plain
  | classType id arguments nullable =>
    exact plain_forget (asks_classType hπ id arguments nullable).plain
  | parent owner => exact plain_forget (hw.asksParent owner).plain
  | value id => exact plain_forget (aside_value hπ id).plain
  | place span => exact plain_forget (scripted_location span).plain
  | wholeFile => exact plain_forget scripted_wholeFile
  | noPlace => exact plain_forget scripted_unknownLocation.plain

theorem plain_run (typeFuel walkFuel : Nat) (requests : List Request) :
    Plain p (run (walk (projection typeFuel) walkFuel) requests) :=
  scripted_forM fun r => plain_perform (keepsPlain_walk p typeFuel walkFuel) r

theorem leaves_of_plain {path : String} {e : Event} (h : Event.Plain p e) :
    Event.Leaves (p.FileKey path) e := by
  cases e with
  | fact f => exact h
  | lookup key asker =>
    exact h.imp_right fun ⟨text, hplace, hkey⟩ => ⟨text, Or.inr hplace, hkey⟩
  | _ => trivial

/-- The store of a new writer: only the file at its path has got its labels. -/
theorem script_ofPath {path : String} {lines : Option LineTable} {w : Trap.Writer} {s : Session}
    (hs : s.file = .ofPath w path lines) :
    ∃ es, Script (Event.Leaves (p.FileKey path))
        { s with file := { writer := w, target := { path, label := .placeholder, lines } } } es ∧
      Event.run es
        { s with file := { writer := w, target := { path, label := .placeholder, lines } } } =
          s := by
  let start : Session :=
    { s with file := { writer := w, target := { path, label := .placeholder, lines } } }
  obtain ⟨label, t, hfile⟩ : ∃ label t, Ends p start (onWriter (·.fileLabel path true)) label t :=
    ⟨_, _, ends_onWriter.mpr ⟨rfl, rfl⟩⟩
  have hscript : Scripted (Event.Leaves (p.FileKey path)) p (onWriter (·.fileLabel path true)) :=
    scripted_fileLabel true (fun f hf => leaves_of_plain (aside_fileFact f hf).plain)
      fun key hkey => Or.inr ⟨path, Or.inl rfl, hkey⟩
  obtain ⟨es, hes, hrun⟩ := hscript.runs hfile
  have htarget : Script (Event.Leaves (p.FileKey path)) (Event.run es start)
      [.target { path, label, lines }] := script_single trivial
  refine ⟨_, hes.append htarget, ?_⟩
  rw [Event.run_append, hrun]
  obtain ⟨rfl, rfl⟩ := ends_onWriter.mp hfile
  obtain ⟨file, _⟩ := s
  obtain rfl := hs
  rfl

/-- What does not introduce keys by itself leaves a new store with one introduction of each. -/
theorem introducedOnce_of_plain {path : String} {lines : Option LineTable} {sink : Trap.Sink}
    (hsink : sink.NeverRefuses) (hnew : sink.taken = [])
    {s s' : Session} (hs : s.file = .ofPath (.ofSink sink) path lines) {α : Type} {m : Extract α}
    {r : α} (hm : Plain p m) (h : Ends p s m r s') :
    Trap.IntroducedOnce (p.FileKey path) s'.table s'.file.writer.sink.lines := by
  obtain ⟨es, hes, hstart⟩ := script_ofPath (p := p) hs
  obtain ⟨fs, hfs, rfl⟩ := hm.runs h
  have hall := hes.append (hstart ▸ hfs.mono fun _ he => leaves_of_plain he)
  let start : Session :=
    { s with file := { writer := .ofSink sink, target := { path, label := .placeholder, lines } } }
  have hempty : start.Introduces (p.FileKey path) [] :=
    ⟨LabelTable.faithful_empty, fun _ _ _ h => (nomatch h), fun _ h => (nomatch h)⟩
  have hend := hempty.run hall
  have hwrote := Event.run_wrote (es ++ fs) start
  rw [Event.run_append, hstart] at hend hwrote
  rw [(hwrote.lines hsink rfl hnew).1]
  exact hend.introducedOnce

/-- Whatever is asked of a new store, every package, modifier, type, wildcard,
bound and place in it is introduced by one fact, and nothing else is. -/
theorem run_introducedOnce {path : String} {lines : Option LineTable} {sink : Trap.Sink}
    (hsink : sink.NeverRefuses) (hnew : sink.taken = []) (typeFuel walkFuel : Nat)
    (requests : List Request) {s s' : Session} (hs : s.file = .ofPath (.ofSink sink) path lines)
    (h : Ends p s (run (walk (projection typeFuel) walkFuel) requests) () s') :
    Trap.IntroducedOnce (p.FileKey path) s'.table s'.file.writer.sink.lines :=
  introducedOnce_of_plain hsink hnew hs (plain_run typeFuel walkFuel requests) h

def shelf : Program :=
  { files := #[]
    declarations :=
      #[{ parent := .package "lib", origin := .externalStub, kind := .class { name := "Box" } },
        { parent := .package "kotlin", origin := .externalStub
          kind := .class { name := "Array" } }]
    classIndex := [("lib.Box", ⟨0⟩), ("kotlin.Array", ⟨1⟩)] }

theorem run_introducedOnce_shelf : ∃ s',
    let boxes : IrType := .ofClass ⟨1⟩ [.projection .covariant (.ofClass ⟨0⟩ [])]
    let w := walk (projection 9) 9
    Ends shelf { file := .source (.ofSink .unbounded) "a.kt" .single, counter := {}, queue := {} }
      (run w [.modifier "final", .operation (.refer (.type boxes)), .package "lib"]) () s' ∧
    Trap.IntroducedOnce (shelf.FileKey "a.kt") s'.table s'.file.writer.sink.lines := by
  obtain ⟨_, s', h⟩ := ends_of_isOk (p := shelf)
    (s := { file := .source (.ofSink .unbounded) "a.kt" .single, counter := {}, queue := {} })
    (m := run (walk (projection 9) 9) [.modifier "final",
      .operation (.refer (.type (.ofClass ⟨1⟩ [.projection .covariant (.ofClass ⟨0⟩ [])]))),
      .package "lib"]) (by decide +kernel)
  exact ⟨s', h, run_introducedOnce (fun _ _ => rfl) rfl 9 9 _ rfl h⟩

end Request

end IrFacts
