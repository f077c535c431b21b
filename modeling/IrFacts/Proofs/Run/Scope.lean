import IrFacts.Proofs.Run.Action
import IrFacts.Types.ShortName

/-!
# Scopes

A scope says which labels an extraction may mention, with which characters it
may spell keys, and which relations it may write. Labels that were handed out
since `base` may be mentioned always, and the placeholder as soon as so many
errors were counted. An action keeps to a scope when every completed run of it
is a list of events that the scope admits, and then what it returns may be
mentioned too.

The narrow scopes give the properties of labels and rows, the widest one gives
the events without any condition.
-/

set_option autoImplicit false

namespace IrFacts

namespace Trap

/-- The relations that tell of code: rows, and what belongs to one row. -/
def codeRelations : List String :=
  ["stmts", "exprs", "exprsKotlinType", "callableEnclosingExpr", "callableBinding",
    "variableBinding", "localvars", "namestrings", "ktBreakContinueTargets", "when_if",
    "when_branch", "when_branch_else"]

end Trap

structure Scope where
  /-- What may be mentioned anyway, when so many errors were counted. -/
  given : Nat → Label → Prop
  base : Nat
  /-- From so many errors on the placeholder may be mentioned. -/
  errors : Nat
  /-- What may stand in a key outside of the labels embedded in it. -/
  letter : Char → Prop
  relation : String → Prop
  given_mono : ∀ m n l, m ≤ n → given m l → given n l
  given_placeholder : ∀ n, errors ≤ n → given n .placeholder
  letter_of_ne : ∀ c, c ≠ '\x7b' → letter c
  relation_of_notMem : ∀ r, r ∉ Trap.codeRelations → relation r

/-- Nothing that was handed out or counted is taken back. -/
structure Session.Before (s t : Session) : Prop where
  next : s.table.next ≤ t.table.next
  errors : s.counter.errors ≤ t.counter.errors

theorem Session.Before.trans {s t u : Session} (h : s.Before t) (k : t.Before u) : s.Before u :=
  ⟨Nat.le_trans h.next k.next, Nat.le_trans h.errors k.errors⟩

theorem Event.step_before (e : Event) (s : Session) : s.Before (e.step s) :=
  ⟨Event.run_table_next [e] s, Event.step_errors e s⟩

theorem Event.run_before (es : List Event) (s : Session) : s.Before (Event.run es s) :=
  ⟨Event.run_table_next es s, Event.run_errors es s⟩

namespace Scope

variable (σ : Scope)

def Letters (text : String) : Prop := ∀ c ∈ text.toList, σ.letter c

def Knows (s : Session) (l : Label) : Prop :=
  σ.given s.counter.errors l ∨ ∃ n, l = .number n ∧ σ.base ≤ n ∧ n < s.table.next

/-- A text made of letters and embedded labels. -/
inductive Spelled (s : Session) : List Char → Prop where
  | nil : Spelled s []
  | letter {c : Char} {cs : List Char} : σ.letter c → Spelled s cs → Spelled s (c :: cs)
  | label {l : Label} {cs : List Char} :
      σ.Knows s l → Spelled s cs → Spelled s (l.braced.toList ++ cs)

def Spells (s : Session) (text : String) : Prop := σ.Spelled s text.toList

@[reducible]
def KnowsAll (s : Session) : List Trap.Arg → Prop
  | [] => True
  | .label l :: args => σ.Knows s l ∧ KnowsAll s args
  | .text _ :: args => KnowsAll s args
  | .int _ :: args => KnowsAll s args
  | .float _ :: args => KnowsAll s args

/-- Whether an event mentions only what may be mentioned. -/
def Admits (s : Session) : Event → Prop
  | .fact f => σ.relation f.relation ∧ σ.KnowsAll s f.args
  | .lookup key _ => σ.Spells s key
  | .report _ location => σ.Knows s location
  | .target t => σ.Knows s t.label
  | .named id label => σ.Knows s label ∧ s.locals.lookup id = none
  | .enter _ label => σ.Knows s label
  | _ => True

def AdmitsAll : Session → List Event → Prop
  | _, [] => True
  | s, e :: es => σ.Admits s e ∧ AdmitsAll (e.step s) es

theorem admitsAll_append (s : Session) (es fs : List Event) :
    σ.AdmitsAll s (es ++ fs) ↔ σ.AdmitsAll s es ∧ σ.AdmitsAll (Event.run es s) fs := by
  induction es generalizing s with
  | nil => simp [AdmitsAll, Event.run]
  | cons e es ih => simp [AdmitsAll, Event.run, ih, and_assoc]

/-- Everything that a session remembers may be mentioned. -/
structure Sound (s : Session) : Prop where
  base : σ.base ≤ s.table.next
  errors : σ.errors ≤ s.counter.errors + 1
  bound : ∀ e ∈ s.table.bound, σ.Knows s e.2
  target : σ.Knows s s.file.target.label
  locals : ∀ e ∈ s.locals, σ.Knows s e.2
  loops : ∀ e ∈ s.openLoops, σ.Knows s e.2

variable {σ} {p : Program} {s t u : Session}

theorem Knows.later {l : Label} (h : σ.Knows s l) (hst : s.Before t) : σ.Knows t l := by
  rcases h with h | ⟨n, hl, hb, hn⟩
  · exact Or.inl (σ.given_mono _ _ l hst.errors h)
  · exact Or.inr ⟨n, hl, hb, Nat.lt_of_lt_of_le hn hst.next⟩

theorem knows_placeholder (h : σ.errors ≤ s.counter.errors) : σ.Knows s .placeholder :=
  Or.inl (σ.given_placeholder _ h)

theorem KnowsAll.of_mem {args : List Trap.Arg} (h : σ.KnowsAll s args) {l : Label}
    (hl : .label l ∈ args) : σ.Knows s l := by
  induction args with
  | nil => cases hl
  | cons a args ih =>
    cases a with
    | label m =>
      rcases List.mem_cons.mp hl with he | hl
      · cases he
        exact h.1
      · exact ih h.2 hl
    | _ =>
      rcases List.mem_cons.mp hl with he | hl
      · cases he
      · exact ih h hl

/-! ## Spelling -/

/-- A text without an opening brace may stand in every key. -/
theorem letters_of_plain {a : String} (h : '\x7b' ∉ a.toList) : σ.Letters a :=
  fun c hc => σ.letter_of_ne c fun he => h (he ▸ hc)

theorem Letters.append {a b : String} (h : σ.Letters a) (k : σ.Letters b) :
    σ.Letters (a ++ b) := by
  intro c hc
  rw [String.toList_append] at hc
  rcases List.mem_append.mp hc with hc | hc
  · exact h c hc
  · exact k c hc

theorem Spelled.later {cs : List Char} (h : σ.Spelled s cs) (hst : s.Before t) :
    σ.Spelled t cs := by
  induction h with
  | nil => exact .nil
  | letter hc _ ih => exact .letter hc ih
  | label hl _ ih => exact .label (hl.later hst) ih

theorem Spelled.append {cs ds : List Char} (h : σ.Spelled s cs) (k : σ.Spelled s ds) :
    σ.Spelled s (cs ++ ds) := by
  induction h with
  | nil => exact k
  | letter hc _ ih => exact .letter hc ih
  | label hl _ ih =>
    rw [List.append_assoc]
    exact .label hl ih

theorem Letters.spells {a : String} (h : σ.Letters a) : σ.Spells s a := by
  suffices hs : ∀ cs : List Char, (∀ c ∈ cs, σ.letter c) → σ.Spelled s cs from hs _ h
  intro cs hcs
  induction cs with
  | nil => exact .nil
  | cons c cs ih => exact .letter (hcs c (by simp)) (ih fun d hd => hcs d (by simp [hd]))

theorem Spells.append {a b : String} (h : σ.Spells s a) (k : σ.Spells s b) :
    σ.Spells s (a ++ b) := by
  unfold Spells
  rw [String.toList_append]
  exact Spelled.append h k

theorem spells_braced {l : Label} (h : σ.Knows s l) : σ.Spells s l.braced := by
  have := Spelled.label h Spelled.nil
  rwa [List.append_nil] at this

theorem spells_of_plain {a : String} (h : '\x7b' ∉ a.toList) : σ.Spells s a :=
  (letters_of_plain h).spells

/-! ## What admitted events keep -/

theorem step_sound {e : Event} (h : σ.Sound s) (he : σ.Admits s e) : σ.Sound (e.step s) := by
  have hstep := Event.step_before e s
  have keep {l : Label} (hl : σ.Knows s l) : σ.Knows (e.step s) l := hl.later hstep
  have hbase : σ.base ≤ (e.step s).table.next := Nat.le_trans h.base hstep.next
  have herrors : σ.errors ≤ (e.step s).counter.errors + 1 :=
    Nat.le_trans h.errors (Nat.succ_le_succ hstep.errors)
  have hbound : ∀ b ∈ (e.step s).table.bound, σ.Knows (e.step s) b.2 := by
    intro b hb
    rw [Event.step_table] at hb
    cases e with
    | lookup key asker =>
      rw [Event.onTable, LabelTable.lookup] at hb
      cases hk : s.table.find? key with
      | some l =>
        rw [hk] at hb
        exact keep (h.bound b hb)
      | none =>
        rw [hk] at hb
        rcases List.mem_cons.mp hb with rfl | hb
        · refine Or.inr ⟨s.table.next, rfl, h.base, ?_⟩
          rw [Event.step_table, Event.onTable, LabelTable.lookup, hk]
          exact Nat.lt_succ_self _
        · exact keep (h.bound b hb)
    | _ => exact keep (h.bound b hb)
  cases e with
  | target t => exact ⟨hbase, herrors, hbound, keep he, h.locals, h.loops⟩
  | named id label =>
    refine ⟨hbase, herrors, hbound, h.target, ?_, h.loops⟩
    intro b hb
    rcases List.mem_cons.mp hb with rfl | hb
    · exact he.1
    · exact h.locals b hb
  | enter id label =>
    refine ⟨hbase, herrors, hbound, h.target, h.locals, ?_⟩
    intro b hb
    rcases List.mem_cons.mp hb with rfl | hb
    · exact he
    · exact h.loops b (List.mem_filter.mp hb).1
  | leave id =>
    exact ⟨hbase, herrors, hbound, h.target, h.locals,
      fun b hb => h.loops b (List.mem_filter.mp hb).1⟩
  | _ =>
    exact ⟨hbase, herrors, hbound, keep h.target, fun b hb => keep (h.locals b hb),
      fun b hb => keep (h.loops b hb)⟩

theorem run_sound {es : List Event} (h : σ.Sound s) (hes : σ.AdmitsAll s es) :
    σ.Sound (Event.run es s) := by
  induction es generalizing s with
  | nil => exact h
  | cons e es ih => exact ih (step_sound h hes.1) hes.2

end Scope

/-! ## Who asked for a key first -/

/-- A key that got its label, and the class that it was asked for. -/
structure Binding where
  key : String
  asker : Option DeclId

/-- Whether a class is scheduled when a key gets its label. -/
def Program.Introduces (p : Program) (b : Binding) (id : DeclId) : Prop :=
  ∃ asker, b.asker = some asker ∧ p.isExternal id = true ∧
    (id = asker ∨ p.hostClass? asker = some id)

/-- The name of a class with arguments, which stand behind it by their labels. -/
def Program.instanceText (p : Program) (id : DeclId) (arguments : List Label) : String :=
  arguments.foldl (fun text l => text ++ ";" ++ l.braced) ((p.binaryName? id).getD id.render)

/-- The keys under which a class is projected, with whatever arguments. -/
def Program.ClassKey (p : Program) (id : DeclId) (key : String) : Prop :=
  ∃ arguments, key = "class;" ++ p.instanceText (p.onHost id) arguments

/-- The class that an external member belongs to, looked for as far as `steps` goes. -/
def Program.ownerWithin (p : Program) : Nat → DeclId → Option DeclId
  | 0, _ => none
  | steps + 1, id =>
    match p.parent? id with
    | some (.decl parent) =>
      if p.isClass parent then some parent
      else if p.isFunction parent then p.ownerWithin steps parent
      else none
    | _ => none

def Program.owner? (p : Program) (id : DeclId) : Option DeclId := p.ownerWithin p.walkLimit id

namespace Event

def binding? : Event → Session → Option Binding
  | .lookup key asker, s => if (s.table.find? key).isSome then none else some ⟨key, asker⟩
  | _, _ => none

/-- The keys that get their labels in a run, in order. -/
def bindings : List Event → Session → List Binding
  | [], _ => []
  | e :: es, s => (e.binding? s).toList ++ bindings es (e.step s)

theorem bindings_append (es fs : List Event) (s : Session) :
    bindings (es ++ fs) s = bindings es s ++ bindings fs (run es s) := by
  induction es generalizing s with
  | nil => rfl
  | cons e es ih => simp [bindings, run, ih]

/-- Classes are scheduled for two reasons only: a key was asked for first to
project the class, or an external function of the class was used. -/
structure Accounted (p : Program) (s : Session) (es : List Event) : Prop where
  asked : ∀ key id, .lookup key (some id) ∈ es → p.ClassKey id key
  introduced : ∀ id, .schedule id none ∈ es ↔ ∃ b ∈ bindings es s, p.Introduces b id
  owner : ∀ id f, .schedule id (some f) ∈ es → p.isExternal f = true ∧ p.owner? f = some id

theorem Accounted.append {p : Program} {s : Session} {es fs : List Event}
    (h : Accounted p s es) (k : Accounted p (run es s) fs) : Accounted p s (es ++ fs) := by
  constructor
  · intro key id hm
    rcases List.mem_append.mp hm with hm | hm
    · exact h.asked key id hm
    · exact k.asked key id hm
  · intro id
    simp only [List.mem_append, bindings_append, h.introduced, k.introduced]
    constructor
    · rintro (⟨b, hb, hi⟩ | ⟨b, hb, hi⟩)
      · exact ⟨b, Or.inl hb, hi⟩
      · exact ⟨b, Or.inr hb, hi⟩
    · rintro ⟨b, hb | hb, hi⟩
      · exact Or.inl ⟨b, hb, hi⟩
      · exact Or.inr ⟨b, hb, hi⟩
  · intro id f hm
    rcases List.mem_append.mp hm with hm | hm
    · exact h.owner id f hm
    · exact k.owner id f hm

theorem accounted_nil (p : Program) (s : Session) : Accounted p s [] :=
  ⟨by simp, by simp [bindings], by simp⟩

theorem accounted_single {p : Program} {s : Session} {e : Event}
    (hs : ∀ id f, e ≠ .schedule id f) (ha : ∀ key id, e ≠ .lookup key (some id)) :
    Accounted p s [e] := by
  constructor
  · intro key id h
    exact absurd (List.mem_singleton.mp h).symm (ha key id)
  · intro id
    constructor
    · intro h
      exact absurd (List.mem_singleton.mp h).symm (hs id none)
    · rintro ⟨b, hb, asker, hb', -⟩
      cases e with
      | lookup key a =>
        simp only [bindings, binding?, List.append_nil, Option.mem_toList] at hb
        split at hb
        · cases hb
        · cases hb
          cases hb'
          exact absurd rfl (ha key asker)
      | _ => simp [bindings, binding?] at hb
  · intro id f h
    exact absurd (List.mem_singleton.mp h).symm (hs id (some f))

end Event

/-! ## Actions that keep to a scope -/

namespace Scope

variable (σ : Scope) (p : Program)

def Trace (s : Session) (es : List Event) (s' : Session) : Prop :=
  σ.AdmitsAll s es ∧ Event.Accounted p s es ∧ Event.run es s = s'

def Leads (s s' : Session) : Prop :=
  (∃ es, σ.Trace p s es s') ∧ s'.file.target = s.file.target

/-- Every completed run of the action keeps to the scope, and `Q` holds after it. -/
def Does {α : Type} (s : Session) (m : Extract α) (Q : α → Session → Prop) : Prop :=
  σ.Sound s → ∀ a s', Extract.Ends p s m a s' → σ.Leads p s s' ∧ Q a s'

variable {σ p} {s t u : Session} {α β : Type}

theorem Trace.nil : σ.Trace p s [] s := ⟨trivial, Event.accounted_nil p s, rfl⟩

theorem Trace.append {es fs : List Event} (h : σ.Trace p s es t) (k : σ.Trace p t fs u) :
    σ.Trace p s (es ++ fs) u := by
  obtain ⟨ha, hc, rfl⟩ := h
  obtain ⟨ka, kc, rfl⟩ := k
  exact ⟨(σ.admitsAll_append s es fs).mpr ⟨ha, ka⟩, hc.append kc, Event.run_append es fs s⟩

theorem trace_single {e : Event} (h : σ.Admits s e) (hs : ∀ id f, e ≠ .schedule id f)
    (ha : ∀ key id, e ≠ .lookup key (some id)) : σ.Trace p s [e] (e.step s) :=
  ⟨⟨h, trivial⟩, Event.accounted_single hs ha, rfl⟩

theorem Trace.before {es : List Event} (h : σ.Trace p s es t) : s.Before t := by
  obtain ⟨-, -, rfl⟩ := h
  exact Event.run_before es s

theorem Trace.sound {es : List Event} (h : σ.Trace p s es t) (hs : σ.Sound s) : σ.Sound t := by
  obtain ⟨ha, -, rfl⟩ := h
  exact run_sound hs ha

theorem Leads.refl : σ.Leads p s s := ⟨⟨[], .nil⟩, rfl⟩

theorem Leads.trans (h : σ.Leads p s t) (k : σ.Leads p t u) : σ.Leads p s u := by
  obtain ⟨⟨es, h⟩, ht⟩ := h
  obtain ⟨⟨fs, k⟩, kt⟩ := k
  exact ⟨⟨es ++ fs, h.append k⟩, kt.trans ht⟩

theorem Leads.before (h : σ.Leads p s t) : s.Before t := by
  obtain ⟨⟨es, h⟩, -⟩ := h
  exact h.before

theorem Leads.sound (h : σ.Leads p s t) (hs : σ.Sound s) : σ.Sound t := by
  obtain ⟨⟨es, h⟩, -⟩ := h
  exact h.sound hs

@[grind →]
theorem Leads.knows {l : Label} (h : σ.Leads p s t) (hl : σ.Knows s l) : σ.Knows t l :=
  hl.later h.before

@[grind →]
theorem Leads.spells {a : String} (h : σ.Leads p s t) (ha : σ.Spells s a) : σ.Spells t a :=
  Spelled.later ha h.before

theorem does_pure {a : α} {Q : α → Session → Prop} (h : Q a s) : σ.Does p s (pure a) Q := by
  intro _ b s' he
  obtain ⟨rfl, rfl⟩ := Extract.ends_pure.mp he
  exact ⟨.refl, h⟩

theorem does_bind {m : Extract α} {f : α → Extract β} {Q : α → Session → Prop}
    {R : β → Session → Prop} (hm : σ.Does p s m Q)
    (hf : ∀ a t, σ.Leads p s t → Q a t → σ.Does p t (f a) R) : σ.Does p s (m >>= f) R := by
  intro hs b s' he
  obtain ⟨a, t, ha, hb⟩ := Extract.ends_bind.mp he
  obtain ⟨hst, hq⟩ := hm hs a t ha
  obtain ⟨hts, hr⟩ := hf a t hst hq (hst.sound hs) b s' hb
  exact ⟨hst.trans hts, hr⟩

theorem does_read {f : Program → Extract β} {R : β → Session → Prop}
    (h : σ.Does p s (f p) R) : σ.Does p s (read >>= f) R := by
  intro hs b s' he
  exact h hs b s' (Extract.ends_read_bind.mp he)

theorem does_get {f : Session → Extract β} {R : β → Session → Prop}
    (h : σ.Sound s → σ.Does p s (f s) R) : σ.Does p s (get >>= f) R := by
  intro hs b s' he
  exact h hs hs b s' (Extract.ends_get_bind.mp he)

theorem Does.imp {m : Extract α} {Q R : α → Session → Prop} (h : σ.Does p s m Q)
    (hi : ∀ a t, σ.Leads p s t → Q a t → R a t) : σ.Does p s m R := by
  intro hs a s' he
  obtain ⟨hst, hq⟩ := h hs a s' he
  exact ⟨hst, hi a s' hst hq⟩

abbrev Any {α : Type} : α → Session → Prop := fun _ _ => True

theorem Does.and {m : Extract α} {Q R : α → Session → Prop} (h : σ.Does p s m Q)
    (k : σ.Does p s m R) : σ.Does p s m fun a t => Q a t ∧ R a t :=
  fun hs a s' he => ⟨(h hs a s' he).1, (h hs a s' he).2, (k hs a s' he).2⟩

theorem does_forM {as : List α} {f : α → Extract PUnit}
    (h : ∀ a ∈ as, ∀ t, σ.Leads p s t → σ.Does p t (f a) Any) : σ.Does p s (as.forM f) Any := by
  induction as generalizing s with
  | nil => exact does_pure trivial
  | cons a as ih =>
    apply does_bind (h a (by simp) s .refl)
    intro _ t hst _
    exact ih fun b hb u htu => h b (by simp [hb]) u (hst.trans htu)

theorem does_throw {e : Stop} {Q : α → Session → Prop} : σ.Does p s (throw e) Q := by
  intro _ a s' he
  exact absurd he Extract.ends_throw

end Scope

end IrFacts
