import IrFacts.Proofs.Code.Owed
import IrFacts.Proofs.Run.AccountedCode
import IrFacts.Proofs.Run.Sink
import Mathlib.Algebra.BigOperators.Group.Finset.Piecewise

/-!
# Declarations are extracted once each

The rows of declarations in a trap are counted. An extraction writes each row
where its walk passes it; the only other rows of this kind are the members of
arrays, which are written when the label of an array is made. So there are as
many rows as the declarations that are reached are owed, and the members of the
arrays besides.
-/

set_option autoImplicit false

namespace IrFacts

namespace Trap

/-- The keys of arrays, which begin and end like no other keys. -/
def isArrayKey (key : String) : Bool :=
  "array;".toList.isPrefixOf key.toList && key.toList.getLast? == some '\x7d'

def Line.definesArray : Line → Bool
  | .define _ key => isArrayKey key
  | _ => false

def Line.isFactOf (r : String) : Line → Bool
  | .fact f => f.relation = r
  | _ => false

def arrayMembers (r : String) : Nat := if r = "methods" ∨ r = "fields" then 1 else 0

/-- The rows of a relation that are not those of arrays. -/
def ownRows (r : String) (lines : List Line) : Int :=
  lines.countP (·.isFactOf r) - arrayMembers r * lines.countP (·.definesArray)

theorem ownRows_append (r : String) (lines more : List Line) :
    ownRows r (lines ++ more) = ownRows r lines + ownRows r more := by
  simp only [ownRows, List.countP_append, Int.natCast_add, Int.mul_add]
  omega

theorem ownRows_fact (r : String) (f : Fact) :
    ownRows r [.fact f] = if f.relation = r then 1 else 0 := by
  simp only [ownRows, List.countP_cons, List.countP_nil, Line.isFactOf, Line.definesArray]
  split <;> simp_all

theorem ownRows_define (r : String) (l : Label) {key : String} (h : isArrayKey key = true) :
    ownRows r [.define l key] = -arrayMembers r := by
  simp [ownRows, Line.isFactOf, Line.definesArray, h]

theorem rowRelations_apart :
    ∀ r ∈ rowRelations, r ∉ ["typeArgs", "isParameterized", "erasure"] := by
  decide

theorem rowRelations_counted : ∀ r ∈ rowRelations, r ∈ countedRelations := by decide

theorem isArrayKey_array (levels : Nat) (element : Label) :
    isArrayKey ("array;" ++ toString levels ++ ";" ++ element.braced) = true := by
  simp only [isArrayKey, Bool.and_eq_true, List.isPrefixOf_iff_prefix, beq_iff_eq,
    String.toList_append, Label.braced, List.append_assoc]
  refine ⟨List.prefix_append _ _, ?_⟩
  simp only [← List.append_assoc]
  exact List.getLast?_concat

theorem isArrayKey_class (text : String) : isArrayKey ("class;" ++ text) = false := by
  rw [isArrayKey, Bool.and_eq_false_iff]
  left
  refine Bool.eq_false_iff.mpr fun h => ?_
  rw [List.isPrefixOf_iff_prefix, String.toList_append] at h
  have hletters := List.prefix_of_prefix_length_le h (List.prefix_append _ _) (by decide)
  exact absurd hletters (by decide)

end Trap

open Trap Event

def Account.rows (p : Program) : Account p where
  kept key := isArrayKey key = true
  hidden _ := False
  grave _ := False
  Holds s es ms := ∀ r ∈ rowRelations, ownRows r (Event.linesOf es s) = ms.countP (Mark.isRow r)
  hidden_kept := nofun
  kept_start key h := by
    simp only [isArrayKey, Bool.and_eq_true, List.isPrefixOf_iff_prefix] at h
    exact .inr h.1
  kept_end key h := by
    simp only [isArrayKey, Bool.and_eq_true, beq_iff_eq] at h
    exact h.2
  kept_class id h := absurd (isArrayKey_class _) (Bool.not_eq_false _ ▸ h)
  kept_file file entry _ h := absurd (isArrayKey_class _) (Bool.not_eq_false _ ▸ h)
  grave_missing := missing_of_none
  nil s r _ := rfl
  append h k r hr := by
    rw [Event.linesOf_append, ownRows_append, h r hr, k r hr, List.countP_append, Int.natCast_add]
  fact {s f} hf _ r hr := by
    have hne : f.relation ≠ r := by
      rintro rfl
      exact hf (rowRelations_counted _ hr)
    simp [Event.linesOf, Event.lines, ownRows_fact, hne]
  lookup {s key} hkey r _ := by
    simp only [Event.linesOf, Event.lines]
    split
    · rfl
    · simp [ownRows, Line.isFactOf, Line.definesArray, hkey]
  report {s problem place} _ r hr := by
    have hother : "diagnostics" ≠ r := by
      rintro rfl
      exact absurd hr (by decide)
    simp only [Event.linesOf, Event.lines, List.append_nil, diagnostic]
    split
    · rfl
    · exact (ownRows_fact r _).trans (if_neg hother)
    · exact (ownRows_fact r _).trans (if_neg hother)
  other {s e} hfact hlookup hreport r _ := by
    cases e with
    | fact f => exact absurd rfl (hfact f)
    | lookup key asker => exact absurd rfl (hlookup key asker)
    | report problem place => exact absurd rfl (hreport problem place)
    | _ => simp [Event.linesOf, Event.lines, ownRows, Line.isFactOf, Line.definesArray]
  row {s f} _ r _ := by
    simp only [Event.linesOf, Event.lines, List.append_nil, ownRows_fact, Mark.isRow,
      List.countP_singleton, decide_eq_true_eq]
    split <;> rfl
  reach _ _ _ _ := rfl
  mention _ _ _ _ _ := rfl
  borrow _ _ _ _ := rfl

namespace Account

open Extract

variable {p : Program} {s t u : Session} {α β : Type} {π : Projection}

/-- Between the sessions so many rows were written, besides those of arrays. -/
structure Gains (p : Program) (s : Session) (n : String → Int) (t : Session) : Prop where
  written : ∃ es, Event.run es s = t ∧ ∀ r ∈ rowRelations, ownRows r (Event.linesOf es s) = n r
  tidy : t.Tidy (rows p).hidden
  function : t.currentFunction = s.currentFunction

/-- The rows that an action writes whenever it ends. -/
def Yields (p : Program) (s : Session) (m : Extract α) (n : String → Int) : Prop :=
  s.Tidy (rows p).hidden → ∀ r t, Ends p s m r t → Gains p s n t

theorem Gains.trans {n k : String → Int} (h : Gains p s n t) (hk : Gains p t k u) :
    Gains p s (fun r => n r + k r) u := by
  obtain ⟨⟨es, rfl, hes⟩, -, hf⟩ := h
  obtain ⟨⟨fs, rfl, hfs⟩, htidy, kf⟩ := hk
  refine ⟨⟨es ++ fs, run_append es fs s, fun r hr => ?_⟩, htidy, kf.trans hf⟩
  rw [Event.linesOf_append, ownRows_append, hes r hr, hfs r hr]

theorem Gains.passes (h : Gains p s (fun _ => 0) t) : (rows p).Passes s [] t := by
  obtain ⟨es, hrun, hes⟩ := h.written
  exact ⟨⟨es, [], hrun, .nil, hes⟩, h.tidy, h.function⟩

theorem Passes.gains (h : (rows p).Passes s [] t) : Gains p s (fun _ => 0) t := by
  obtain ⟨⟨es, ms, hrun, hms, hes⟩, htidy, hf⟩ := h
  cases hms
  exact ⟨⟨es, hrun, hes⟩, htidy, hf⟩

theorem yields_of_quiet {m : Extract α} {Q : α → Session → Prop} (h : (rows p).Quiet s m Q) :
    Yields p s m fun _ => 0 := fun hs r t he => (h hs r t he).1.gains

theorem yields_bind {m : Extract α} {f : α → Extract β} {n k : String → Int}
    (hm : Yields p s m n) (hf : ∀ r t, Gains p s n t → Yields p t (f r) k) :
    Yields p s (m >>= f) fun r => n r + k r := by
  intro hs b u he
  obtain ⟨r, t, hr, hb⟩ := ends_bind.mp he
  have h := hm hs r t hr
  exact h.trans (hf r t h h.tidy b u hb)

theorem yields_quiet_bind {m : Extract α} {f : α → Extract β} {k : String → Int}
    {Q : α → Session → Prop} (hm : (rows p).Quiet s m Q)
    (hf : ∀ r t, (rows p).Passes s [] t → Yields p t (f r) k) : Yields p s (m >>= f) k := by
  have h := yields_bind (k := k) (yields_of_quiet hm) fun r t ht => hf r t ht.passes
  simpa only [Int.zero_add] using h

theorem yields_write {q : String} {args : List Arg} :
    Yields p s (write ⟨q, args⟩) fun r => if q = r then 1 else 0 := by
  intro hs u t he
  rw [ends_write.mp he]
  exact ⟨⟨[.fact ⟨q, args⟩], rfl, fun r _ => by simp [Event.linesOf, Event.lines, ownRows_fact]⟩,
    hs.step nofun nofun, rfl⟩

theorem arrayMembers_eq (r : String) : ((if "fields" = r then 1 else 0) : Int) +
    (if "methods" = r then 1 else 0) = arrayMembers r := by
  unfold arrayMembers
  by_cases hfields : "fields" = r
  · subst hfields
    decide
  · by_cases hmethods : "methods" = r
    · subst hmethods
      decide
    · simp [hfields, hmethods, Ne.symm hfields, Ne.symm hmethods]

theorem yields_extractArray (hπ : (rows p).Keeps (.whole p) π) (array : SimpleType) (name : String)
    (levels : Nat) (element component : Label) {label : Label} (hl : (rows p).Told label s) :
    Yields p s (π.extractArray array name levels element component label)
      fun r => arrayMembers r := by
  have members (t : Session) : Yields p t (do
      let length ← labelFor ("field;" ++ label.braced ++ ";length")
      let int ← π.type true (p.builtinType "Int")
      write (.fields length "length" int.host.label int.rich.label label length)
      let result ← π.type true (IrType.simple (p.cloneType array)).makeNullable
      let clone ← labelFor ("callable;" ++ label.braced ++ ".clone()" ++ label.braced)
      write (.methods clone "clone" "clone()" label result.rich.label label clone))
      fun r => arrayMembers r := by
    simp only [String.append_assoc, ← arrayMembers_eq]
    refine yields_quiet_bind (quiet_labelFor (not_kept _ (by decide) _)) fun _ _ _ => ?_
    refine yields_quiet_bind (hπ.type trivial _ _) fun int _ _ => ?_
    refine yields_bind yields_write fun _ _ _ => ?_
    refine yields_quiet_bind (hπ.type trivial _ _) fun result _ _ => ?_
    exact yields_quiet_bind (quiet_labelFor (not_kept _ (by decide) _)) fun _ _ _ => yields_write
  intro hs u t he
  refine yields_quiet_bind (quiet_write (by decide)) (fun _ t h => ?_) hs u t (ends_read_bind.mp he)
  dsimp only
  split
  · exact yields_quiet_bind (quiet_supertypes hπ (fun _ _ _ _ => trivial) (h.told hl))
      fun _ _ _ => members _
  · exact members _

theorem quiet_rows_array (hπ : (rows p).Keeps (.whole p) π) (array : SimpleType)
    {name key : String} {levels : Nat} {element component : Label} (hkey : isArrayKey key = true) :
    (rows p).Quiet s (labelWith key (π.extractArray array name levels element component)) Any := by
  intro hs l t he
  refine ⟨?_, trivial⟩
  rcases (ends_labelWith none).mp he with ⟨-, rfl⟩ | ⟨hnew, rfl, hdefine⟩
  · exact .refl hs
  -- A new label lacks its members until its definition has written them.
  have hlabel : Gains p s (fun r => -arrayMembers r) ((Event.lookup key none).step s) := by
    refine ⟨⟨[.lookup key none], rfl, fun r _ => ?_⟩, hs.step nofun nofun, rfl⟩
    simpa [Event.linesOf, Event.lines, hnew] using ownRows_define r _ hkey
  have hl : (rows p).Told (.number s.table.next) ((Event.lookup key none).step s) := by
    intro n hn
    cases hn
    refine ⟨?_, nofun⟩
    rw [Event.step_table, Event.onTable, LabelTable.next_lookup_of_none hnew]
    exact Nat.lt_succ_self _
  have hall := hlabel.trans (yields_extractArray hπ array name levels element component hl
    hlabel.tidy () t hdefine)
  simp only [Int.add_left_neg] at hall
  exact hall.passes

theorem copes_rows (p : Program) : (rows p).Copes (.whole p) where
  classInstance hπ _ _ h s := by
    refine quiet_classInstanceStep hπ (fun text hkept => ?_) (fun {s f} hf r hr => ?_) h
    · exact absurd (isArrayKey_class text) (Bool.not_eq_false _ ▸ hkept)
    · have hne : f.relation ≠ r := by
        rintro rfl
        exact absurd hf (rowRelations_apart _ hr)
      simp [Event.linesOf, Event.lines, ownRows_fact, hne]
  array hπ array h _ _ :=
    quiet_arrayType hπ
      (fun _ levels element _ _ => quiet_rows_array hπ array (isArrayKey_array levels element)) h
  typeParameter hπ id _ s := quiet_typeParameterUse hπ (fun _ => nofun) id

/-- The account of a whole file, from the first line on. -/
theorem rows_of_extractFile {sink : Sink} {path : String} {lines : LineTable} {counter : Counter}
    {queue : ClassQueue} {dependencies : Option (List DeclId)} {typeFuel walkFuel : Nat}
    {file : FileId} {ms : List Mark} (hunfolds : Unfolds p (p.fileItems ⟨false, []⟩ file) ms)
    (hsink : sink.NeverRefuses) (hnew : sink.taken = [])
    (h : Ends p { file := .source (.ofSink sink) path lines, counter, queue, dependencies }
      ((walk (projection typeFuel) walkFuel).extractFile file) () t) {r : String}
    (hr : r ∈ rowRelations) :
    ownRows r t.file.writer.sink.lines = ms.countP (Mark.isRow r) := by
  let s : Session := { file := .source (.ofSink sink) path lines, counter, queue, dependencies }
  have hfile : s.file = .ofPath (.ofSink sink) path (some lines) := rfl
  have hfollows : (rows p).Follows (.whole p) (projection typeFuel) :=
    (keeps_projection (copes_rows p) typeFuel).follows fun _ _ _ _ => rfl
  obtain ⟨start, es, fs, hwriter, hes, hfs, hbefore, hover⟩ :=
    holds_extractFile hfollows hunfolds hfile rfl rfl h
  have hall := (rows p).append hbefore (hes.symm ▸ hover) r hr
  have hwrote := run_wrote (es ++ fs) start
  rw [run_append, hes, hfs] at hwrote
  obtain ⟨hlines, -⟩ := hwrote.lines (hwriter ▸ hsink) (hwriter ▸ rfl) (hwriter ▸ hnew)
  rw [hlines]
  exact hall

end Account

/-! ## The rows of a trap -/

namespace Program

variable (p : Program) (id : DeclId)

def isProperty : Bool := match p.kind? id with
  | some (.property _) => true
  | _ => false

def isTypeAlias : Bool := match p.kind? id with
  | some (.typeAlias _) => true
  | _ => false

def isField : Bool := match p.kind? id with
  | some (.field _) => true
  | _ => false

def isConstructor : Bool := match p.kind? id with
  | some (.function f) => f.isConstructor
  | _ => false

def isMethod : Bool := match p.kind? id with
  | some (.function f) => !f.isConstructor
  | _ => false

/-- A class whose instances are initialized here. -/
def isOwnClass : Bool := match p.kind? id with
  | some (.class _) => !p.isExternal id
  | _ => false

def isEntryOfClass : Bool := match p.kind? id with
  | some (.enumEntry _) => (p.parentClass? id).isSome
  | _ => false

def isLoneObject : Bool := match p.kind? id with
  | some (.class k) => k.isNonCompanionObject
  | _ => false

def isCompanionOfClass : Bool := match p.kind? id with
  | some (.class k) => (p.parentClass? id).isSome && k.isCompanion
  | _ => false

def parameterCount : Nat := match p.kind? id with
  | some (.function f) => (p.parametersOf f).length
  | _ => 0

/-! What a declaration is owed in each relation. -/

variable {p} {id}

theorem owed_properties : (p.owed id).count "ktProperties" = if p.isProperty id then 1 else 0 := by
  unfold owed isProperty
  rcases p.kind? id with _ | kind
  · rfl
  cases kind <;> simp only [List.map_const'] <;> grind

theorem owed_typeAliases :
    (p.owed id).count "kt_type_alias" = if p.isTypeAlias id then 1 else 0 := by
  unfold owed isTypeAlias
  rcases p.kind? id with _ | kind
  · rfl
  cases kind <;> simp only [List.map_const'] <;> grind

theorem owed_constructors : (p.owed id).count "constrs" = if p.isConstructor id then 1 else 0 := by
  unfold owed isConstructor
  rcases p.kind? id with _ | kind
  · rfl
  cases kind <;> simp only [List.map_const'] <;> grind

theorem owed_methods : (p.owed id).count "methods" =
    (if p.isMethod id then 1 else 0) + if p.isOwnClass id then 1 else 0 := by
  unfold owed isMethod isOwnClass
  rcases p.kind? id with _ | kind
  · rfl
  cases kind <;> simp only [List.map_const'] <;> grind

theorem owed_fields : (p.owed id).count "fields" = (if p.isField id then 1 else 0) +
    (if p.isEntryOfClass id then 1 else 0) + (if p.isLoneObject id then 1 else 0) +
    if p.isCompanionOfClass id then 1 else 0 := by
  unfold owed isField isEntryOfClass isLoneObject isCompanionOfClass
  rcases p.kind? id with _ | kind
  · rfl
  cases kind <;> simp only [List.map_const'] <;> grind

theorem owed_parameters : (p.owed id).count "params" = p.parameterCount id := by
  unfold owed parameterCount
  rcases p.kind? id with _ | kind
  · rfl
  cases kind <;> simp only [List.map_const'] <;> grind

end Program

namespace Trap

def rowCount (r : String) (lines : List Line) : Nat := lines.countP (·.isFactOf r)

def arrayCount (lines : List Line) : Nat := lines.countP (·.definesArray)

/-- The lines have the rows of these declarations, and of the members of arrays. -/
structure HasRowsOf (p : Program) (ids : Finset DeclId) (lines : List Line) : Prop where
  properties : rowCount "ktProperties" lines = (ids.filter (p.isProperty ·)).card
  typeAliases : rowCount "kt_type_alias" lines = (ids.filter (p.isTypeAlias ·)).card
  constructors : rowCount "constrs" lines = (ids.filter (p.isConstructor ·)).card
  methods : rowCount "methods" lines = (ids.filter (p.isMethod ·)).card +
    (ids.filter (p.isOwnClass ·)).card + arrayCount lines
  fields : rowCount "fields" lines = (ids.filter (p.isField ·)).card +
    (ids.filter (p.isEntryOfClass ·)).card + (ids.filter (p.isLoneObject ·)).card +
    (ids.filter (p.isCompanionOfClass ·)).card + arrayCount lines
  parameters : rowCount "params" lines = ∑ id ∈ ids, p.parameterCount id

end Trap

theorem sum_ite_card {ids : List DeclId} (h : ids.Nodup) (q : DeclId → Bool) :
    (ids.map fun id => if q id then 1 else 0).sum = (ids.toFinset.filter (q ·)).card := by
  rw [Finset.card_filter, List.sum_toFinset _ h]

namespace Walk

open Extract

/-- When the walk over a file reaches each declaration once at most, the trap has the rows
of the declarations that are reached, and of the members of its arrays, and no others. -/
theorem extractFile_rows {p : Program} {sink : Sink} {path : String} {lines : LineTable}
    {counter : Counter} {queue : ClassQueue} {dependencies : Option (List DeclId)}
    {typeFuel walkFuel : Nat} {file : FileId} {ms : List Mark} {s' : Session}
    (hsink : sink.NeverRefuses) (hnew : sink.taken = [])
    (hunfolds : Unfolds p (p.fileItems ⟨false, []⟩ file) ms) (honce : (reached ms).Nodup)
    (h : Ends p { file := .source (.ofSink sink) path lines, counter, queue, dependencies }
      ((walk (projection typeFuel) walkFuel).extractFile file) () s') :
    HasRowsOf p (reached ms).toFinset s'.file.writer.sink.lines := by
  have count {r : String} (hr : r ∈ rowRelations) : rowCount r s'.file.writer.sink.lines =
      ((reached ms).map fun id => (p.owed id).count r).sum +
        arrayMembers r * arrayCount s'.file.writer.sink.lines := by
    have hrows := Account.rows_of_extractFile hunfolds hsink hnew h hr
    rw [ownRows, hunfolds.rows r] at hrows
    unfold rowCount arrayCount
    omega
  have card := sum_ite_card honce
  refine ⟨?_, ?_, ?_, ?_, ?_, ?_⟩
  · rw [count (by decide)]
    simp [Program.owed_properties, card, arrayMembers]
  · rw [count (by decide)]
    simp [Program.owed_typeAliases, card, arrayMembers]
  · rw [count (by decide)]
    simp [Program.owed_constructors, card, arrayMembers]
  · rw [count (by decide)]
    simp [Program.owed_methods, List.sum_map_add, card, arrayMembers]
  · rw [count (by decide)]
    simp [Program.owed_fields, List.sum_map_add, card, arrayMembers]
  · rw [count (by decide)]
    simp [Program.owed_parameters, List.sum_toFinset _ honce, arrayMembers]

/-- An enum class with an entry and a companion object, and a function from an array of it
that has a local class. -/
def shop : Program :=
  let ware : IrType := .ofClass ⟨0⟩ []
  let wares : IrType := .ofClass ⟨6⟩ [.projection .invariant ware]
  { files := #[{ path := "a.kt", declarations := [⟨0⟩, ⟨3⟩] }]
    declarations :=
      #[{ parent := .file ⟨0⟩
          kind := .class { name := "Ware", kind := .enumClass, members := [⟨1⟩, ⟨2⟩] } },
        { parent := .decl ⟨0⟩, kind := .enumEntry "TEA" },
        { parent := .decl ⟨0⟩
          kind := .class { name := "Companion", kind := .object, isCompanion := true } },
        { parent := .file ⟨0⟩
          kind := .function
            { name := "sell", valueParameters := [⟨4⟩], returnType := ware
              body := some { span := .undefined, statements := [.declaration ⟨5⟩] } } },
        { parent := .decl ⟨3⟩
          kind := .valueParameter { name := "wares", index := 0, type := wares } },
        { parent := .decl ⟨3⟩, kind := .class { name := "Till" } },
        { parent := .package "kotlin"
          origin := .externalStub
          kind := .class { name := "Array" } }]
    classIndex := [("Ware", ⟨0⟩), ("kotlin.Array", ⟨6⟩)] }

theorem extractFile_rows_shop : ∃ ms s',
    Unfolds shop (shop.fileItems ⟨false, []⟩ ⟨0⟩) ms ∧ reached ms = [⟨0⟩, ⟨1⟩, ⟨2⟩, ⟨3⟩, ⟨5⟩] ∧
    Ends shop { file := .source (.ofSink .unbounded) "a.kt" .single, counter := {}, queue := {} }
      ((walk (projection 9) 9).extractFile ⟨0⟩) () s' ∧
    HasRowsOf shop {⟨0⟩, ⟨1⟩, ⟨2⟩, ⟨3⟩, ⟨5⟩} s'.file.writer.sink.lines := by
  have hreached : (shop.unfold 99 (shop.fileItems ⟨false, []⟩ ⟨0⟩)).map reached =
      some [⟨0⟩, ⟨1⟩, ⟨2⟩, ⟨3⟩, ⟨5⟩] := by decide +kernel
  obtain ⟨ms, hms, hids⟩ := Option.map_eq_some_iff.mp hreached
  have hunfolds : Unfolds shop (shop.fileItems ⟨false, []⟩ ⟨0⟩) ms := .of_unfold hms
  obtain ⟨_, s', hends⟩ := ends_of_isOk (p := shop)
    (s := { file := .source (.ofSink .unbounded) "a.kt" .single, counter := {}, queue := {} })
    (m := (walk (projection 9) 9).extractFile ⟨0⟩) (by decide +kernel)
  have hrows := extractFile_rows (fun _ _ => rfl) rfl hunfolds (by rw [hids]; decide) hends
  rw [hids] at hrows
  exact ⟨ms, s', hunfolds, hids, hends, hrows⟩

end Walk

end IrFacts
