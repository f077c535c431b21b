import IrFacts.Proofs.Program.SymbolTable
import IrFacts.Proofs.Run.Declarations
import IrFacts.Proofs.Run.Sink

/-!
# Placeholders are reported

A program that was checked has the files that its declarations stand in. If it also
has the members that its code reads, then a placeholder gets into the trap of a
file only with a diagnostic.
-/

set_option autoImplicit false

namespace IrFacts

/-! ## Programs that were checked -/

namespace Program

variable {p : Program}

theorem filesExist_ofDocument {d : Document} (hd : ofDocument d = .ok p) : p.FilesExist := by
  intro id e he file hfile
  exact file?_isSome_of_parent? hd (by rw [parent?, he, Option.map_some, hfile])

end Program

/-- An expression without parts reads a declared member if it reads one. -/
theorem Expr.readsDeclared_of_leaf {p : Program} {e : Expr} (hparts : e.kind.parts p = [])
    (h : ∀ id, e.kind.read? = some id → (p.decl? id).isSome) : e.ReadsDeclared p := by
  intro other ho
  cases ho with
  | refl => exact h
  | part hpart _ => exact absurd (hparts ▸ hpart) List.not_mem_nil

/-! ## Scopes without the placeholder -/

namespace Scope

/-- The scope of an extraction before which so many errors were counted. It may mention the
placeholder only when it has counted one of its own. -/
def candid (errors : Nat) : Scope where
  given n l := l ≠ .placeholder ∨ errors < n
  base := LabelTable.first
  errors := errors + 1
  letter _ := True
  relation _ := True
  given_mono _ _ _ hmn := Or.imp_right fun h => Nat.lt_of_lt_of_le h hmn
  given_placeholder _ h := .inr h
  letter_of_ne _ _ := trivial
  relation_of_notMem _ _ := trivial

variable {errors : Nat} {s : Session}

theorem errors_of_knows (h : (candid errors).Knows s .placeholder) :
    errors < s.counter.errors := by
  rcases h with (h | h) | ⟨n, hn, hbase, -⟩
  · exact absurd rfl h
  · exact h
  · have hzero := Label.number.inj hn
    exact absurd hbase (hzero ▸ Nat.not_succ_le_zero _)

/-- A placeholder in a fact that was admitted, a diagnostic or any other, comes with an error. -/
theorem errors_of_admits {es : List Event} (h : (candid errors).AdmitsAll s es) {f : Trap.Fact}
    (hf : .fact f ∈ Event.linesOf es s) (hplaceholder : .label .placeholder ∈ f.args) :
    errors < (Event.run es s).counter.errors := by
  induction es generalizing s with
  | nil => exact absurd hf List.not_mem_nil
  | cons e es ih =>
    rcases List.mem_append.mp hf with hf | hf
    · refine Nat.lt_of_lt_of_le ?_ (Event.run_errors (e :: es) s)
      cases e with
      | fact g =>
        cases List.mem_singleton.mp hf
        exact errors_of_knows (h.1.2.of_mem hplaceholder)
      | report problem location =>
        have hlocation : location = .placeholder := by
          simp only [Event.lines, Event.diagnostic] at hf
          split at hf
          · cases hf
          all_goals
            cases List.mem_singleton.mp hf
            simpa [Trap.Fact.diagnostics, Label.star, Label.placeholder, eq_comm]
              using hplaceholder
        exact errors_of_knows (hlocation ▸ h.1)
      | lookup key asker =>
        simp only [Event.lines] at hf
        split at hf <;> simp at hf
      | _ => simp [Event.lines] at hf
    · exact ih h.2 hf

end Scope

/-! ## Source files -/

namespace Walk

open Extract Trap

/-- In a program whose code reads declared members only, a placeholder that is written of a
file was reported. -/
theorem extractFile_reportsPlaceholders {d : Document} {p : Program}
    (hp : Program.ofDocument d = .ok p) (hr : p.ReadsDeclared) {sink : Sink}
    (hnew : sink.taken = []) {path : String} {lines : LineTable} {counter : Counter}
    {queue : ClassQueue} {dependencies : Option (List DeclId)} {typeFuel walkFuel : Nat}
    {file : FileId} {s' : Session}
    (h : Ends p { file := .source (.ofSink sink) path lines, counter, queue, dependencies }
      ((walk (projection typeFuel) walkFuel).extractFile file) () s')
    {f : Fact} (hf : .fact f ∈ s'.file.writer.sink.lines)
    (hplaceholder : .label .placeholder ∈ f.args) : counter.errors < s'.counter.errors := by
  -- Before the target file got its label, nothing was written at all.
  let s : Session :=
    { file :=
        { writer := .ofSink sink, target := { path, label := .number LabelTable.first, lines } }
      counter, queue, dependencies }
  let σ := Scope.candid counter.errors
  have hs : σ.Sound s :=
    ⟨Nat.le_refl _, Nat.le_refl _, nofun, .inl (.inl nofun), nofun, nofun⟩
  have hallows : σ.Allows p :=
    ⟨fun _ _ _ _ => trivial, .inr (Program.filesExist_ofDocument hp), .inr hr⟩
  have hwalk : σ.CoversWalk p (walk (projection typeFuel) walkFuel) :=
    Scope.coversWalk_walk (fun _ _ => trivial) hallows (Scope.covers_projection hallows typeFuel)
      walkFuel
  have hopen : Ends p s (onFile (·.retarget path (some lines) true)) s.file.target
      { file := .source (.ofSink sink) path lines, counter, queue, dependencies } := rfl
  obtain ⟨-, es, hes⟩ := Scope.trace_retarget (fun _ _ => trivial) hs hopen
  obtain ⟨⟨⟨fs, hfs⟩, -⟩, -⟩ := Scope.does_extractFile (fun _ _ => trivial) hallows hwalk file
    (hes.sound hs) _ _ h
  obtain ⟨hadmits, -, hrun⟩ := hes.append hfs
  have hwrote := Event.run_wrote (es ++ fs) s
  rw [hrun] at hwrote
  rcases hwrote.mem_lines hf with hf | hf
  · exact absurd (hnew ▸ Sink.mem_lines.mp hf) List.not_mem_nil
  · exact hrun ▸ Scope.errors_of_admits hadmits hf hplaceholder

/-- `class A(val x: A)` and a function that reads `x` at a type that was not resolved. -/
def untypedRead : Document :=
  let a : IrType := .ofClass ⟨0⟩ []
  let read : Expr := { kind := .getField ⟨1⟩, type := .error "T", span := .undefined }
  { files := [{ path := "a.kt", declarations := [⟨0⟩, ⟨2⟩] }]
    declarations :=
      [{ parent := .file ⟨0⟩, kind := .class { name := "A", members := [⟨1⟩] } },
        { parent := .decl ⟨0⟩, kind := .field { name := "x", type := a } },
        { parent := .file ⟨0⟩
          kind := .function
            { name := "f", returnType := a
              body := some { span := .undefined, statements := [.expr read] } } }] }

def isPlaceholder : Arg → Bool
  | .label l => l.isPlaceholder
  | _ => false

theorem mem_of_any_isPlaceholder {args : List Arg} (h : args.any isPlaceholder = true) :
    .label .placeholder ∈ args := by
  obtain ⟨a, ha, hplaceholder⟩ := List.any_eq_true.mp h
  cases a with
  | label l => exact of_decide_eq_true hplaceholder ▸ ha
  | _ => cases hplaceholder

def unnamed (s : Session) : Option Fact :=
  s.file.writer.sink.lines.findSome? fun
    | .fact f => if f.args.any isPlaceholder then some f else none
    | _ => none

theorem extractFile_reportsPlaceholders_untypedRead : ∃ p s' f,
    Program.ofDocument untypedRead = .ok p ∧ p.ReadsDeclared ∧
    Ends p { file := .source (.ofSink .unbounded) "a.kt" .single, counter := {}, queue := {} }
      ((walk (projection 9) 9).extractFile ⟨0⟩) () s' ∧
    .fact f ∈ s'.file.writer.sink.lines ∧ .label .placeholder ∈ f.args ∧
    0 < s'.counter.errors := by
  let new : Session :=
    { file := .source (.ofSink .unbounded) "a.kt" .single, counter := {}, queue := {} }
  have hall : (Program.ofDocument untypedRead).toOption.any (fun p =>
      (p.declarations.toList.all fun d => (d.kind.code p).all fun e =>
        (e.kind.parts p).isEmpty && e.kind.read?.all fun id => (p.decl? id).isSome) &&
      (((walk (projection 9) 9).extractFile ⟨0⟩ p new).toOption.map fun r =>
        (unnamed r.2).isSome) = some true) = true := by decide +kernel
  cases hd : Program.ofDocument untypedRead with
  | error e =>
    rw [hd] at hall
    cases hall
  | ok p =>
    rw [hd] at hall
    obtain ⟨hcode, hrun⟩ := (Bool.and_eq_true ..).mp hall
    have hr : p.ReadsDeclared := by
      intro id d hdecl e he
      have hleaf := List.all_eq_true.mp (List.all_eq_true.mp hcode d
        (Array.mem_toList_iff.mpr (Array.mem_of_getElem? hdecl))) e he
      obtain ⟨hparts, hread⟩ := (Bool.and_eq_true ..).mp hleaf
      exact Expr.readsDeclared_of_leaf (List.isEmpty_iff.mp hparts)
        ((Option.all_eq_true _ _).mp hread)
    obtain ⟨_, s', hends, hline⟩ := ends_of_map (of_decide_eq_true hrun)
    obtain ⟨f, hfound⟩ := Option.isSome_iff_exists.mp hline
    obtain ⟨l, hl, hf⟩ := List.exists_of_findSome?_eq_some hfound
    split at hf
    · split at hf
      · next hany =>
        cases hf
        have hplaceholder := mem_of_any_isPlaceholder hany
        exact ⟨p, s', f, rfl, hr, hends, hl, hplaceholder,
          extractFile_reportsPlaceholders hd hr rfl hends hl hplaceholder⟩
      · cases hf
    · cases hf

end Walk

end IrFacts
