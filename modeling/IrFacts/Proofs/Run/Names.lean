import IrFacts.Extraction.Labels
import IrFacts.Proofs.Code.Parts
import IrFacts.Proofs.Run.Scope

/-!
# Names in keys

Keys are built from the names and paths of a program. When a scope allows
these, it allows every text that is derived from them: binary names, paths of
classes and folders, and the names of file classes. What a program does not
declare has no name, so a scope that does not know the placeholder from the start
only allows programs in which nothing is missing without being reported.
-/

set_option autoImplicit false

namespace IrFacts

def Declaration.names (d : Declaration) : List String :=
  let package := match d.parent with
    | .package name => [name]
    | _ => []
  let path := match d.kind with
    | .class c => c.binaryPath.toList
    | _ => []
  d.kind.name?.toList ++ package ++ path

namespace Program

def fileNames (p : Program) (entry : FileEntry) : List String :=
  entry.path :: entry.package :: (p.annotatedName? entry).toList

def ParentExists (p : Program) (parent : DeclParent) : Prop :=
  ∀ file, parent = .file file → (p.file? file).isSome

def FilesExist (p : Program) : Prop := ∀ id d, p.decl? id = some d → p.ParentExists d.parent

/-- The names and paths that a program is made with. -/
def names (p : Program) : List String :=
  p.files.toList.flatMap p.fileNames ++ p.declarations.toList.flatMap Declaration.names

theorem mem_names_of_file {p : Program} {id : FileId} {entry : FileEntry} {name : String}
    (h : p.file? id = some entry) (hn : name ∈ p.fileNames entry) : name ∈ p.names := by
  refine List.mem_append.mpr (Or.inl (List.mem_flatMap.mpr ⟨entry, ?_, hn⟩))
  exact Array.mem_toList_iff.mpr (Array.mem_of_getElem? h)

theorem mem_names_of_decl {p : Program} {id : DeclId} {d : Declaration} {name : String}
    (h : p.decl? id = some d) (hn : name ∈ d.names) : name ∈ p.names := by
  refine List.mem_append.mpr (Or.inr (List.mem_flatMap.mpr ⟨d, ?_, hn⟩))
  exact Array.mem_toList_iff.mpr (Array.mem_of_getElem? h)

theorem decl_of_class? {p : Program} {id : DeclId} {c : ClassDecl} (h : p.class? id = some c) :
    ∃ d, p.decl? id = some d ∧ d.kind = .class c := by
  obtain ⟨d, hd, hk⟩ := Option.bind_eq_some_iff.mp h
  refine ⟨d, hd, ?_⟩
  split at hk
  · next hkind =>
    cases hk
    exact hkind
  · cases hk

theorem decl_of_function? {p : Program} {id : DeclId} {f : FunctionDecl}
    (h : p.function? id = some f) : ∃ d, p.decl? id = some d ∧ d.kind = .function f := by
  obtain ⟨d, hd, hk⟩ := Option.bind_eq_some_iff.mp h
  refine ⟨d, hd, ?_⟩
  split at hk
  · next hkind =>
    cases hk
    exact hkind
  · cases hk

theorem decl_of_field? {p : Program} {id : DeclId} {f : FieldDecl} (h : p.field? id = some f) :
    ∃ d, p.decl? id = some d ∧ d.kind = .field f := by
  obtain ⟨d, hd, hk⟩ := Option.bind_eq_some_iff.mp h
  refine ⟨d, hd, ?_⟩
  split at hk
  · next hkind =>
    cases hk
    exact hkind
  · cases hk

theorem decl_of_typeParameter? {p : Program} {id : DeclId} {q : TypeParameterDecl}
    (h : p.typeParameter? id = some q) :
    ∃ d, p.decl? id = some d ∧ d.kind = .typeParameter q := by
  obtain ⟨d, hd, hk⟩ := Option.bind_eq_some_iff.mp h
  refine ⟨d, hd, ?_⟩
  split at hk
  · next hkind =>
    cases hk
    exact hkind
  · cases hk

theorem packageOf_of {P : String → Prop} {p : Program} (hempty : P "")
    (hfile : ∀ {id entry}, p.file? id = some entry → P entry.package)
    (hpackage : ∀ {id d name}, p.decl? id = some d → d.parent = .package name → P name)
    (id : DeclId) : P (p.packageOf id) := by
  suffices hw : ∀ steps id, P (p.packageWithin steps id) from hw _ id
  intro steps
  induction steps with
  | zero => exact fun _ => hempty
  | succ steps ih =>
    intro id
    rw [packageWithin]
    cases hd : p.decl? id with
    | none => exact hempty
    | some d =>
      dsimp only
      cases hp : d.parent with
      | decl parent => exact ih parent
      | file file =>
        dsimp only
        cases hf : p.file? file with
        | none => exact hempty
        | some entry => exact hfile hf
      | package name => exact hpackage hd hp

theorem classChain?_of {P : String → Prop} {p : Program}
    (hclass : ∀ {id d c}, p.decl? id = some d → d.kind = .class c → P c.name) {id : DeclId}
    {chain : List String} (hc : p.classChain? id = some chain) : ∀ name ∈ chain, P name := by
  suffices hw : ∀ steps inner id, (∀ name ∈ inner, P name) → ∀ chain,
      p.chainWithin steps inner id = some chain → ∀ name ∈ chain, P name from
    hw _ [] id (by simp) chain hc
  intro steps
  induction steps with
  | zero =>
    intro inner id _ chain hc
    cases hc
  | succ steps ih =>
    intro inner id hi chain hc
    rw [chainWithin] at hc
    split at hc
    · cases hc
    · next d hd =>
      split at hc
      · next c hk =>
        have hcons : ∀ name ∈ c.name :: inner, P name := by
          intro name hn
          rcases List.mem_cons.mp hn with rfl | hn
          · exact hclass hd hk
          · exact hi name hn
        split at hc
        · split at hc
          · exact ih _ _ hcons chain hc
          · cases hc
            exact hcons
        · cases hc
          exact hcons
      · cases hc

end Program

/-- What holds of a separator and of the parts, and of a concatenation with them,
holds of the joined text. -/
theorem intercalate_of {P : String → Prop} (hempty : P "")
    (happend : ∀ {a b}, P a → P b → P (a ++ b)) {sep : String} {parts : List String} (hs : P sep)
    (hp : ∀ part ∈ parts, P part) : P (sep.intercalate parts) := by
  induction parts with
  | nil => exact hempty
  | cons part parts ih =>
    have htail := ih fun q hq => hp q (List.mem_cons_of_mem _ hq)
    cases parts with
    | nil => exact hp part (by simp)
    | cons q parts =>
      rw [String.intercalate_cons_cons]
      exact happend (happend (hp part (by simp)) hs) htail

theorem qualify_of {P : String → Prop} (happend : ∀ {a b}, P a → P b → P (a ++ b))
    (hdot : P ".") {package name : String} (h : P package) (k : P name) :
    P (qualify package name) := by
  unfold qualify
  split
  · exact k
  · exact happend (happend h hdot) k

/-! ## Upper case -/

namespace Text

/-- No letter becomes this sign: each run of letters ends up on one side of it. -/
structure NeverCapital (d : Char) : Prop where
  expansions : ∀ e ∈ expansions, ∀ code ∈ e.2, Char.ofNat code ≠ d
  runs : ∀ r ∈ runs, r.last + r.distance < d.toNat ∨ d.toNat < r.first + r.distance
  positive : 0 < d.toNat

theorem neverCapital_brace : NeverCapital '\x7b' :=
  ⟨by decide +kernel, by decide +kernel, by decide⟩

theorem NeverCapital.notMem {c d : Char} (hd : NeverCapital d) (h : c ≠ d) :
    d ∉ uppercase c := by
  have code_of {n : Nat} (hn : Char.ofNat n = d) : n = d.toNat := by
    by_cases hvalid : n.isValidChar
    · rw [Char.ofNat, dif_pos hvalid] at hn
      exact congrArg Char.toNat hn
    · rw [Char.ofNat, dif_neg hvalid] at hn
      have hpositive := hd.positive
      rw [← hn] at hpositive
      exact absurd hpositive (by decide)
  unfold uppercase
  split
  · next codes hl =>
    intro hm
    obtain ⟨code, hc, he⟩ := List.mem_map.mp hm
    obtain ⟨l₁, l₂, hs, -⟩ := List.lookup_eq_some_iff.mp hl
    refine hd.expansions (c.toNat, codes) ?_ code hc he
    rw [hs]
    simp
  · split
    · next r hr =>
      intro hm
      have hin : r.first ≤ c.toNat ∧ c.toNat ≤ r.last := by
        have := List.find?_some hr
        simp only [Run.contains, Bool.and_eq_true, decide_eq_true_eq] at this
        exact this.1
      have hcode := code_of (List.mem_singleton.mp hm).symm
      have hside := hd.runs r (List.mem_of_find?_eq_some hr)
      have hpositive := hd.positive
      omega
    · simpa using Ne.symm h

end Text

/-! ## Paths -/

namespace Path

theorem mem_of_mem_segmentsOf {cs s : List Char} {c : Char} (hs : s ∈ segmentsOf cs)
    (hc : c ∈ s) : c ∈ cs := by
  induction cs generalizing s with
  | nil =>
    rw [segmentsOf, List.mem_singleton] at hs
    exact hs ▸ hc
  | cons d cs ih =>
    rw [segmentsOf] at hs
    split at hs
    · rcases List.mem_cons.mp hs with rfl | hs
      · cases hc
      · exact List.mem_cons_of_mem _ (ih hs hc)
    · split at hs
      · rw [List.mem_singleton] at hs
        subst hs
        exact List.mem_cons.mpr (Or.inl (List.mem_singleton.mp hc))
      · next first more he =>
        rcases List.mem_cons.mp hs with rfl | hs
        · rcases List.mem_cons.mp hc with rfl | hc
          · exact List.mem_cons_self
          · exact List.mem_cons_of_mem _ (ih (he ▸ List.mem_cons_self) hc)
        · exact List.mem_cons_of_mem _ (ih (he ▸ List.mem_cons_of_mem _ hs) hc)

theorem mem_of_mem_dropJunk {segments : List String} {s : String} (h : s ∈ dropJunk segments) :
    s ∈ segments := by
  have hr := List.mem_reverse.mp h
  exact List.mem_reverse.mp ((List.dropWhile_sublist _).mem hr)

end Path

namespace Scope

variable {σ : Scope} {p : Program} {s : Session}

theorem letters_intercalate {sep : String} {parts : List String} (hs : σ.Letters sep)
    (hp : ∀ part ∈ parts, σ.Letters part) : σ.Letters (sep.intercalate parts) :=
  intercalate_of (letters_of_plain (by decide)) Letters.append hs hp

theorem spells_intercalate {sep : String} {parts : List String} (hs : σ.Spells s sep)
    (hp : ∀ part ∈ parts, σ.Spells s part) : σ.Spells s (sep.intercalate parts) :=
  intercalate_of (spells_of_plain (by decide)) Spells.append hs hp

theorem letters_parent {path q : Path} (h : σ.Letters path.text) (hq : path.parent? = some q) :
    σ.Letters q.text := by
  have hslash : σ.Letters "/" := letters_of_plain (by decide)
  have hempty : σ.Letters "" := letters_of_plain (by decide)
  have hseg : ∀ part ∈ path.segments, σ.Letters part := by
    intro part hpart c hc
    obtain ⟨cs, hcs, rfl⟩ := List.mem_map.mp hpart
    rw [String.toList_ofList] at hc
    exact h c (Path.mem_of_mem_segmentsOf hcs hc)
  have hanchor : σ.Letters path.anchor.1 ∧ ∀ part ∈ path.anchor.2, σ.Letters part := by
    unfold Path.anchor
    split
    · exact ⟨hempty, by simp⟩
    · next first rest he =>
      rw [he] at hseg
      exact ⟨hseg first (by simp), fun part hpart => hseg part (List.mem_cons_of_mem _ hpart)⟩
  simp only [Path.parent?] at hq
  split at hq
  · split at hq
    · cases hq
    · cases hq
      exact hempty
  · split at hq
    · cases hq
      exact hslash
    · rw [← Option.some.inj hq]
      dsimp only
      apply letters_intercalate hslash
      intro part hpart
      rcases List.mem_cons.mp hpart with rfl | hpart
      · exact hanchor.1
      · refine hanchor.2 part (Path.mem_of_mem_dropJunk ?_)
        exact List.dropLast_subset _ (Path.mem_of_mem_dropJunk hpart)

theorem letters_parents {path : Path} (h : σ.Letters path.text) :
    ∀ q ∈ path.parents, σ.Letters q.text := by
  suffices hw : ∀ steps, ∀ path : Path, σ.Letters path.text →
      ∀ q ∈ path.parentsWithin steps, σ.Letters q.text from hw _ path h
  intro steps
  induction steps with
  | zero =>
    intro path _ q hq
    cases hq
  | succ steps ih =>
    intro path hpath q hq
    rw [Path.parentsWithin] at hq
    split at hq
    · cases hq
    · next parent hparent =>
      have hp := letters_parent hpath hparent
      rcases List.mem_cons.mp hq with rfl | hq
      · exact hp
      · exact ih parent hp q hq

/-! ## Numbers -/

theorem letters_nat (n : Nat) : σ.Letters (toString n) := by
  apply letters_of_plain
  intro hm
  rw [Nat.toString_eq_repr, Nat.toList_repr] at hm
  have := Nat.isDigit_of_mem_toDigits (by decide) (by decide) hm
  exact absurd this (by decide)

theorem letters_int (n : Int) : σ.Letters (toString n) := by
  cases n with
  | ofNat n => exact letters_nat n
  | negSucc n => exact Letters.append (letters_of_plain (a := "-") (by decide)) (letters_nat _)

theorem letters_declId (id : DeclId) : σ.Letters id.render :=
  Letters.append (letters_of_plain (by decide)) (letters_nat _)

/-! ## Names of declarations -/

/-- The names of the program may be spelled. A file that is missing and a member that is read
but not declared count no error, so there are none if the placeholder is not known anyway. -/
structure Allows (σ : Scope) (p : Program) : Prop where
  names : ∀ name ∈ p.names, σ.Letters name
  files : σ.errors = 0 ∨ p.FilesExist
  reads : σ.errors = 0 ∨ p.ReadsDeclared

theorem Allows.file (h : σ.Allows p) {id : FileId} {entry : FileEntry}
    (hf : p.file? id = some entry) : ∀ name ∈ p.fileNames entry, σ.Letters name :=
  fun _ hn => h.names _ (Program.mem_names_of_file hf hn)

theorem Allows.decl (h : σ.Allows p) {id : DeclId} {d : Declaration} (hd : p.decl? id = some d) :
    ∀ name ∈ d.names, σ.Letters name :=
  fun _ hn => h.names _ (Program.mem_names_of_decl hd hn)

theorem Allows.name (h : σ.Allows p) {id : DeclId} {d : Declaration} (hd : p.decl? id = some d) :
    ∀ name ∈ d.kind.name?, σ.Letters name :=
  fun name hn => h.decl hd name (by simp [Declaration.names, Option.mem_def.mp hn])

structure AllowsParent (σ : Scope) (p : Program) (parent : DeclParent) : Prop where
  package : ∀ name, parent = .package name → σ.Letters name
  file : σ.errors = 0 ∨ p.ParentExists parent

theorem Allows.parent (h : σ.Allows p) {id : DeclId} {d : Declaration} (hd : p.decl? id = some d) :
    σ.AllowsParent p d.parent :=
  ⟨fun name hn => h.decl hd name (by simp [Declaration.names, hn]),
    h.files.imp_right fun hfiles => hfiles id d hd⟩

theorem allowsParent_decl (id : DeclId) : σ.AllowsParent p (.decl id) := ⟨nofun, .inr nofun⟩

theorem Allows.class (h : σ.Allows p) {id : DeclId} {c : ClassDecl} (hc : p.class? id = some c) :
    σ.Letters c.name := by
  obtain ⟨d, hd, hk⟩ := Program.decl_of_class? hc
  exact h.name hd _ (by simp [hk, DeclKind.name?])

theorem Allows.function (h : σ.Allows p) {id : DeclId} {f : FunctionDecl}
    (hf : p.function? id = some f) : σ.Letters f.name := by
  obtain ⟨d, hd, hk⟩ := Program.decl_of_function? hf
  exact h.name hd _ (by simp [hk, DeclKind.name?])

theorem Allows.typeParameter (h : σ.Allows p) {id : DeclId} {q : TypeParameterDecl}
    (hq : p.typeParameter? id = some q) : σ.Letters q.name := by
  obtain ⟨d, hd, hk⟩ := Program.decl_of_typeParameter? hq
  exact h.name hd _ (by simp [hk, DeclKind.name?])

theorem letters_qualify {package name : String} (h : σ.Letters package) (k : σ.Letters name) :
    σ.Letters (qualify package name) :=
  qualify_of Letters.append (letters_of_plain (by decide)) h k

theorem letters_package (h : σ.Allows p) (id : DeclId) : σ.Letters (p.packageOf id) :=
  Program.packageOf_of (letters_of_plain (by decide))
    (fun hf => h.file hf _ (by simp [Program.fileNames]))
    (fun hd hp => (h.parent hd).package _ hp) id

theorem letters_chain (h : σ.Allows p) {id : DeclId} {chain : List String}
    (hc : p.classChain? id = some chain) : ∀ name ∈ chain, σ.Letters name :=
  Program.classChain?_of (fun hd hk => h.name hd _ (by simp [hk, DeclKind.name?])) hc

theorem letters_binaryName (h : σ.Allows p) (id : DeclId) :
    σ.Letters ((p.binaryName? id).getD id.render) := by
  unfold Program.binaryName?
  cases hc : p.classChain? id with
  | none => exact letters_declId id
  | some chain =>
    apply letters_qualify (letters_package h id)
    exact letters_intercalate (letters_of_plain (by decide)) (letters_chain h hc)

theorem letters_dotsToSlashes {name : String} (h : σ.Letters name) :
    σ.Letters (dotsToSlashes name) := by
  intro c hc
  rw [dotsToSlashes, String.toList_ofList] at hc
  obtain ⟨d, hd, rfl⟩ := List.mem_map.mp hc
  split
  · exact σ.letter_of_ne _ (by decide)
  · exact h d hd

theorem letters_binaryPath (h : σ.Allows p) (id : DeclId) : σ.Letters (p.binaryPath id) := by
  unfold Program.binaryPath
  split
  · next path hp =>
    obtain ⟨c, hc, hb⟩ := Option.bind_eq_some_iff.mp hp
    obtain ⟨d, hd, hk⟩ := Program.decl_of_class? hc
    exact h.decl hd path (by simp [Declaration.names, hk, hb])
  · refine ((letters_of_plain (by decide)).append ?_).append (letters_of_plain (by decide))
    exact letters_dotsToSlashes (letters_binaryName h id)

/-! ## Names of files -/

theorem letters_uppercase {c : Char} (h : σ.letter c) : ∀ d ∈ Text.uppercase c, σ.letter d := by
  intro d hd
  by_cases hb : d = '\x7b'
  · by_cases hc : c = '\x7b'
    · rw [hb, ← hc]
      exact h
    · rw [hb] at hd
      exact absurd hd (Text.neverCapital_brace.notMem hc)
  · exact σ.letter_of_ne d hb

theorem letters_defaultFileClassName {name : String} (h : σ.Letters name) :
    σ.Letters (defaultFileClassName name) := by
  unfold defaultFileClassName
  dsimp only
  have hstem : ∀ c ∈ (if ".kt".toList.isSuffixOf name.toList
      then name.toList.take (name.toList.length - ".kt".toList.length) else name.toList),
      σ.letter c := by
    intro c hc
    split at hc
    · exact h c (List.mem_of_mem_take hc)
    · exact h c hc
  split
  · exact letters_of_plain (by decide)
  · next first rest he =>
    rw [he] at hstem
    intro c hc
    rw [String.toList_ofList] at hc
    rcases List.mem_append.mp hc with hc | hc
    · rcases List.mem_append.mp hc with hc | hc
      · exact letters_uppercase (hstem first (by simp)) c hc
      · exact hstem c (List.mem_cons_of_mem _ hc)
    · apply letters_of_plain (σ := σ) (a := "Kt") (by decide) c
      simpa using hc

theorem letters_fileClassName (h : σ.Allows p) {id : FileId} {entry : FileEntry}
    (hf : p.file? id = some entry) : σ.Letters (p.fileClassName entry) := by
  have hnames := h.file hf
  unfold Program.fileClassName
  cases ha : p.annotatedName? entry with
  | some name => exact hnames name (by simp [Program.fileNames, ha])
  | none =>
    rw [Option.getD_none]
    apply letters_defaultFileClassName
    intro c hc
    rw [FileEntry.name, String.toList_ofList] at hc
    have hc := (List.takeWhile_sublist _).mem (List.mem_reverse.mp hc)
    exact hnames entry.path (by simp [Program.fileNames]) c (List.mem_reverse.mp hc)

end Scope

end IrFacts
