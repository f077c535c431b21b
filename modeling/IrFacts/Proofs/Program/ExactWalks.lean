import IrFacts.Proofs.Program.SymbolTable

/-!
# What the walks along parent links find

The walks stop after as many steps as the table has declarations, and one more.
Here the chains of parent links are taken without any bound: such a chain ends,
or it runs into a circle. The walks of a checked program find what stands at the
end of every chain that has one, so the bound never ends a walk too early.
-/

set_option autoImplicit false

namespace IrFacts

namespace Program

variable {p : Program} {up : DeclId → Option DeclId} {id : DeclId}

/-! ## Circles -/

/-- The links lead from a declaration to one that they lead back to. -/
def Circles (up : DeclId → Option DeclId) (id : DeclId) : Prop :=
  ∃ other, Relation.ReflTransGen (fun a b => up a = some b) id other ∧
    Relation.TransGen (fun a b => up a = some b) other other

theorem Circles.cons {next : DeclId} (h : up id = some next) (k : Circles up next) :
    Circles up id := by
  obtain ⟨other, hreach, hcircle⟩ := k
  exact ⟨other, .head h hreach, hcircle⟩

theorem Climbs.reach {other : DeclId} {n : Nat} (h : Climbs up id n)
    (hreach : Relation.ReflTransGen (fun a b => up a = some b) id other) :
    ∃ m, Climbs up other m := by
  induction hreach with
  | refl => exact ⟨n, h⟩
  | tail _ hlink ih =>
    obtain ⟨m, hm⟩ := ih
    cases hm with
    | top hnone => cases hnone.symm.trans hlink
    | step hsome rest =>
      cases hsome.symm.trans hlink
      exact ⟨_, rest⟩

theorem Climbs.lt {other : DeclId} {m n : Nat} (h : Climbs up id m) (k : Climbs up other n)
    (hbelow : Relation.TransGen (fun a b => up a = some b) id other) : n < m := by
  induction hbelow generalizing n with
  | single hlink => exact h.unique (.step hlink k) ▸ Nat.lt_succ_self n
  | tail _ hlink ih => exact Nat.lt_of_succ_lt (ih (.step hlink k))

theorem Climbs.not_circles {n : Nat} (h : Climbs up id n) : ¬Circles up id := by
  rintro ⟨other, hreach, hcircle⟩
  obtain ⟨m, hm⟩ := h.reach hreach
  exact Nat.lt_irrefl m (hm.lt hm hcircle)

/-- What has been met lies below the declaration, none of it twice, so that the
table is used up before the steps are. -/
theorem climbs_of_met (hup : ∀ id, (up id).isSome → p.Declares id) {steps : Nat}
    {met : List DeclId} (hcircle : ¬Circles up id) (hnodup : (id :: met).Nodup)
    (hdeclared : ∀ f ∈ met, p.Declares f)
    (hbelow : ∀ f ∈ met, Relation.TransGen (fun a b => up a = some b) f id)
    (hsteps : p.declarations.size < steps + met.length) : ∃ n, Climbs up id n := by
  induction steps generalizing id met with
  | zero =>
    have hlength := length_le_of_declares hnodup.of_cons hdeclared
    omega
  | succ steps ih =>
    cases hlink : up id with
    | none => exact ⟨0, .top hlink⟩
    | some next =>
      have hbelow' : ∀ f ∈ id :: met, Relation.TransGen (fun a b => up a = some b) f next :=
        List.forall_mem_cons.mpr ⟨.single hlink, fun f hf => (hbelow f hf).tail hlink⟩
      have hnext : ¬Circles up next := fun h => hcircle (h.cons hlink)
      have hnew : next ∉ id :: met := fun hmem => hnext ⟨next, .refl, hbelow' next hmem⟩
      have hdeclared' : ∀ f ∈ id :: met, p.Declares f :=
        List.forall_mem_cons.mpr ⟨hup id (by rw [hlink]; rfl), hdeclared⟩
      obtain ⟨n, hn⟩ := ih hnext (List.nodup_cons.mpr ⟨hnew, hnodup⟩) hdeclared' hbelow'
        (by rw [List.length_cons]; omega)
      exact ⟨n + 1, .step hlink hn⟩

theorem climbs_iff_not_circles (hup : ∀ id, (up id).isSome → p.Declares id) (id : DeclId) :
    (∃ n, Climbs up id n) ↔ ¬Circles up id := by
  refine ⟨fun ⟨_, h⟩ => h.not_circles, fun h => ?_⟩
  have hnodup : [id].Nodup := List.nodup_cons.mpr ⟨List.not_mem_nil, .nil⟩
  exact climbs_of_met hup h hnodup nofun nofun (Nat.lt_succ_self p.declarations.size)

/-! ## Chains of parents -/

/-- The chain of parents of a declaration ends with this parent, which is no
declaration. -/
inductive EndsIn (p : Program) : DeclId → DeclParent → Prop
  | file {id : DeclId} {file : FileId} (h : p.parent? id = some (.file file)) :
    EndsIn p id (.file file)
  | package {id : DeclId} {name : String} (h : p.parent? id = some (.package name)) :
    EndsIn p id (.package name)
  | up {id parent : DeclId} {last : DeclParent} (h : p.parent? id = some (.decl parent))
    (rest : EndsIn p parent last) : EndsIn p id last

def packageAt? (p : Program) : DeclParent → Option String
  | .file file => (p.file? file).map (·.package)
  | .package name => some name
  | .decl _ => none

/-- The chain of parents of a declaration ends in this package. -/
def LiesIn (p : Program) (id : DeclId) (package : String) : Prop :=
  ∃ last, p.EndsIn id last ∧ p.packageAt? last = some package

theorem parent?_of_decl? {d : Declaration} (h : p.decl? id = some d) :
    p.parent? id = some d.parent := by
  rw [parent?, h, Option.map_some]

theorem around?_of_decl {parent : DeclId} (h : p.parent? id = some (.decl parent)) :
    p.around? id = some parent := by
  rw [around?, h]

theorem EndsIn.declares {last : DeclParent} (h : p.EndsIn id last) : p.Declares id := by
  cases h with
  | file h => exact declares_of_parent? h
  | package h => exact declares_of_parent? h
  | up h => exact declares_of_parent? h

theorem EndsIn.climbs {last : DeclParent} (h : p.EndsIn id last) :
    ∃ n, Climbs p.around? id n := by
  induction h with
  | file h => exact ⟨0, .top (by rw [around?, h])⟩
  | package h => exact ⟨0, .top (by rw [around?, h])⟩
  | up h _ ih =>
    obtain ⟨n, hn⟩ := ih
    exact ⟨n + 1, .step (around?_of_decl h) hn⟩

theorem endsIn_of_climbs (hp : p.Closed) (hid : p.Declares id) {n : Nat}
    (h : Climbs p.around? id n) : ∃ last, p.EndsIn id last := by
  induction h with
  | @top id hnone =>
    obtain ⟨d, hd⟩ := Option.isSome_iff_exists.mp hid
    have hparent : p.parent? id = some d.parent := parent?_of_decl? hd
    cases hkind : d.parent with
    | file file => exact ⟨_, .file (hkind ▸ hparent)⟩
    | package name => exact ⟨_, .package (hkind ▸ hparent)⟩
    | decl parent => cases hnone.symm.trans (around?_of_decl (hkind ▸ hparent))
  | @step id next n hlink _ ih =>
    obtain ⟨last, hlast⟩ := ih (hp id next hlink)
    refine ⟨last, .up ?_ hlast⟩
    unfold around? at hlink
    split at hlink
    · next parent hparent => exact Option.some.inj hlink ▸ hparent
    · cases hlink

/-! ## Files -/

/-- With one link less to go, the walk still has steps enough. -/
theorem fileOf?_of_decl {parent : DeclId} (h : p.parent? id = some (.decl parent)) :
    p.fileOf? id = p.fileOf? parent := by
  obtain ⟨next, rfl, hmoves⟩ := isWalk_fileWithin.moves id parent (around?_of_decl h)
  have hstable := isWalk_fileWithin.stable declares_of_around? (Nat.le_succ p.walkLimit) id
  exact hstable.symm.trans (hmoves p.walkLimit)

theorem fileOf?_of_file {file : FileId} (h : p.parent? id = some (.file file)) :
    p.fileOf? id = some file := by
  obtain ⟨d, hd, hparent⟩ := Option.map_eq_some_iff.mp h
  simp only [fileOf?, walkLimit, fileWithin, hd, hparent]

theorem endsIn_of_fileWithin {steps : Nat} {file : FileId}
    (h : p.fileWithin steps id = some file) : p.EndsIn id (.file file) := by
  induction steps generalizing id with
  | zero => cases h
  | succ steps ih =>
    rw [fileWithin] at h
    split at h
    · cases h
    · next d hd =>
      have hparent : p.parent? id = some d.parent := parent?_of_decl? hd
      split at h
      · next parent hkind => exact .up (hkind ▸ hparent) (ih h)
      · next found hkind =>
        cases h
        exact .file (hkind ▸ hparent)
      · cases h

theorem fileOf?_eq_some {file : FileId} :
    p.fileOf? id = some file ↔ p.EndsIn id (.file file) := by
  refine ⟨endsIn_of_fileWithin, fun h => ?_⟩
  generalize hlast : DeclParent.file file = last at h
  induction h with
  | file h =>
    cases hlast
    exact fileOf?_of_file h
  | package => cases hlast
  | up h _ ih => exact (fileOf?_of_decl h).trans (ih hlast)

/-! ## Packages -/

theorem packageOf_of_decl {parent : DeclId} (h : p.parent? id = some (.decl parent)) :
    p.packageOf id = p.packageOf parent := by
  obtain ⟨next, rfl, hmoves⟩ := isWalk_packageWithin.moves id parent (around?_of_decl h)
  have hstable := isWalk_packageWithin.stable declares_of_around? (Nat.le_succ p.walkLimit) id
  exact hstable.symm.trans (hmoves p.walkLimit)

theorem packageOf_of_package {name : String} (h : p.parent? id = some (.package name)) :
    p.packageOf id = name := by
  obtain ⟨d, hd, hparent⟩ := Option.map_eq_some_iff.mp h
  simp only [packageOf, walkLimit, packageWithin, hd, hparent]

theorem packageOf_of_file {file : FileId} {entry : FileEntry}
    (h : p.parent? id = some (.file file)) (hfile : p.file? file = some entry) :
    p.packageOf id = entry.package := by
  obtain ⟨d, hd, hparent⟩ := Option.map_eq_some_iff.mp h
  simp only [packageOf, walkLimit, packageWithin, hd, hparent, hfile]

theorem LiesIn.packageOf_eq {package : String} (h : p.LiesIn id package) :
    p.packageOf id = package := by
  obtain ⟨last, hends, hpackage⟩ := h
  induction hends with
  | file h =>
    obtain ⟨entry, hfile, rfl⟩ := Option.map_eq_some_iff.mp hpackage
    exact packageOf_of_file h hfile
  | package h =>
    cases hpackage
    exact packageOf_of_package h
  | up h _ ih => exact (packageOf_of_decl h).trans (ih hpackage)

theorem liesIn_of_packageWithin {steps : Nat} (h : p.packageWithin steps id ≠ "") :
    p.LiesIn id (p.packageWithin steps id) := by
  induction steps generalizing id with
  | zero => exact absurd rfl h
  | succ steps ih =>
    cases hd : p.decl? id with
    | none => simp [packageWithin, hd] at h
    | some d =>
      have hparent : p.parent? id = some d.parent := parent?_of_decl? hd
      cases hkind : d.parent with
      | decl parent =>
        have hstep : p.packageWithin (steps + 1) id = p.packageWithin steps parent := by
          simp only [packageWithin, hd, hkind]
        rw [hstep] at h ⊢
        obtain ⟨last, hends, hpackage⟩ := ih h
        exact ⟨last, .up (hkind ▸ hparent) hends, hpackage⟩
      | file file =>
        cases hfile : p.file? file with
        | none => simp [packageWithin, hd, hkind, hfile] at h
        | some entry =>
          refine ⟨_, .file (hkind ▸ hparent), ?_⟩
          simp only [packageAt?, hfile, packageWithin, hd, hkind, Option.map_some]
      | package name =>
        refine ⟨_, .package (hkind ▸ hparent), ?_⟩
        simp only [packageAt?, packageWithin, hd, hkind]

/-! ## Chains of classes -/

/-- The names of a class and of all classes around it, from the outermost. -/
inductive NestsIn (p : Program) : DeclId → List String → Prop
  | outermost {id : DeclId} {c : ClassDecl} (hclass : p.class? id = some c)
    (h : p.parentClass? id = none) : NestsIn p id [c.name]
  | inner {id outer : DeclId} {c : ClassDecl} {names : List String}
    (hclass : p.class? id = some c) (h : p.parentClass? id = some outer)
    (rest : NestsIn p outer names) : NestsIn p id (names ++ [c.name])

theorem isClass_iff : p.isClass id = true ↔ ∃ c, p.class? id = some c := Option.isSome_iff_exists

theorem outerClass?_of_class? {c : ClassDecl} (h : p.class? id = some c) :
    p.outerClass? id = p.parentClass? id := if_pos (isClass_iff.mpr ⟨c, h⟩)

theorem NestsIn.isClass {names : List String} (h : p.NestsIn id names) : p.isClass id = true := by
  cases h with
  | outermost hclass => exact isClass_iff.mpr ⟨_, hclass⟩
  | inner hclass => exact isClass_iff.mpr ⟨_, hclass⟩

theorem NestsIn.climbs {names : List String} (h : p.NestsIn id names) :
    ∃ n, Climbs p.outerClass? id n := by
  induction h with
  | outermost hclass h => exact ⟨0, .top ((outerClass?_of_class? hclass).trans h)⟩
  | inner hclass h _ ih =>
    obtain ⟨n, hn⟩ := ih
    exact ⟨n + 1, .step ((outerClass?_of_class? hclass).trans h) hn⟩

theorem isClass_of_parentClass? {outer : DeclId} (h : p.parentClass? id = some outer) :
    p.isClass outer = true := by
  obtain ⟨d, hd, h⟩ := Option.bind_eq_some_iff.mp h
  split at h
  · split at h
    · next hclass => exact Option.some.inj h ▸ hclass
    · cases h
  · cases h

theorem nestsIn_of_climbs (hclass : p.isClass id = true) {n : Nat}
    (h : Climbs p.outerClass? id n) : ∃ names, p.NestsIn id names := by
  induction h with
  | top h =>
    obtain ⟨c, hc⟩ := isClass_iff.mp hclass
    exact ⟨_, .outermost hc ((outerClass?_of_class? hc).symm.trans h)⟩
  | step h _ ih =>
    obtain ⟨c, hc⟩ := isClass_iff.mp hclass
    have houter := (outerClass?_of_class? hc).symm.trans h
    obtain ⟨names, hnames⟩ := ih (isClass_of_parentClass? houter)
    exact ⟨_, .inner hc houter hnames⟩

theorem chainWithin_other (h : p.class? id = none) (steps : Nat) (inner : List String) :
    p.chainWithin steps inner id = none := by
  cases steps with
  | zero => rfl
  | succ steps =>
    cases hd : p.decl? id with
    | none => simp [chainWithin, hd]
    | some d =>
      cases hkind : d.kind
      case «class» c => simp [class?, hd, hkind] at h
      all_goals simp [chainWithin, hd, hkind]

theorem chainWithin_class {c : ClassDecl} (h : p.class? id = some c) (steps : Nat)
    (inner : List String) : p.chainWithin (steps + 1) inner id =
      match p.parentClass? id with
      | some outer => p.chainWithin steps (c.name :: inner) outer
      | none => some (c.name :: inner) := by
  cases hd : p.decl? id with
  | none => simp [class?, hd] at h
  | some d =>
    cases hkind : d.kind
    case «class» own =>
      obtain rfl : own = c := by simpa [class?, hd, hkind] using h
      cases hparent : d.parent with
      | decl parent =>
        by_cases hclass : p.isClass parent = true <;>
          simp [chainWithin, parentClass?, hd, hkind, hparent, hclass]
      | file => simp [chainWithin, parentClass?, hd, hkind, hparent]
      | package => simp [chainWithin, parentClass?, hd, hkind, hparent]
    all_goals simp [class?, hd, hkind] at h

theorem nestsIn_of_chainWithin {steps : Nat} {inner chain : List String}
    (h : p.chainWithin steps inner id = some chain) :
    ∃ names, chain = names ++ inner ∧ p.NestsIn id names := by
  induction steps generalizing id inner with
  | zero => cases h
  | succ steps ih =>
    cases hclass : p.class? id with
    | none => cases h.symm.trans (chainWithin_other hclass _ _)
    | some c =>
      rw [chainWithin_class hclass] at h
      cases houter : p.parentClass? id with
      | none =>
        rw [houter] at h
        exact ⟨[c.name], (Option.some.inj h).symm, .outermost hclass houter⟩
      | some outer =>
        rw [houter] at h
        obtain ⟨names, rfl, hnames⟩ := ih h
        exact ⟨names ++ [c.name], by simp, .inner hclass houter hnames⟩

theorem NestsIn.chainWithin {names : List String} (h : p.NestsIn id names) (inner : List String) :
    p.chainWithin p.walkLimit inner id = some (names ++ inner) := by
  induction h generalizing inner with
  | outermost hclass h => rw [walkLimit, chainWithin_class hclass, h, List.singleton_append]
  | @inner id outer c names hclass h _ ih =>
    have hstable := isWalk_chainWithin.stable declares_of_outerClass? (Nat.le_succ p.walkLimit)
      (inner, id)
    calc p.chainWithin p.walkLimit inner id
      _ = p.chainWithin (p.walkLimit + 1) inner id := hstable.symm
      _ = p.chainWithin p.walkLimit (c.name :: inner) outer := by rw [chainWithin_class hclass, h]
      _ = some (names ++ [c.name] ++ inner) := by rw [ih, List.append_assoc, List.singleton_append]

/-- A class has a chain of names unless the classes around it run in a circle. -/
theorem classChain?_eq_some {names : List String} :
    p.classChain? id = some names ↔ p.NestsIn id names := by
  refine ⟨fun h => ?_, fun h => (h.chainWithin []).trans (by rw [List.append_nil])⟩
  obtain ⟨found, rfl, hfound⟩ := nestsIn_of_chainWithin h
  rwa [List.append_nil]

theorem classChain?_eq_none :
    p.classChain? id = none ↔ ¬p.isClass id = true ∨ Circles p.outerClass? id := by
  have hclimbs := climbs_iff_not_circles (declares_of_outerClass? (p := p)) id
  refine ⟨fun h => ?_, fun h => ?_⟩
  · by_contra hneither
    obtain ⟨hclass, hcircle⟩ := not_or.mp hneither
    obtain ⟨n, hn⟩ := hclimbs.mpr hcircle
    obtain ⟨names, hnames⟩ := nestsIn_of_climbs (not_not.mp hclass) hn
    cases h.symm.trans (classChain?_eq_some.mpr hnames)
  · refine Option.eq_none_iff_forall_ne_some.mpr fun names hnames => ?_
    have hnests := classChain?_eq_some.mp hnames
    rcases h with hclass | hcircle
    · exact hclass hnests.isClass
    · exact hclimbs.mp hnests.climbs hcircle

/-! ## Checked programs -/

theorem packageAt?_isSome {d : Document} (h : ofDocument d = .ok p) {last : DeclParent}
    (hends : p.EndsIn id last) : (p.packageAt? last).isSome := by
  induction hends with
  | file hparent =>
    rw [packageAt?, Option.isSome_map]
    exact file?_isSome_of_parent? h hparent
  | package => rfl
  | up _ _ ih => exact ih

/-- Every chain of parents that does not run in a circle ends in a package. -/
theorem liesIn_iff {d : Document} (h : ofDocument d = .ok p) (package : String) :
    p.LiesIn id package ↔
      p.Declares id ∧ ¬Circles p.around? id ∧ p.packageOf id = package := by
  have hclimbs := climbs_iff_not_circles (declares_of_around? (p := p)) id
  refine ⟨fun hlies => ?_, ?_⟩
  · obtain ⟨last, hends, hpackage⟩ := hlies
    exact ⟨hends.declares, hclimbs.mp hends.climbs, LiesIn.packageOf_eq ⟨last, hends, hpackage⟩⟩
  · rintro ⟨hdeclares, hcircle, rfl⟩
    obtain ⟨n, hn⟩ := hclimbs.mpr hcircle
    obtain ⟨last, hends⟩ := endsIn_of_climbs (closed_ofDocument h) hdeclares hn
    obtain ⟨package, hpackage⟩ := Option.isSome_iff_exists.mp (packageAt?_isSome h hends)
    have hlies : p.LiesIn id package := ⟨last, hends, hpackage⟩
    exact hlies.packageOf_eq ▸ hlies

theorem packageOf_eq_empty {d : Document} (h : ofDocument d = .ok p) :
    p.packageOf id = "" ↔ p.LiesIn id "" ∨ ¬p.Declares id ∨ Circles p.around? id := by
  refine ⟨fun hempty => ?_, ?_⟩
  · by_contra hnone
    obtain ⟨hlies, hchain⟩ := not_or.mp hnone
    obtain ⟨hdeclares, hcircle⟩ := not_or.mp hchain
    exact hlies ((liesIn_iff h "").mpr ⟨not_not.mp hdeclares, hcircle, hempty⟩)
  · rintro (hlies | hchain)
    · exact hlies.packageOf_eq
    · by_contra hpackage
      obtain ⟨hdeclares, hcircle, -⟩ := (liesIn_iff h _).mp (liesIn_of_packageWithin hpackage)
      rcases hchain with hmissing | hcircles
      · exact hmissing hdeclares
      · exact hcircle hcircles

theorem fqName?_eq_some {name : String} :
    p.fqName? id = some name ↔ ∃ names, p.NestsIn id names ∧
      qualify (p.packageOf id) (".".intercalate names) = name := by
  simp only [fqName?, Option.map_eq_some_iff, classChain?_eq_some]

theorem binaryName?_eq_some {name : String} :
    p.binaryName? id = some name ↔ ∃ names, p.NestsIn id names ∧
      qualify (p.packageOf id) ("$".intercalate names) = name := by
  simp only [binaryName?, Option.map_eq_some_iff, classChain?_eq_some]

/-- The walks of a checked program find what stands at the end of the unbounded chains
of parents and of classes, and they find nothing only where there is no such end. -/
theorem walks_exact {d : Document} (h : ofDocument d = .ok p) (id : DeclId) :
    (∀ file, p.fileOf? id = some file ↔ p.EndsIn id (.file file)) ∧
    (∀ package, p.LiesIn id package ↔
      p.Declares id ∧ ¬Circles p.around? id ∧ p.packageOf id = package) ∧
    (p.packageOf id = "" ↔ p.LiesIn id "" ∨ ¬p.Declares id ∨ Circles p.around? id) ∧
    (p.fqName? id = none ↔ ¬p.isClass id = true ∨ Circles p.outerClass? id) ∧
    (p.binaryName? id = none ↔ ¬p.isClass id = true ∨ Circles p.outerClass? id) ∧
    (∀ name, p.fqName? id = some name ↔ ∃ names, p.NestsIn id names ∧
      qualify (p.packageOf id) (".".intercalate names) = name) ∧
    (∀ name, p.binaryName? id = some name ↔ ∃ names, p.NestsIn id names ∧
      qualify (p.packageOf id) ("$".intercalate names) = name) := by
  refine ⟨fun _ => fileOf?_eq_some, liesIn_iff h, packageOf_eq_empty h, ?_, ?_,
    fun _ => fqName?_eq_some, fun _ => binaryName?_eq_some⟩
  · exact Option.map_eq_none_iff.trans classChain?_eq_none
  · exact Option.map_eq_none_iff.trans classChain?_eq_none

/-- A class in a function of a nested class, and two classes that are in each other. -/
def tangled : Document :=
  { files := [{ path := "a.kt", package := "app", declarations := [⟨0⟩] }]
    declarations :=
      [{ parent := .file ⟨0⟩, kind := .class { name := "Outer", members := [⟨1⟩] } },
        { parent := .decl ⟨0⟩, kind := .class { name := "Inner", members := [⟨2⟩] } },
        { parent := .decl ⟨1⟩, kind := .function { name := "f", returnType := .error "" } },
        { parent := .decl ⟨2⟩, kind := .class { name := "Local" } },
        { parent := .decl ⟨5⟩, kind := .class { name := "Tick", members := [⟨5⟩] } },
        { parent := .decl ⟨4⟩, kind := .class { name := "Tock", members := [⟨4⟩] } }] }

theorem walks_exact_tangled : ∃ p, ofDocument tangled = .ok p ∧
    p.EndsIn ⟨3⟩ (.file ⟨0⟩) ∧ p.LiesIn ⟨3⟩ "app" ∧
    p.fqName? ⟨3⟩ = some "app.Local" ∧ p.binaryName? ⟨1⟩ = some "app.Outer$Inner" ∧
    Circles p.outerClass? ⟨4⟩ := by
  have hall : (ofDocument tangled).toOption.any (fun p =>
      p.fileOf? ⟨3⟩ == some ⟨0⟩ && p.packageOf ⟨3⟩ == "app" && p.isClass ⟨4⟩ &&
        p.fqName? ⟨3⟩ == some "app.Local" && p.binaryName? ⟨1⟩ == some "app.Outer$Inner" &&
        p.fqName? ⟨4⟩ == none) = true := by decide +kernel
  cases hd : ofDocument tangled with
  | error e =>
    rw [hd] at hall
    cases hall
  | ok p =>
    rw [hd] at hall
    simp only [Except.toOption, Option.any_some, Bool.and_eq_true, beq_iff_eq] at hall
    obtain ⟨⟨⟨⟨⟨hfile, hpackage⟩, hclass⟩, hlocal⟩, hinner⟩, hcircle⟩ := hall
    obtain ⟨hfiles, hlies, -⟩ := walks_exact hd ⟨3⟩
    have hends := (hfiles _).mp hfile
    obtain ⟨-, -, -, hnone, -⟩ := walks_exact hd ⟨4⟩
    refine ⟨p, rfl, hends, ?_, hlocal, hinner, ?_⟩
    · have hnowhere : ¬Circles p.around? ⟨3⟩ :=
        (climbs_iff_not_circles declares_of_around? _).mp hends.climbs
      exact (hlies _).mpr ⟨hends.declares, hnowhere, hpackage⟩
    · exact (hnone.mp hcircle).resolve_left fun h => h hclass

end Program

end IrFacts
