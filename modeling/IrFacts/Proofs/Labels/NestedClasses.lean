import IrFacts.Proofs.Types.SameLabel

/-!
# Labels of nested classes

A class is named after the classes around it. A class in a function begins a new
chain of names, so its label says nothing of the function. Two classes of a file
have one label just when the names along their chains agree, and then the chains
begin in different places.
-/

set_option autoImplicit false

namespace IrFacts

open Extract

theorem join_inj {c : Char} {names others : List String} (hn : ∀ name ∈ names, c ∉ name.toList)
    (ho : ∀ name ∈ others, c ∉ name.toList) (hnames : names ≠ []) (hothers : others ≠ [])
    (h : (String.singleton c).intercalate names = (String.singleton c).intercalate others) :
    names = others := by
  have hsplit {names : List String} (hn : ∀ name ∈ names, c ∉ name.toList) (hne : names ≠ []) :
      ((String.singleton c).intercalate names).toList.splitOn c = names.map String.toList := by
    rw [String.toList_intercalate, String.toList_singleton]
    exact List.splitOn_intercalate c (by simpa using hn) (by simpa using hne)
  have hlists := hsplit hn hnames
  rw [h, hsplit ho hothers] at hlists
  exact (List.map_inj_right fun a b => String.toList_inj.mp).mp hlists.symm

namespace Program

variable {p : Program} {start start' : DeclParent} {names others : List String} {id other : DeclId}
  {file : FileId} {steps : Nat}

/-! ## Chains of classes -/

/-- Classes of these names, each a member of the one before it, lead to the class.
The first of them stands in `start`, which is no class. -/
inductive Chain (p : Program) : DeclParent → List String → DeclId → Prop where
  | first {id : DeclId} {d : Declaration} {c : ClassDecl} (hd : p.decl? id = some d)
      (hc : d.kind = .class c)
      (hstart : ∀ outer, d.parent = .decl outer → p.isClass outer = false) :
      Chain p d.parent [c.name] id
  | next {start : DeclParent} {names : List String} {outer id : DeclId} {d : Declaration}
      {c : ClassDecl} (h : Chain p start names outer) (hd : p.decl? id = some d)
      (hc : d.kind = .class c) (hparent : d.parent = .decl outer) :
      Chain p start (names ++ [c.name]) id

theorem isClass_of_kind {d : Declaration} {c : ClassDecl} (hd : p.decl? id = some d)
    (hc : d.kind = .class c) : p.isClass id = true := by
  simp [isClass, class?, hd, hc]

theorem Chain.isClass (h : p.Chain start names id) : p.isClass id = true := by
  cases h with
  | first hd hc _ => exact isClass_of_kind hd hc
  | next _ hd hc _ => exact isClass_of_kind hd hc

theorem Chain.ne_nil (h : p.Chain start names id) : names ≠ [] := by
  cases h <;> simp

theorem Chain.unique (h : p.Chain start names id) (k : p.Chain start' others id) :
    start = start' ∧ names = others := by
  induction h generalizing start' others with
  | first hd hc hstart =>
    cases k with
    | first hd' hc' _ =>
      cases hd.symm.trans hd'
      cases hc.symm.trans hc'
      exact ⟨rfl, rfl⟩
    | next k hd' _ hparent =>
      cases hd.symm.trans hd'
      exact absurd k.isClass (by simp [hstart _ hparent])
  | next h hd hc hparent ih =>
    cases k with
    | first hd' _ hstart =>
      cases hd.symm.trans hd'
      exact absurd h.isClass (by simp [hstart _ hparent])
    | next k hd' hc' hparent' =>
      cases hd.symm.trans hd'
      cases hc.symm.trans hc'
      cases hparent.symm.trans hparent'
      obtain ⟨rfl, rfl⟩ := ih k
      exact ⟨rfl, rfl⟩

/-- Classes in one parent have different names. -/
def SiblingsDiffer (p : Program) : Prop :=
  ∀ a b c e, p.class? a = some c → p.class? b = some e → p.parent? a = p.parent? b →
    c.name = e.name → a = b

/-- No two declarations in one parent have the same name. -/
def NamesDiffer (d e : Declaration) : Prop := d.parent = e.parent → d.kind.name? ≠ e.kind.name?

instance : DecidableRel NamesDiffer := fun d e =>
  inferInstanceAs (Decidable (d.parent = e.parent → d.kind.name? ≠ e.kind.name?))

theorem siblingsDiffer_of_pairwise (h : p.declarations.toList.Pairwise NamesDiffer) :
    p.SiblingsDiffer := by
  intro a b c e ha hb hparent hname
  obtain ⟨d, hd, hc⟩ := decl_of_class? ha
  obtain ⟨d', hd', he⟩ := decl_of_class? hb
  have hparents : d.parent = d'.parent := by simpa [parent?, hd, hd'] using hparent
  have hnames : d.kind.name? = d'.kind.name? := by simp [hc, he, DeclKind.name?, hname]
  obtain ⟨hi, hid⟩ := Array.getElem?_eq_some_iff.mp hd
  obtain ⟨hj, hjd⟩ := Array.getElem?_eq_some_iff.mp hd'
  rw [List.pairwise_iff_getElem] at h
  rcases Nat.lt_trichotomy a.index.toNat b.index.toNat with hlt | heq | hlt
  · have hdiffer := h _ _ hi hj hlt
    simp only [Array.getElem_toList, hid, hjd] at hdiffer
    exact absurd hnames (hdiffer hparents)
  · obtain ⟨a⟩ := a
    obtain ⟨b⟩ := b
    exact congrArg DeclId.mk (UInt32.toNat_inj.mp heq)
  · have hdiffer := h _ _ hj hi hlt
    simp only [Array.getElem_toList, hid, hjd] at hdiffer
    exact absurd hnames.symm (hdiffer hparents.symm)

/-- Where siblings differ, a chain leads to one class only. -/
theorem Chain.target_unique (hp : p.SiblingsDiffer) (h : p.Chain start names id)
    (k : p.Chain start names other) : id = other := by
  induction h generalizing other with
  | @first id d c hd hc _ =>
    generalize hnames : [c.name] = others at k
    generalize hparents : d.parent = start at k
    cases k with
    | @first _ e c' hd' hc' _ =>
      refine hp id other c c' ?_ ?_ ?_ (List.singleton_inj.mp hnames)
      · simp [class?, hd, hc]
      · simp [class?, hd', hc']
      · simp [parent?, hd, hd', hparents]
    | next k _ _ _ =>
      have hpos := List.length_pos_iff.mpr k.ne_nil
      have hlength := congrArg List.length hnames
      simp only [List.length_append, List.length_singleton] at hlength
      omega
  | @next start names outer id d c h hd hc hparent ih =>
    generalize hnames : names ++ [c.name] = others at k
    cases k with
    | first _ _ _ =>
      have hpos := List.length_pos_iff.mpr h.ne_nil
      have hlength := congrArg List.length hnames
      simp only [List.length_append, List.length_singleton] at hlength
      omega
    | @next _ _ outer' _ e c' k hd' hc' hparent' =>
      obtain ⟨rfl, hname⟩ := List.append_inj' hnames rfl
      obtain rfl := ih k
      refine hp id other c c' ?_ ?_ ?_ (List.singleton_inj.mp hname)
      · simp [class?, hd, hc]
      · simp [class?, hd', hc']
      · simp [parent?, hd, hd', hparent, hparent']

/-! ## Names along a chain -/

/-- In a file, the walk to the outermost class is over before the one to the file. -/
theorem chain_of_fileWithin (hclass : p.isClass id = true)
    (hfile : p.fileWithin steps id = some file) : ∃ start names, p.Chain start names id ∧
      ∀ inner, p.chainWithin steps inner id = some (names ++ inner) := by
  induction steps generalizing id with
  | zero => cases hfile
  | succ steps ih =>
    obtain ⟨c, hc⟩ := Option.isSome_iff_exists.mp hclass
    obtain ⟨d, hd, hkind⟩ := decl_of_class? hc
    simp only [fileWithin, hd] at hfile
    have houtermost (hstart : ∀ outer, d.parent = .decl outer → p.isClass outer = false) :
        ∃ start names, p.Chain start names id ∧
          ∀ inner, p.chainWithin (steps + 1) inner id = some (names ++ inner) := by
      refine ⟨_, _, .first hd hkind hstart, fun inner => ?_⟩
      simp only [chainWithin, hd, hkind]
      split
      · next outer houter =>
        rw [hstart outer houter]
        rfl
      · rfl
    cases hparent : d.parent with
    | file _ => exact houtermost fun _ h => by simp [hparent] at h
    | package _ => exact houtermost fun _ h => by simp [hparent] at h
    | decl outer =>
      rw [hparent] at hfile
      cases houter : p.isClass outer with
      | false =>
        refine houtermost fun other h => ?_
        cases hparent.symm.trans h
        exact houter
      | true =>
        obtain ⟨start, names, hchain, hnames⟩ := ih houter hfile
        refine ⟨start, _, hchain.next hd hkind hparent, fun inner => ?_⟩
        simp [chainWithin, hd, hkind, hparent, houter, hnames]

theorem packageWithin_of_fileWithin (h : p.fileWithin steps id = some file) :
    p.packageWithin steps id = ((p.file? file).map (·.package)).getD "" := by
  induction steps generalizing id with
  | zero => cases h
  | succ steps ih =>
    cases hd : p.decl? id with
    | none => simp [fileWithin, hd] at h
    | some d =>
      simp only [fileWithin, hd] at h
      simp only [packageWithin, hd]
      cases hparent : d.parent with
      | decl parent =>
        rw [hparent] at h
        exact ih h
      | file other =>
        rw [hparent] at h
        cases h
        cases hf : p.file? file <;> simp [hf]
      | package name =>
        rw [hparent] at h
        cases h

theorem nameInKeys_of_file (hclass : p.isClass id = true) (hfile : p.fileOf? id = some file) :
    ∃ start names, p.Chain start names id ∧ p.nameInKeys id =
      qualify (((p.file? file).map (·.package)).getD "") ("$".intercalate names) := by
  obtain ⟨start, names, hchain, hnames⟩ := chain_of_fileWithin hclass hfile
  refine ⟨start, names, hchain, ?_⟩
  have hwhole : p.classChain? id = some names := by simp [classChain?, hnames]
  simp [nameInKeys, binaryName?, hwhole, packageOf, packageWithin_of_fileWithin hfile]

/-- No class has the sign in its name that stands between the names of a chain. -/
def PlainChains (p : Program) : Prop :=
  ∀ d ∈ p.declarations, ∀ c, d.kind = .class c → '$' ∉ c.name.toList

theorem Chain.plain (hp : p.PlainChains) (h : p.Chain start names id) :
    ∀ name ∈ names, '$' ∉ name.toList := by
  induction h with
  | first hd hc _ =>
    intro name hname
    obtain rfl := List.mem_singleton.mp hname
    exact hp _ (Array.mem_of_getElem? hd) _ hc
  | next h hd hc _ ih =>
    intro name hname
    rcases List.mem_append.mp hname with hname | hname
    · exact ih name hname
    · obtain rfl := List.mem_singleton.mp hname
      exact hp _ (Array.mem_of_getElem? hd) _ hc

theorem qualify_inj {package a b : String} (h : qualify package a = qualify package b) :
    a = b := by
  unfold qualify at h
  split at h
  · exact h
  · exact String.append_right_inj _ |>.mp h

theorem nameInKeys_eq_iff (hp : p.PlainChains) (hclass : p.isClass id = true)
    (hclass' : p.isClass other = true) (hfile : p.fileOf? id = some file)
    (hfile' : p.fileOf? other = some file) (h : p.Chain start names id)
    (k : p.Chain start' others other) :
    p.nameInKeys id = p.nameInKeys other ↔ names = others := by
  obtain ⟨_, _, hchain, hname⟩ := nameInKeys_of_file hclass hfile
  obtain ⟨rfl, rfl⟩ := h.unique hchain
  obtain ⟨_, _, hchain', hname'⟩ := nameInKeys_of_file hclass' hfile'
  obtain ⟨rfl, rfl⟩ := k.unique hchain'
  rw [hname, hname']
  constructor
  · exact fun he => join_inj (h.plain hp) (k.plain hp) h.ne_nil k.ne_nil (qualify_inj he)
  · rintro rfl
    rfl

end Program

/-! ## Labels -/

namespace Extract

variable {p : Program} {s s' : Session} {id : DeclId} {l : Label}

theorem ends_classSource {π : Projection} :
    Ends p s (π.classSource id) l s' ↔ Ends p s (labelFor ("class;" ++ p.nameInKeys id)) l s' := by
  have hname {t : Session} {name : String} :
      Ends p s (π.instanceName id []) name t ↔ name = p.nameInKeys id ∧ t = s :=
    ends_read_bind.trans ends_pure
  unfold Projection.classSource
  rw [ends_bind]
  constructor
  · rintro ⟨name, t, h, hlabel⟩
    obtain ⟨rfl, rfl⟩ := hname.mp h
    exact hlabel
  · exact fun h => ⟨_, s, hname.mpr ⟨rfl, rfl⟩, h⟩

end Extract

namespace Request

variable {p : Program} {a b : DeclId} {file : FileId}

/-- In any store, with any requests between them, two classes of a file get labels. They
are the same just when the names along their chains agree, which they do not where the
chains begin in one place: in the file, in one function or in another declaration. -/
theorem classes_apart (hp : p.PlainChains) (hsiblings : p.SiblingsDiffer)
    (ha : p.isClass a = true) (hb : p.isClass b = true) (hfa : p.fileOf? a = some file)
    (hfb : p.fileOf? b = some file) (hne : a ≠ b) :
    ∃ start names start' others, p.Chain start names a ∧ p.Chain start' others b ∧
      ∀ s : Session, s.Reachable → ∀ fuel, ∃ l s₁,
        Ends p s ((projection fuel).classSource a) l s₁ ∧
        ∀ typeFuel walkFuel requests s₂,
          Ends p s₁ (run (walk (projection typeFuel) walkFuel) requests) () s₂ → ∃ m s₃,
            Ends p s₂ ((projection fuel).classSource b) m s₃ ∧ (l = m ↔ names = others) ∧
              (start = start' → l ≠ m) := by
  obtain ⟨start, names, hchain, -⟩ := Program.nameInKeys_of_file ha hfa
  obtain ⟨start', others, hchain', -⟩ := Program.nameInKeys_of_file hb hfb
  refine ⟨start, names, start', others, hchain, hchain', fun s hs fuel => ?_⟩
  have hends (t : Session) (id : DeclId) :
      ∃ l t', Ends p t ((projection fuel).classSource id) l t' :=
    ⟨_, _, ends_classSource.mpr ((ends_labelFor none).mpr ⟨rfl, rfl⟩)⟩
  obtain ⟨l, s₁, h₁⟩ := hends s a
  refine ⟨l, s₁, h₁, fun typeFuel walkFuel requests s₂ hbetween => ?_⟩
  obtain ⟨m, s₃, h₂⟩ := hends s₂ b
  have hle : s₁.Le s₃ := (grows_run typeFuel walkFuel requests _ _ _ hbetween).trans
    ((asks_classSource (stable_projection p fuel) b).grows _ _ _ h₂)
  have htable : s₃.table.Faithful :=
    (((hs.of_ends (asks_classSource (stable_projection p fuel) a).plain h₁).of_ends
      (plain_run typeFuel walkFuel requests) hbetween).of_ends
      (asks_classSource (stable_projection p fuel) b).plain h₂).faithful
  have hl := hle.find? _ _ (bound_of_labelFor (ends_classSource.mp h₁)).2
  have hm := (bound_of_labelFor (ends_classSource.mp h₂)).2
  have hiff : l = m ↔ names = others := by
    rw [← Program.nameInKeys_eq_iff hp ha hb hfa hfb hchain hchain']
    constructor
    · rintro rfl
      exact String.append_right_inj _ |>.mp (htable.distinct _ _ _ hl hm)
    · intro hname
      rw [hname] at hl
      exact Option.some.inj (hl.symm.trans hm)
  refine ⟨m, s₃, h₂, hiff, ?_⟩
  rintro rfl hlabels
  obtain rfl := hiff.mp hlabels
  exact hne (hchain.target_unique hsiblings hchain')

/-- `class A { class L }`, and a class `L` in each of the functions `f` and `g`. -/
def locals : Program :=
  let inFile (kind : DeclKind) : Declaration := { parent := .file ⟨0⟩, kind }
  let nested (outer : UInt32) : Declaration :=
    { parent := .decl ⟨outer⟩, kind := .class { name := "L" } }
  { files := #[{ path := "a.kt", package := "lib", declarations := [⟨0⟩, ⟨1⟩, ⟨2⟩] }]
    declarations :=
      #[inFile (.class { name := "A" }),
        inFile (.function { name := "f", returnType := .ofClass ⟨0⟩ [] }),
        inFile (.function { name := "g", returnType := .ofClass ⟨0⟩ [] }),
        nested 0, nested 1, nested 2]
    classIndex := [("lib.A", ⟨0⟩)] }

theorem locals_plain : ∀ d ∈ locals.declarations, ∀ c, d.kind = .class c →
    ∀ sign ∈ ['.', '$', ';', '\x7b', '\x7d'], sign ∉ c.name.toList := by
  simp [locals]

/-- The class in `A` and the one in `f`. -/
theorem classes_apart_locals :
    let new : Session :=
      { file := .source (.ofSink .unbounded) "a.kt" .single, counter := {}, queue := {} }
    ∃ start names start' others, locals.Chain start names ⟨3⟩ ∧ locals.Chain start' others ⟨4⟩ ∧
      ∃ l s₁ s₂ m s₃, Ends locals new ((projection 9).classSource ⟨3⟩) l s₁ ∧
        Ends locals s₁ (run (walk (projection 9) 9) [.modifier "final"]) () s₂ ∧
        Ends locals s₂ ((projection 9).classSource ⟨4⟩) m s₃ ∧ (l = m ↔ names = others) ∧
        (start = start' → l ≠ m) := by
  intro new
  have hplain : locals.PlainChains := fun d hd c hc =>
    locals_plain d hd c hc '$' (by decide)
  have hsiblings := Program.siblingsDiffer_of_pairwise (p := locals) (by decide +kernel)
  obtain ⟨start, names, start', others, hchain, hchain', happart⟩ :=
    classes_apart hplain hsiblings (show locals.isClass ⟨3⟩ = true by decide)
      (show locals.isClass ⟨4⟩ = true by decide) (show locals.fileOf? ⟨3⟩ = some ⟨0⟩ by decide)
      (by decide) (by decide)
  obtain ⟨l, s₁, h₁, hafter⟩ :=
    happart new ⟨new, .unbounded, "a.kt", some .single, [], rfl, rfl⟩ 9
  obtain ⟨_, s₂, h⟩ := ends_of_isOk (p := locals) (s := new)
    (m := (projection 9).classSource ⟨3⟩ >>= fun _ =>
      run (walk (projection 9) 9) [.modifier "final"]) (by decide +kernel)
  obtain ⟨_, _, hfirst, hbetween⟩ := ends_bind.mp h
  obtain ⟨rfl, rfl⟩ := ends_unique h₁ hfirst
  obtain ⟨m, s₃, h₂, hiff, hstarts⟩ := hafter 9 9 _ s₂ hbetween
  exact ⟨start, names, start', others, hchain, hchain', l, s₁, s₂, m, s₃, h₁, hbetween, h₂, hiff,
    hstarts⟩

/-- The classes in `f` and `g` share a label: a class in a function is named as if it
stood in the file. -/
theorem local_classes_share_label :
    let new : Session :=
      { file := .source (.ofSink .unbounded) "a.kt" .single, counter := {}, queue := {} }
    locals.declarations.toList.Pairwise Program.NamesDiffer ∧
      (∀ d ∈ locals.declarations, ∀ c, d.kind = .class c →
        ∀ sign ∈ ['.', '$', ';', '\x7b', '\x7d'], sign ∉ c.name.toList) ∧
      locals.isClass ⟨4⟩ = true ∧ locals.isClass ⟨5⟩ = true ∧
      locals.fileOf? ⟨4⟩ = some ⟨0⟩ ∧ locals.fileOf? ⟨5⟩ = some ⟨0⟩ ∧
      ∃ l s₁ s₂, Ends locals new ((projection 9).classSource ⟨4⟩) l s₁ ∧
        Ends locals s₁ ((projection 9).classSource ⟨5⟩) l s₂ := by
  intro new
  refine ⟨by decide +kernel, locals_plain, by decide, by decide, by decide, by decide, ?_⟩
  obtain ⟨⟨l, m⟩, _, h, hsame⟩ := ends_of_map (p := locals) (s := new)
    (m := (projection 9).classSource ⟨4⟩ >>= fun l =>
      (projection 9).classSource ⟨5⟩ >>= fun m => pure (l, m))
    (f := fun r => decide (r.1.1 = r.1.2)) (b := true) (by decide +kernel)
  obtain ⟨l, s₁, hl, h⟩ := ends_bind.mp h
  obtain ⟨m, s₂, hm, h⟩ := ends_bind.mp h
  cases (ends_pure.mp h).1
  obtain rfl : l = m := of_decide_eq_true hsame
  exact ⟨l, s₁, s₂, hl, hm⟩

end Request

end IrFacts
