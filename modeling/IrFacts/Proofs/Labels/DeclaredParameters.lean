import IrFacts.Proofs.Code.Scopes
import IrFacts.Proofs.Diagnostics.Counts
import IrFacts.Proofs.Labels.Recall
import IrFacts.Proofs.Run.AccountedCode
import IrFacts.Proofs.Types.Needs

/-!
# Type parameters are declared before they are mentioned

A type parameter gets its label where it is declared, and a mention of one that
has no label is reported. The account of declarations tells that there is nothing
to report as long as the walk passes no type before the type parameters that the
type needs.
-/

set_option autoImplicit false

namespace IrFacts

open Extract

/-! ## Declared type parameters -/

/-- The label of the type parameter is in the table, whatever its key turns out to be. -/
structure Program.Declared (p : Program) (t : LabelTable) (id : DeclId) : Prop where
  bound : ∀ {fuel u found u'}, t.Le u.table →
    Ends p u ((projection fuel).typeParameterKey? id) found u' →
      ∃ key l, found = some key ∧ t.find? key = some l

variable {p : Program} {s t : Session} {id : DeclId}

theorem Program.Declared.mono {t u : LabelTable} (h : p.Declared t id) (hle : t.Le u) :
    p.Declared u id := by
  refine ⟨fun {fuel v found v'} huv he => ?_⟩
  obtain ⟨key, l, hfound, hl⟩ := h.bound (hle.trans huv) he
  exact ⟨key, l, hfound, hle key l hl⟩

theorem Extract.isSome_typeParameterKey? {π : Projection} {found : Option String}
    (hid : (p.typeParameter? id).isSome) (h : Ends p s (π.typeParameterKey? id) found t) :
    ∃ key, found = some key := by
  obtain ⟨q, hq⟩ := Option.isSome_iff_exists.mp hid
  obtain ⟨d, hd, -⟩ := Program.decl_of_typeParameter? hq
  have h := ends_read_bind.mp h
  rw [hd, hq] at h
  obtain ⟨parent, u, -, h⟩ := ends_bind.mp h
  exact ⟨_, (ends_pure.mp h).1⟩

theorem Extract.declared_typeParameter {fuel : Nat} {l : Label}
    (hid : (p.typeParameter? id).isSome) (h : Ends p s ((projection fuel).typeParameter id) l t) :
    p.Declared t.table id := by
  obtain ⟨found, s₁, hfound, h⟩ := ends_bind.mp h
  obtain ⟨key, rfl⟩ := isSome_typeParameterKey? hid hfound
  obtain ⟨hle, hkey⟩ := bound_of_labelFor h
  refine ⟨fun {other u found u'} hu he => ?_⟩
  have more (n : Nat) (hn : n ≤ max fuel other) := (refines_projection p hn).typeParameterKey? id
  refine ⟨key, l, ?_, hkey⟩
  exact (asks_typeParameterKey? (stable_projection p (max fuel other)) id).recalls
    (more fuel (Nat.le_max_left ..) _ _ _ hfound) (hle.table.trans hu)
    (more other (Nat.le_max_right ..) _ _ _ he)

/-! ## The account of declarations -/

def Mark.needs (p : Program) : Mark → Set DeclId
  | .mention _ type => p.needs type
  | .borrow type => p.needs type
  | _ => ∅

/-- A type parameter without a label is reported. -/
def Event.Misses (e : Event) : Prop := ∃ key place, e = .report (.missingTypeParameter key) place

/-- When what is known is declared, and the marks ask for nothing that is not known by then,
nothing is missed, and what the marks declare is declared in the end. -/
def Event.Heeds (p : Program) (known : Set DeclId) (s : Session) (es : List Event)
    (ms : List Mark) : Prop :=
  ∀ more, known ⊆ more → (∀ id ∈ more, p.Declared s.table id) →
    InOrder Mark.declares (Mark.needs p) more ms →
      (∀ e ∈ es, ¬e.Misses) ∧
        ∀ id ∈ given Mark.declares ms, p.Declared (Event.run es s).table id

theorem Event.table_run_le (es : List Event) (s : Session) : s.table.Le (run es s).table :=
  fun _ _ hl => run_find? es hl

theorem Event.heeds_nil (p : Program) (known : Set DeclId) (s : Session) :
    Event.Heeds p known s [] [] := fun _ _ _ _ => ⟨nofun, by simp [given]⟩

theorem Event.Heeds.append {known : Set DeclId} {es fs : List Event} {ms ns : List Mark}
    (h : Event.Heeds p known s es ms) (k : Event.Heeds p known (Event.run es s) fs ns) :
    Event.Heeds p known s (es ++ fs) (ms ++ ns) := by
  intro more hmore hdeclared horder
  obtain ⟨hms, hns⟩ := inOrder_append_iff.mp horder
  obtain ⟨hes, hgiven⟩ := h more hmore hdeclared hms
  have hknown : ∀ id ∈ more ∪ given Mark.declares ms, p.Declared (Event.run es s).table id := by
    rintro id (hid | hid)
    · exact (hdeclared id hid).mono (Event.table_run_le es s)
    · exact hgiven id hid
  obtain ⟨hfs, hlast⟩ := k _ (hmore.trans Set.subset_union_left) hknown hns
  refine ⟨List.forall_mem_append.mpr ⟨hes, hfs⟩, fun id hid => ?_⟩
  rw [Event.run_append]
  rw [given_append] at hid
  rcases hid with hid | hid
  · exact (hgiven id hid).mono (Event.table_run_le fs _)
  · exact hlast id hid

theorem Event.heeds_of {known : Set DeclId} {es : List Event} {ms : List Mark}
    (hes : ∀ e ∈ es, ¬e.Misses) (hms : ∀ m ∈ ms, m.declares = ∅) :
    Event.Heeds p known s es ms := by
  refine fun _ _ _ _ => ⟨hes, ?_⟩
  rintro id ⟨m, hm, hid⟩
  rw [hms m hm] at hid
  exact nomatch hid

def Account.declaring (p : Program) (known : Set DeclId) : Account p where
  kept _ := False
  hidden _ := False
  grave problem := ∃ key, problem = .missingTypeParameter key
  Holds := Event.Heeds p known
  hidden_kept _ h := h
  kept_start := nofun
  kept_end := nofun
  kept_class _ h := h
  kept_file _ _ _ h := h
  grave_missing _ h := h
  nil := Event.heeds_nil p known
  append := Event.Heeds.append
  fact _ _ := Event.heeds_of (by simp [Event.Misses]) nofun
  lookup _ := Event.heeds_of (by simp [Event.Misses]) nofun
  report {s problem place} h := by
    refine Event.heeds_of (List.forall_mem_singleton.mpr ?_) nofun
    rintro ⟨key, other, he⟩
    cases he
    exact h ⟨key, rfl⟩
  other {s e} _ _ hreport := by
    refine Event.heeds_of (List.forall_mem_singleton.mpr ?_) nofun
    rintro ⟨key, place, rfl⟩
    exact hreport _ _ rfl
  row _ := Event.heeds_of (by simp [Event.Misses]) (List.forall_mem_singleton.mpr rfl)
  reach _ _ := Event.heeds_of nofun (List.forall_mem_singleton.mpr rfl)
  mention _ _ _ := Event.heeds_of nofun (List.forall_mem_singleton.mpr rfl)
  borrow _ _ := Event.heeds_of nofun (List.forall_mem_singleton.mpr rfl)

namespace Account

variable {known : Set DeclId} {v : Vocabulary p} {fuel : Nat}

/-- The complaint is of no concern: a type parameter that is known would have been found. -/
theorem passes_missing {key : String} {u : Session} (hid : id ∈ known)
    (hkey : Ends p s ((projection fuel).typeParameterKey? id) (some key) t)
    (hnone : t.table.find? key = none) (ht : t.Tidy (declaring p known).hidden)
    (h : Ends p t (complain (.missingTypeParameter key)) () u) :
    (declaring p known).Passes t [] u := by
  obtain ⟨place, w, hplace, hreport⟩ := ends_bind.mp h
  obtain ⟨⟨⟨es, ms, hrun, hms, -⟩, htidy, hfunction⟩, -⟩ :=
    quiet_unknownLocation (a := declaring p known) ht place w hplace
  obtain rfl := ends_reportAt.mp hreport
  refine ⟨⟨es ++ [.report (.missingTypeParameter key) place], ms, ?_, hms,
    fun more hmore hdeclared _ => ?_⟩, htidy.step nofun nofun, hfunction⟩
  · rw [Event.run_append, hrun]
    rfl
  · -- Asked for once more it is the same key, and a declared type parameter has it bound.
    obtain ⟨t', hagain, -⟩ := (asks_typeParameterKey? (stable_projection p fuel) id).again
      hkey (.refl t)
    obtain ⟨other, l, hother, hl⟩ :=
      (hdeclared id (hmore hid)).bound (fun _ _ hl => hl) hagain
    cases hother
    cases hnone.symm.trans hl

/-- A type parameter that is known has been declared, and so it is not missed. -/
theorem quiet_known (hπ : (declaring p known).Keeps v (projection fuel)) (hid : id ∈ known) :
    (declaring p known).Quiet s ((projection fuel).typeParameterUse id) Any := by
  intro hs l u he
  obtain ⟨found, t, hfound, he⟩ := ends_bind.mp he
  obtain ⟨hst, -⟩ := quiet_typeParameterKey? hπ id hs found t hfound
  suffices htu : (declaring p known).Passes t [] u from ⟨hst.trans htu, trivial⟩
  cases found with
  | none => exact (quiet_complain_placeholder (by simp) hst.tidy l u he).1
  | some key =>
    obtain ⟨label, t', hlabel, he⟩ := ends_bind.mp he
    obtain ⟨rfl, rfl⟩ := ends_find?.mp hlabel
    cases hkey : t'.table.find? key with
    | some label =>
      rw [hkey] at he
      obtain ⟨-, rfl⟩ := ends_pure.mp he
      exact .refl hst.tidy
    | none =>
      rw [hkey] at he
      obtain ⟨_, w, hcomplain, hl⟩ := ends_bind.mp he
      have hw := passes_missing hid hfound hkey hst.tidy hcomplain
      exact hw.trans (quiet_labelFor (fun h => h) hw.tidy l u hl).1

theorem copes_declaring (hp : p.PlainArrays) (known : Set DeclId) :
    (declaring p known).Copes (.within hp known) where
  classInstance hπ _ _ h s :=
    quiet_classInstanceStep hπ (fun _ h => h)
      (fun _ => Event.heeds_of (by simp [Event.Misses]) nofun) h
  array hπ _ h harray _ :=
    quiet_arrayType hπ (fun _ _ _ _ _ => quiet_arrayLabel hπ (fun h => h)
      (fun _ => Event.heeds_of (by simp [Event.Misses]) nofun) h harray) h
  typeParameter hπ _ hid s := quiet_known hπ hid

theorem keeps_declaring (hp : p.PlainArrays) (known : Set DeclId) (fuel : Nat) :
    (declaring p known).Keeps (.within hp known) (projection fuel) :=
  keeps_projection (copes_declaring hp known) fuel

/-- What the projection of a type is known to need it needs where the walk passes the type. -/
theorem walks_needs {α : Type} {m : Extract α} (mark : Mark) (hmark : mark.declares = ∅)
    (h : (declaring p (mark.needs p)).Quiet s m Any) :
    (declaring p ∅).Walks s m [.mark mark] Any := by
  intro hs r t he
  -- The same events, in the account where what the type needs is known from the start.
  obtain ⟨⟨⟨es, ms, hrun, hms, hes⟩, htidy, hfunction⟩, -⟩ := h hs r t he
  cases hms
  refine ⟨⟨⟨es, [mark], hrun, .mark .nil, fun more _ hdeclared horder => ?_⟩, htidy, hfunction⟩,
    trivial⟩
  rw [given_singleton, hmark]
  exact ⟨(hes more horder.1 hdeclared trivial).1, nofun⟩

theorem walks_declare (hπ : (declaring p ∅).Keeps v (projection fuel)) :
    (declaring p ∅).Walks s ((projection fuel).typeParameter id) (p.typeParameterItems id)
      (declaring p ∅).Told := by
  rw [Program.typeParameterItems_eq]
  split
  · next hid =>
    intro hs l t he
    obtain ⟨⟨⟨es, ms, hrun, hms, hes⟩, htidy, hfunction⟩, hl⟩ := quiet_typeParameter hπ id hs l t he
    cases hms
    refine ⟨⟨⟨es, [.declare id], hrun, .mark .nil, fun more hmore hdeclared _ => ?_⟩, htidy,
      hfunction⟩, hl⟩
    rw [given_singleton, hrun]
    refine ⟨(hes more hmore hdeclared trivial).1, fun other hother => ?_⟩
    obtain rfl : other = id := hother
    exact declared_typeParameter hid he
  · exact quiet_typeParameter hπ id

theorem follows_declaring (hp : p.PlainArrays) (fuel : Nat) :
    (declaring p ∅).Follows (.within hp ∅) (projection fuel) where
  toKeeps := keeps_declaring hp ∅ fuel
  mention c type primitives s := walks_needs (.mention c.scope type) rfl
    ((keeps_declaring hp (p.needs type) fuel).type Set.Subset.rfl primitives s)
  borrow type primitives s := walks_needs (.borrow type) rfl
    ((keeps_declaring hp (p.needs type) fuel).type Set.Subset.rfl primitives s)
  supertype c u id hid s := by
    have hhas : (Vocabulary.within hp (p.needs (.simple u))).Has
        (.simple { classifier := .ofClass id, arguments := u.arguments }) :=
      Vocabulary.like _ Set.Subset.rfl hid.symm rfl
    exact walks_needs (.mention c.scope (.simple u)) rfl
      ((keeps_declaring hp (p.needs (.simple u)) fuel).classInstance hhas s)
  typeParameter id s := walks_declare (keeps_declaring hp ∅ fuel)

end Account

/-! ## A whole file -/

/-- Every type parameter that is written in a type is one, and in scope there. -/
def Program.Scoped (p : Program) (ms : List Mark) : Prop :=
  ∀ scope type, .mention scope type ∈ ms → type.written ⊆ p.parametersIn scope

/-- What a mark needs of the type parameters that are not written where it stands. -/
def Mark.needsElsewhere (p : Program) : Mark → Set DeclId
  | .mention _ type => p.inherits type
  | .borrow type => p.needs type
  | _ => ∅

/-- By the time the walk passes a type, the type parameters that are written elsewhere and
that the type needs have been declared. -/
def Program.Timely (p : Program) (ms : List Mark) : Prop :=
  InOrder Mark.declares (Mark.needsElsewhere p) ∅ ms

theorem Unfolds.heeded {file : FileId} {ms : List Mark}
    (h : Unfolds p (p.fileItems ⟨false, []⟩ file) ms) (hscoped : p.Scoped ms)
    (htimely : p.Timely ms) : InOrder Mark.declares (Mark.needs p) ∅ ms := by
  refine (h.inOrder_file.union htimely).imp fun m hm => ?_
  cases m with
  | mention scope type =>
    rw [Mark.needs, Program.needs_eq]
    exact Set.union_subset_union_left _ (hscoped scope type hm)
  | borrow type => exact Set.subset_union_right
  | _ => exact Set.empty_subset _

theorem Problem.eq_of_site {problem : Problem} {key : String}
    (h : problem.site = (Problem.missingTypeParameter key).site) :
    ∃ other, problem = .missingTypeParameter other := by
  cases problem with
  | missingTypeParameter other => exact ⟨other, rfl⟩
  | _ => simp [Problem.site] at h

theorem Event.countOf_step {e : Event} (h : ¬e.Misses) (key : String) (s : Session) :
    (e.step s).counter.countOf (Problem.missingTypeParameter key).site =
      s.counter.countOf (Problem.missingTypeParameter key).site := by
  cases e with
  | report problem place =>
    have hne : (Problem.missingTypeParameter key).site ≠ problem.site := by
      intro hsite
      obtain ⟨other, rfl⟩ := Problem.eq_of_site hsite.symm
      exact h ⟨other, place, rfl⟩
    simp only [step, report_eq, Counter.countOf, Counter.accept]
    rw [Counter.lookup_increment_of_ne hne]
  | _ => rfl

theorem Event.countOf_run {es : List Event} (h : ∀ e ∈ es, ¬e.Misses) (key : String)
    (s : Session) : (run es s).counter.countOf (Problem.missingTypeParameter key).site =
      s.counter.countOf (Problem.missingTypeParameter key).site := by
  induction es generalizing s with
  | nil => rfl
  | cons e es ih =>
    rw [run, ih fun f hf => h f (List.mem_cons_of_mem _ hf),
      countOf_step (h e (List.mem_cons_self ..))]

namespace Walk

/-- When the type parameters that a file mentions are in scope, and those that its types need
from elsewhere are declared in time, none of them is reported as missing. -/
theorem extractFile_missesNone {sink : Trap.Sink} {path : String} {lines : LineTable}
    {counter : Counter} {queue : ClassQueue} {dependencies : Option (List DeclId)}
    {typeFuel walkFuel : Nat} {file : FileId} {ms : List Mark} {s' : Session}
    (hunfolds : Unfolds p (p.fileItems ⟨false, []⟩ file) ms) (hscoped : p.Scoped ms)
    (harrays : p.PlainArrays) (htimely : p.Timely ms)
    (h : Ends p { file := .source (.ofSink sink) path lines, counter, queue, dependencies }
      ((walk (projection typeFuel) walkFuel).extractFile file) () s') (key : String) :
    s'.counter.countOf (Problem.missingTypeParameter key).site =
      counter.countOf (Problem.missingTypeParameter key).site := by
  let s : Session := { file := .source (.ofSink sink) path lines, counter, queue, dependencies }
  have hfile : s.file = .ofPath (.ofSink sink) path (some lines) := rfl
  obtain ⟨-, -, es, -, -, rfl, -, hes⟩ := Account.holds_extractFile
    (Account.follows_declaring harrays typeFuel) hunfolds hfile rfl rfl h
  obtain ⟨hclean, -⟩ := hes ∅ Set.Subset.rfl nofun (hunfolds.heeded hscoped htimely)
  exact Event.countOf_run hclean key s

/-- A class that extends another one for its type parameter, and then a function that
returns it with an argument. -/
def larder : Program :=
  let parameter : IrType := .simple { classifier := .ofTypeParameter ⟨3⟩ }
  { files := #[{ path := "a.kt", declarations := [⟨0⟩, ⟨2⟩, ⟨4⟩, ⟨5⟩] }]
    declarations :=
      #[{ parent := .file ⟨0⟩
          kind := .class { name := "Shelf", kind := .interface, typeParameters := [⟨1⟩] } },
        { parent := .decl ⟨0⟩, kind := .typeParameter { name := "S", index := 0 } },
        { parent := .file ⟨0⟩
          kind := .class
            { name := "Jar"
              typeParameters := [⟨3⟩]
              superTypes := [.ofClass ⟨0⟩ [.projection .invariant parameter]] } },
        { parent := .decl ⟨2⟩, kind := .typeParameter { name := "T", index := 0 } },
        { parent := .file ⟨0⟩, kind := .class { name := "Jam" } },
        { parent := .file ⟨0⟩
          kind := .function
            { name := "fill"
              returnType := .ofClass ⟨2⟩ [.projection .invariant (.ofClass ⟨4⟩ [])] } }]
    classIndex := [("Shelf", ⟨0⟩), ("Jar", ⟨2⟩), ("Jam", ⟨4⟩)] }

theorem extractFile_missesNone_larder : ∃ ms s',
    Unfolds larder (larder.fileItems ⟨false, []⟩ ⟨0⟩) ms ∧ larder.Scoped ms ∧
    larder.PlainArrays ∧ larder.Timely ms ∧
    Ends larder { file := .source (.ofSink .unbounded) "a.kt" .single, counter := {}, queue := {} }
      ((walk (projection 9) 9).extractFile ⟨0⟩) () s' ∧
    ∀ key, s'.counter.countOf (Problem.missingTypeParameter key).site = 0 := by
  let parameter : IrType := .simple { classifier := .ofTypeParameter ⟨3⟩ }
  let shelf : IrType := .ofClass ⟨0⟩ [.projection .invariant parameter]
  let jar : IrType := .ofClass ⟨2⟩ [.projection .invariant (.ofClass ⟨4⟩ [])]
  let ms : List Mark := [.reach ⟨0⟩, .declare ⟨1⟩, .row "methods", .reach ⟨2⟩, .declare ⟨3⟩,
    .row "methods", .mention [⟨3⟩] shelf, .reach ⟨4⟩, .row "methods", .reach ⟨5⟩, .mention [] jar,
    .row "methods"]
  have hmarks : larder.unfold 99 (larder.fileItems ⟨false, []⟩ ⟨0⟩) = some ms := rfl
  have hunfolds : Unfolds larder (larder.fileItems ⟨false, []⟩ ⟨0⟩) ms := .of_unfold hmarks
  have hshelf : shelf.written ⊆ {⟨3⟩} := by
    rintro id ⟨w, hw, hid⟩
    simp only [shelf, parameter, IrType.ofClass, IrType.parts, SimpleType.parts,
      TypeArgument.partsOfAll, TypeArgument.parts, List.append_nil, List.mem_cons,
      List.not_mem_nil, or_false] at hw
    rcases hw with rfl | rfl <;> cases hid
    rfl
  have hjar : jar.written = ∅ := by
    simp [jar, IrType.written, IrType.ofClass, IrType.parts, SimpleType.parts,
      TypeArgument.partsOfAll, TypeArgument.parts]
  have hinherits (type : IrType) : larder.inherits type ⊆ {⟨3⟩} := by
    refine Program.inherits_subset (fun id c hc super hsuper => ?_) type
    obtain ⟨d, hd, hkind⟩ := Program.decl_of_class? hc
    have hmem := Array.mem_of_getElem? hd
    simp only [larder, List.mem_toArray, List.mem_cons, List.not_mem_nil, or_false] at hmem
    rcases hmem with rfl | rfl | rfl | rfl | rfl | rfl <;> cases hkind
    · cases hsuper
    · obtain rfl := List.mem_singleton.mp hsuper
      exact hshelf
    · cases hsuper
  have hscoped : larder.Scoped ms := by
    intro scope type hmem
    simp only [ms, List.mem_cons, List.not_mem_nil, or_false, Mark.mention.injEq, reduceCtorEq,
      false_or] at hmem
    rcases hmem with ⟨rfl, rfl⟩ | ⟨rfl, rfl⟩
    · exact hshelf.trans (by simp [Program.parametersIn]; decide)
    · rw [hjar]
      exact Set.empty_subset _
  have harrays : larder.PlainArrays := .of_none (by decide)
  have htimely : larder.Timely ms := by
    suffices hknown : ∀ type, larder.inherits type ⊆ {⟨3⟩, ⟨1⟩} by
      simp [Program.Timely, ms, InOrder, Mark.needsElsewhere, Mark.declares, hknown]
    exact fun type => (hinherits type).trans (by simp)
  obtain ⟨_, s', hends⟩ := ends_of_isOk (p := larder)
    (s := { file := .source (.ofSink .unbounded) "a.kt" .single, counter := {}, queue := {} })
    (m := (walk (projection 9) 9).extractFile ⟨0⟩) (by decide +kernel)
  exact ⟨ms, s', hunfolds, hscoped, harrays, htimely, hends,
    extractFile_missesNone hunfolds hscoped harrays htimely hends⟩

end Walk

end IrFacts
