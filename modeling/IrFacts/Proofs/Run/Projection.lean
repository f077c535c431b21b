import IrFacts.Extraction.Members
import IrFacts.Proofs.Run.Places

/-!
# Projection keeps to a scope

Every operation of the projection keeps to a scope when the three operations
through which its circles pass do, and it returns what may be mentioned. The
fuel closes the circles.
-/

set_option autoImplicit false

namespace IrFacts

namespace Scope

open Extract

variable {σ : Scope} {p : Program} {s t : Session} {α β : Type}

/-! ## Labels that need no types -/

theorem does_packageLabel {name : String} (h : σ.Letters name) :
    σ.Does p s (packageLabel name) fun l t => σ.Knows t l :=
  does_labelWith ((spells_of_plain (by decide)).append h.spells) fun _ _ _ hl =>
    does_write (by decide) ⟨hl, trivial⟩

theorem does_modifierLabel {name : String} (h : σ.Letters name) :
    σ.Does p s (modifierLabel name) fun l t => σ.Knows t l :=
  does_labelWith ((spells_of_plain (by decide)).append h.spells) fun _ _ _ hl =>
    does_write (by decide) ⟨hl, trivial⟩

theorem does_addModifiers {entity : Label} {names : List String} (he : σ.Knows s entity)
    (h : ∀ name ∈ names, σ.Letters name) : σ.Does p s (addModifiers entity names) Any := by
  apply does_forM
  intro name hn t hst
  exact does_bind (does_modifierLabel (h name hn)) fun l u htu hl =>
    does_write (by decide) ⟨htu.knows (hst.knows he), hl, trivial⟩

theorem does_namedClass {package name : String} (hk : σ.Letters package) (hn : σ.Letters name) :
    σ.Does p s (namedClass package name) fun l t => σ.Knows t l := by
  apply does_bind (does_packageLabel hk)
  intro package t _ hpackage
  apply does_labelWith ((spells_of_plain (by decide)).append (letters_qualify hk hn).spells)
  intro l u htu hl
  exact does_write (by decide) ⟨hl, htu.knows hpackage, hl, trivial⟩

/-- Nothing is reported of what is missing here, so it must not be missing. -/
theorem knows_missing {found : Option α} (h : σ.errors = 0 ∨ found.isSome) (hf : found = none) :
    σ.Knows s .placeholder := by
  rcases h with h | h
  · exact knows_placeholder (h ▸ Nat.zero_le _)
  · rw [hf] at h
    cases h

theorem does_fileClassLabel (hp : σ.Allows p) {file : FileId}
    (hfile : σ.errors = 0 ∨ (p.file? file).isSome) :
    σ.Does p s (fileClassLabel file) fun l t => σ.Knows t l := by
  apply does_read
  split
  · next entry hf =>
    have hpackage := hp.file hf entry.package (by simp [Program.fileNames])
    have hname := letters_qualify hpackage (letters_fileClassName hp hf)
    exact does_labelFor ((spells_of_plain (by decide)).append hname.spells)
  · next hnone => exact does_pure (knows_missing hfile hnone)

/-! ## The circles -/

def KnowsViews (σ : Scope) (s : Session) (v : TypeViews) : Prop :=
  σ.Knows s v.host.label ∧ σ.Knows s v.rich.label

theorem knowsViews_unknown (h : σ.errors ≤ s.counter.errors) : σ.KnowsViews s .unknown :=
  ⟨knows_placeholder h, knows_placeholder h⟩

/-- The operations that projection needs of itself keep to the scope. -/
structure Covers (σ : Scope) (p : Program) (π : Projection) : Prop where
  type : ∀ s primitives type,
    σ.Does p s (π.type primitives type) fun v t => σ.KnowsViews t v
  /-- A type that is an error is reported. -/
  error : ∀ s primitives description,
    σ.Does p s (π.type primitives (.error description)) fun _ t => σ.errors ≤ t.counter.errors
  classInstance : ∀ s id arguments,
    σ.Does p s (π.classInstance id arguments) fun c t => σ.Knows t c.label
  parent : ∀ s parent, σ.AllowsParent p parent →
    σ.Does p s (π.parent parent) fun l t => σ.Knows t l

variable {π : Projection}

/-- What a type projects to, and that it was reported if it is an error. -/
theorem does_type_reported (hπ : σ.Covers p π) (primitives : Bool) (type : IrType) :
    σ.Does p s (π.type primitives type) fun v t => σ.KnowsViews t v ∧
      ∀ description, type = .error description → σ.errors ≤ t.counter.errors := by
  cases type with
  | simple type => exact (hπ.type s primitives _).imp fun _ _ _ hv => ⟨hv, nofun⟩
  | error description =>
    exact (hπ.type s primitives _).and (hπ.error s primitives description) |>.imp
      fun _ _ _ h => ⟨h.1, fun _ _ => h.2⟩

theorem does_hostLabel (hπ : σ.Covers p π) (type : IrType) :
    σ.Does p s (π.hostLabel type) fun l t => σ.Knows t l :=
  does_bind (hπ.type s true type) fun _ _ _ hv => does_pure hv.1

/-! ## Type arguments -/

theorem does_extractWildcard {kind : Trap.WildcardKind} {name : String} {id bound : Label}
    (hid : σ.Knows s id) (hb : σ.Knows s bound) : σ.Does p s (do
      write (.wildcards id name kind)
      write (.hasLocation id (← unknownLocation))
      let _ ← labelWith ("bound;0;" ++ id.braced) fun b =>
        write (.typeBounds b bound 0 id)) Any := by
  refine does_bind (does_write (by decide) ⟨hid, trivial⟩) fun _ t₁ h₁ _ => ?_
  apply does_bind does_unknownLocation
  intro place t₂ h₂ hplace
  have hid₂ := h₂.knows (h₁.knows hid)
  refine does_bind (does_write (by decide) ⟨hid₂, hplace, trivial⟩) fun _ t₃ h₃ _ => ?_
  have hid₃ := h₃.knows hid₂
  have hkey := (spells_of_plain (σ := σ) (a := "bound;0;") (by decide)).append
    (spells_braced hid₃)
  refine does_bind (does_labelWith hkey fun b u hu hbl => ?_) fun _ _ _ _ => does_pure trivial
  have hbound := hu.knows (h₃.knows (h₂.knows (h₁.knows hb)))
  exact does_write (by decide) ⟨hbl, hbound, hu.knows hid₃, trivial⟩

theorem does_wildcard {kind : Trap.WildcardKind} {key : String} {argument : TypeArgument}
    {bound : Label} (hk : σ.Spells s key) (hb : σ.Knows s bound) :
    σ.Does p s (Projection.wildcard kind key argument bound) fun l t => σ.Knows t l :=
  does_read <| does_labelWith hk fun _ _ hst hid => does_extractWildcard hid (hst.knows hb)

theorem does_argument (hπ : σ.Covers p π) (a : TypeArgument) :
    σ.Does p s (π.argument a) fun l t => σ.Knows t l := by
  cases a with
  | star =>
    refine does_read (does_bind (hπ.type s _ _) fun v t _ hv => ?_)
    exact does_wildcard (spells_of_plain (by decide)) hv.1
  | projection variance type =>
    apply does_bind (hπ.type s _ _)
    intro v t _ hv
    cases variance with
    | invariant => exact does_pure hv.1
    | covariant =>
      exact does_wildcard ((spells_of_plain (by decide)).append (spells_braced hv.1)) hv.1
    | contravariant =>
      exact does_wildcard ((spells_of_plain (by decide)).append (spells_braced hv.1)) hv.1

/-! ## Classes -/

theorem does_instanceName (hπ : σ.Covers p π) (hp : σ.Allows p) (id : DeclId)
    (arguments : List TypeArgument) :
    σ.Does p s (π.instanceName id arguments) fun name t =>
      σ.Spells t name ∧ ∃ labels, name = p.instanceText id labels := by
  refine does_read (does_foldlM (fun text a t _ ht => ?_)
    ⟨(letters_binaryName hp id).spells, [], rfl⟩)
  obtain ⟨htext, labels, rfl⟩ := ht
  refine does_bind (does_argument hπ a) fun l u htu hl => does_pure ⟨?_, labels ++ [l], ?_⟩
  · exact ((htu.spells htext).append (spells_of_plain (by decide))).append (spells_braced hl)
  · simp only [Program.instanceText, List.foldl_append, List.foldl_cons, List.foldl_nil]

theorem does_classSource (hπ : σ.Covers p π) (hp : σ.Allows p) (id : DeclId) :
    σ.Does p s (π.classSource id) fun l t => σ.Knows t l :=
  does_bind (does_instanceName hπ hp id []) fun _ _ _ hn =>
    does_labelFor ((spells_of_plain (by decide)).append hn.1)

theorem does_writeClassOrInterface {kind : ClassKind} {id : Label} {name : String}
    {package source : Label} (hi : σ.Knows s id) (hk : σ.Knows s package)
    (hs : σ.Knows s source) :
    σ.Does p s (Projection.writeClassOrInterface kind id name package source) Any := by
  refine does_ite_bind (fun _ => does_write (by decide) ⟨hi, hk, hs, trivial⟩)
    (fun _ => does_write (by decide) ⟨hi, hk, hs, trivial⟩) fun _ t hst _ => ?_
  exact does_when fun _ => does_write (by decide) ⟨hst.knows hi, trivial⟩

theorem does_classModifiers {id : DeclId} {label : Label} (hl : σ.Knows s label) :
    σ.Does p s (Projection.classModifiers id label) Any := by
  apply does_read
  split
  · refine does_when fun _ => does_addModifiers hl fun name hn => ?_
    rw [List.mem_singleton.mp hn]
    exact letters_of_plain (by decide)
  · exact does_pure trivial

theorem does_supertypes (hπ : σ.Covers p π) {id : DeclId} {label : Label}
    (hl : σ.Knows s label) : σ.Does p s (π.supertypes id label) Any := by
  apply does_read
  split
  · apply does_forM
    intro type _ t hst
    unfold Projection.supertype
    split
    · apply does_bind (hπ.classInstance _ _ _)
      intro c u htu hc
      exact does_write (by decide) ⟨htu.knows (hst.knows hl), hc, trivial⟩
    · exact does_read (does_complain _)
  · exact does_pure trivial

theorem does_extractInstance (hπ : σ.Covers p π) (hp : σ.Allows p) {id : DeclId}
    {arguments : List TypeArgument} {label : Label} (hl : σ.Knows s label) :
    σ.Does p s (π.extractInstance id arguments label) Any := by
  apply does_read
  split
  · apply does_bind (does_packageLabel (letters_package hp id))
    intro package t₁ h₁ hk
    apply does_bind (does_classSource hπ hp id)
    intro source t₂ h₂ hsource
    have hl₂ := h₂.knows (h₁.knows hl)
    apply does_bind (does_writeClassOrInterface hl₂ (h₂.knows hk) hsource)
    intro _ t₃ h₃ _
    have hl₃ := h₃.knows hl₂
    refine does_bind (does_forM fun a _ u hu => ?_) fun _ t₄ h₄ _ => ?_
    · exact does_bind (does_argument hπ a.1) fun m v hv hm =>
        does_write (by decide) ⟨hm, hv.knows (hu.knows hl₃), trivial⟩
    have hl₄ := h₄.knows hl₃
    refine does_bind (does_write (by decide) ⟨hl₄, trivial⟩) fun _ t₅ h₅ _ => ?_
    have hl₅ := h₅.knows hl₄
    have hsource₅ := h₅.knows (h₄.knows (h₃.knows hsource))
    refine does_bind (does_write (by decide) ⟨hl₅, hsource₅, trivial⟩) fun _ t₆ h₆ _ => ?_
    apply does_bind (does_classModifiers (h₆.knows hl₅))
    intro _ t₇ h₇ _
    apply does_bind (does_supertypes hπ (h₇.knows (h₆.knows hl₅)))
    intro _ t₈ h₈ _
    exact does_locate _ (h₈.knows (h₇.knows (h₆.knows hl₅)))
  · exact does_pure trivial

theorem does_schedule_owner {id f : DeclId} (hf : p.isExternal f = true)
    (ho : p.owner? f = some id) : σ.Does p s (schedule id) Any := by
  intro _ u s' he
  rw [(ends_schedule (some f)).mp he]
  refine ⟨⟨⟨[.schedule id (some f)], ⟨trivial, trivial⟩, ⟨?_, ?_, ?_⟩, rfl⟩, rfl⟩, trivial⟩
  · simp
  · simp [Event.bindings, Event.binding?]
  · intro id' f' hm
    cases List.mem_singleton.mp hm
    exact ⟨hf, ho⟩

theorem does_scheduleOwner {f : DeclId} (hf : p.isExternal f = true) {steps : Nat} {id : DeclId}
    (ho : ∀ c, p.ownerWithin steps id = some c → p.owner? f = some c) :
    σ.Does p s (Projection.scheduleOwner steps id) Any := by
  induction steps generalizing id with
  | zero => exact does_throw
  | succ steps ih =>
    apply does_read
    simp only [Program.ownerWithin] at ho
    split
    · next parent hparent =>
      rw [hparent] at ho
      dsimp only at ho
      refine does_ite (fun hc => ?_) fun hc => ?_
      · rw [if_pos hc] at ho
        exact does_schedule_owner hf (ho parent rfl)
      · rw [if_neg hc] at ho
        refine does_ite (fun hfun => ?_) fun _ => does_complain _
        rw [if_pos hfun] at ho
        exact ih ho
    · exact does_pure trivial
    · exact does_complain _

/-! ## Scheduling -/

/-- The events of scheduling a class if it is external. -/
def introduceOne (p : Program) (id : DeclId) : List Event :=
  if p.isExternal id = true then [.schedule id none] else []

/-- The events of scheduling a class and the host class that stands in for it. -/
def introduce (p : Program) (id : DeclId) : List Event :=
  introduceOne p id ++ match p.hostClass? id with
    | some host => introduceOne p host
    | none => []

theorem mem_introduce (key : String) {id c : DeclId} :
    .schedule c none ∈ introduce p id ↔ p.Introduces ⟨key, some id⟩ c := by
  have hone (d : DeclId) :
      Event.schedule c none ∈ introduceOne p d ↔ p.isExternal c = true ∧ c = d := by
    unfold introduceOne
    split
    · next h =>
      simp only [List.mem_singleton, Event.schedule.injEq, and_true]
      exact ⟨fun he => ⟨he ▸ h, he⟩, And.right⟩
    · next h =>
      simp only [List.not_mem_nil, false_iff, not_and]
      exact fun hc he => h (he ▸ hc)
  simp only [introduce, List.mem_append, hone, Program.Introduces, Option.some.injEq,
    exists_eq_left']
  cases p.hostClass? id with
  | none => simp
  | some host =>
    simp only [hone, Option.some.injEq]
    grind

theorem schedule_of_mem_introduce {id : DeclId} {e : Event} (h : e ∈ introduce p id) :
    ∃ c, e = .schedule c none := by
  simp only [introduce, introduceOne, List.mem_append] at h
  grind

theorem ends_scheduleIfExternal {id : DeclId} {u : Unit} :
    Ends p s (scheduleIfExternal id) u t ↔ t = Event.run (introduceOne p id) s := by
  unfold scheduleIfExternal introduceOne
  rw [ends_read_bind]
  split
  · exact ends_schedule none
  · simp only [ends_pure, true_and, Event.run]

/-- The end of a definition of a class: the class is scheduled, and the class that hosts it. -/
def introducing (p : Program) (id : DeclId) : Extract Unit := do
  scheduleIfExternal id
  match p.hostClass? id with
  | some host => scheduleIfExternal host
  | none => pure ()

theorem ends_introducing {id : DeclId} {u : Unit} :
    Ends p s (introducing p id) u t ↔ t = Event.run (introduce p id) s := by
  unfold introducing introduce
  simp only [ends_bind, ends_scheduleIfExternal, Event.run_append]
  cases p.hostClass? id with
  | none =>
    simp only [ends_pure, Event.run]
    constructor
    · rintro ⟨_, _, rfl, -, rfl⟩
      rfl
    · rintro rfl
      exact ⟨(), _, rfl, trivial, rfl⟩
  | some host =>
    simp only [ends_scheduleIfExternal]
    constructor
    · rintro ⟨_, _, rfl, h⟩
      exact h
    · exact fun h => ⟨(), _, rfl, h⟩

theorem introduce_frame (id : DeclId) (s : Session) :
    (Event.run (introduce p id) s).file = s.file ∧ Event.bindings (introduce p id) s = [] ∧
      ∀ σ : Scope, σ.AdmitsAll s (introduce p id) := by
  suffices h : ∀ es : List Event, (∀ e ∈ es, ∃ c, e = .schedule c none) → ∀ s : Session,
      (Event.run es s).file = s.file ∧ Event.bindings es s = [] ∧
        ∀ σ : Scope, σ.AdmitsAll s es from
    h _ (fun e he => schedule_of_mem_introduce he) s
  intro es
  induction es with
  | nil => exact fun _ _ => ⟨rfl, rfl, fun _ => trivial⟩
  | cons e es ih =>
    intro h s
    obtain ⟨c, rfl⟩ := h e (by simp)
    obtain ⟨hfile, hb, ha⟩ := ih (fun e he => h e (by simp [he])) ((Event.schedule c none).step s)
    exact ⟨hfile, hb, fun σ => ⟨trivial, ha σ⟩⟩

/-- A key that is asked for first for a class brings the class into the queue. -/
theorem accounted_introducing {key : String} {id : DeclId} {es : List Event}
    (hc : p.ClassKey id key) (hk : s.table.find? key = none)
    (h : Event.Accounted p ((Event.lookup key (some id)).step s) es) :
    Event.Accounted p s (.lookup key (some id) :: (es ++ introduce p id)) := by
  have hb : Event.bindings (.lookup key (some id) :: (es ++ introduce p id)) s =
      ⟨key, some id⟩ :: Event.bindings es ((Event.lookup key (some id)).step s) := by
    simp only [Event.bindings, Event.binding?, hk, Event.bindings_append,
      (introduce_frame id _).2.1]
    simp
  constructor
  · intro other d hm
    simp only [List.mem_cons, List.mem_append, Event.lookup.injEq, Option.some.injEq] at hm
    rcases hm with ⟨rfl, rfl⟩ | hm | hm
    · exact hc
    · exact h.asked other d hm
    · obtain ⟨e, he⟩ := schedule_of_mem_introduce hm
      cases he
  · intro c
    simp only [hb, List.mem_cons, List.mem_append, h.introduced, mem_introduce key,
      exists_eq_or_imp, reduceCtorEq, false_or]
    exact or_comm
  · intro c f hm
    simp only [List.mem_cons, List.mem_append, reduceCtorEq, false_or] at hm
    rcases hm with hm | hm
    · exact h.owner c f hm
    · obtain ⟨d, hd⟩ := schedule_of_mem_introduce hm
      cases hd

theorem accounted_bound {key : String} {id : DeclId} {l : Label} (hc : p.ClassKey id key)
    (hk : s.table.find? key = some l) : Event.Accounted p s [.lookup key (some id)] := by
  have hb : Event.bindings [.lookup key (some id)] s = [] := by
    simp [Event.bindings, Event.binding?, hk]
  constructor
  · intro other d hm
    cases List.mem_singleton.mp hm
    exact hc
  · intro c
    simp [hb]
  · intro c f hm
    cases List.mem_singleton.mp hm

theorem trace_introducing {key : String} {id : DeclId} {c : Prop} [Decidable c]
    {define : Label → Extract Unit} {l : Label} {s' : Session} (hs : σ.Sound s)
    (hk : σ.Spells s key) (hclass : p.ClassKey id key)
    (hd : ∀ l t, s.Before t → σ.Knows t l → σ.Does p t (define l) Any)
    (he : Ends p s (labelWith key fun l => do
      if c then define l
      introducing p id) l s') :
    (∃ es, σ.Trace p s (.lookup key (some id) :: es) s') ∧
      s'.file.target = s.file.target ∧ σ.Knows s' l := by
  rcases (ends_labelWith (some id)).mp he with ⟨hf, rfl⟩ | ⟨hf, rfl, he⟩
  · exact ⟨⟨[], ⟨hk, trivial⟩, accounted_bound hclass hf, Event.lookup_step (some id) hf⟩, rfl,
      hs.knows_find? hf⟩
  rw [when_bind] at he
  obtain ⟨_, t, hdef, hint⟩ := ends_bind.mp he
  obtain rfl := ends_introducing.mp hint
  have hsound := step_sound hs (e := .lookup key (some id)) hk
  have hnew : σ.Knows ((Event.lookup key (some id)).step s) (.number s.table.next) := by
    refine Or.inr ⟨_, rfl, hs.base, ?_⟩
    rw [Event.step_table, Event.onTable, LabelTable.lookup, hf]
    exact Nat.lt_succ_self _
  obtain ⟨⟨⟨es, ha, hc, rfl⟩, ht⟩, -⟩ :=
    does_when (fun _ => hd _ _ (Event.step_before _ s) hnew) hsound _ _ hdef
  obtain ⟨hfile, -, hadmits⟩ := introduce_frame (p := p) id
    (Event.run es ((Event.lookup key (some id)).step s))
  refine ⟨⟨es ++ introduce p id, ⟨hk, ?_⟩, accounted_introducing hclass hf hc,
    Event.run_append es _ _⟩, ?_, ?_⟩
  · exact (σ.admitsAll_append _ _ _).mpr ⟨ha, hadmits σ⟩
  · rw [hfile, ht]
    rfl
  · exact hnew.later ((Event.run_before es _).trans (Event.run_before (introduce p id) _))

theorem does_introducing {key : String} {id : DeclId} {c : Prop} [Decidable c]
    {define : Label → Extract Unit} (hk : σ.Spells s key) (hclass : p.ClassKey id key)
    (hd : ∀ l t, s.Before t → σ.Knows t l → σ.Does p t (define l) Any) :
    σ.Does p s (labelWith key fun l => do
      if c then define l
      introducing p id) fun l t => σ.Knows t l := by
  intro hs l s' he
  obtain ⟨⟨es, htrace⟩, htarget, hl⟩ := trace_introducing hs hk hclass hd he
  exact ⟨⟨⟨_, htrace⟩, htarget⟩, hl⟩

theorem does_classInstanceStep (hπ : σ.Covers p π) (hp : σ.Allows p) (id : DeclId)
    (arguments : List TypeArgument) :
    σ.Does p s (π.classInstanceStep id arguments) fun c t => σ.Knows t c.label := by
  apply does_read
  apply does_bind (does_instanceName hπ hp (p.onHost id) arguments)
  intro name t _ hn
  obtain ⟨hspells, labels, rfl⟩ := hn
  have hkey := (spells_of_plain (σ := σ) (s := t) (a := "class;") (by decide)).append hspells
  refine does_bind (does_introducing hkey ⟨labels, rfl⟩ fun l u _ hl => ?_)
    fun l u _ hl => does_pure hl
  refine does_inFileOf hp (fun v huv => ?_) fun _ _ _ _ _ => trivial
  exact does_extractInstance hπ hp (hl.later huv)

/-! ## Simple types -/

theorem does_richType {name : String} {classLabel : Label} {nullable : Bool}
    (hn : σ.Spells s name) (hc : σ.Knows s classLabel) :
    σ.Does p s (Projection.richType name classLabel nullable) fun v t => σ.Knows t v.label := by
  refine does_ite (fun _ => ?_) fun _ => ?_
  all_goals
    refine does_bind (does_labelWith ((spells_of_plain (by decide)).append hn)
      fun id t hst hid => ?_) fun l t _ hl => does_pure hl
    exact does_write (by decide) ⟨hid, hst.knows hc, trivial⟩

theorem does_classType (hπ : σ.Covers p π) (hp : σ.Allows p) (id : DeclId)
    (arguments : List TypeArgument) (nullable : Bool) :
    σ.Does p s (π.classType id arguments nullable) fun v t => σ.KnowsViews t v := by
  refine does_bind (hπ.classInstance s id arguments) fun host t _ hhost => does_read ?_
  refine does_bind (does_instanceName hπ hp id arguments) fun name u hu hn => ?_
  apply does_bind (does_richType hn.1 (hu.knows hhost))
  intro rich v hv hrich
  exact does_pure ⟨hv.knows (hu.knows hhost), hrich⟩

theorem primitives_plain : ∀ e ∈ Builtins.primitives,
    (∀ name ∈ e.2.primitive, '\x7b' ∉ name.toList) ∧ '\x7b' ∉ e.2.hostPackage.toList ∧
      '\x7b' ∉ e.2.hostClass.toList ∧ '\x7b' ∉ e.2.richPackage.toList ∧
      '\x7b' ∉ e.2.richClass.toList := by
  decide +kernel

theorem does_primitiveHost {name : String} {info : Builtins.PrimitiveInfo}
    (hi : Builtins.primitiveInfo? name = some info) (allowed : Bool) :
    σ.Does p s (Projection.primitiveHost info allowed) fun v t => σ.Knows t v.label := by
  obtain ⟨before, after, htable, -⟩ := List.lookup_eq_some_iff.mp hi
  obtain ⟨hprimitive, hpackage, hclass, -⟩ := primitives_plain (name, info) (by simp [htable])
  unfold Projection.primitiveHost
  split
  · next _ name hname =>
    have hname := (letters_of_plain (σ := σ) (hprimitive name hname)).spells (s := s)
    refine does_bind (does_labelWith ((spells_of_plain (by decide)).append hname)
      fun id t _ hid => ?_) fun l t _ hl => does_pure hl
    exact does_write (by decide) ⟨hid, trivial⟩
  · exact does_bind (does_namedClass (letters_of_plain hpackage) (letters_of_plain hclass))
      fun l t _ hl => does_pure hl

theorem does_primitiveType (hπ : σ.Covers p π) {name : String} {info : Builtins.PrimitiveInfo}
    (hi : Builtins.primitiveInfo? name = some info) (id : DeclId) (nullable primitives : Bool) :
    σ.Does p s (π.primitiveType info id nullable primitives) fun v t => σ.KnowsViews t v := by
  obtain ⟨before, after, htable, -⟩ := List.lookup_eq_some_iff.mp hi
  obtain ⟨-, -, -, hrp, hrc⟩ := primitives_plain (name, info) (by simp [htable])
  apply does_bind (does_primitiveHost hi _)
  intro host t _ hhost
  apply does_bind (hπ.classInstance t id [])
  intro c u hu hc
  have hname := letters_qualify (letters_of_plain (σ := σ) hrp) (letters_of_plain hrc)
  apply does_bind (does_richType hname.spells hc)
  intro rich v hv hrich
  exact does_pure ⟨hv.knows (hu.knows hhost), hrich⟩

/-! ## Arrays -/

theorem does_extractArray (hπ : σ.Covers p π) {array : SimpleType} {name : String}
    {levels : Nat} {element component label : Label} (he : σ.Knows s element)
    (hc : σ.Knows s component) (hl : σ.Knows s label) :
    σ.Does p s (π.extractArray array name levels element component label) Any := by
  apply does_read
  refine does_bind (does_write (by decide) ⟨hl, he, hc, trivial⟩) fun _ t₁ h₁ _ => ?_
  have hl₁ := h₁.knows hl
  have hrest : ∀ t, σ.Leads p t₁ t → σ.Does p t (do
      let length ← labelFor ("field;" ++ label.braced ++ ";length")
      let int ← π.type true (p.builtinType "Int")
      write (.fields length "length" int.host.label int.rich.label label length)
      let result ← π.type true (IrType.simple (p.cloneType array)).makeNullable
      let clone ← labelFor ("callable;" ++ label.braced ++ ".clone()" ++ label.braced)
      write (.methods clone "clone" "clone()" label result.rich.label label clone)) Any := by
    intro t h
    have hl := h.knows hl₁
    have hfield := ((spells_of_plain (σ := σ) (a := "field;") (by decide)).append
      (spells_braced hl)).append (spells_of_plain (a := ";length") (by decide))
    apply does_bind (does_labelFor hfield)
    intro length u₁ k₁ hlength
    apply does_bind (hπ.type u₁ _ _)
    intro int u₂ k₂ hint
    have hl₂ := k₂.knows (k₁.knows hl)
    have hlength₂ := k₂.knows hlength
    refine does_bind (does_write (by decide)
      ⟨hlength₂, hint.1, hint.2, hl₂, hlength₂, trivial⟩) fun _ u₃ k₃ _ => ?_
    apply does_bind (hπ.type u₃ _ _)
    intro result u₄ k₄ hresult
    have hl₄ := k₄.knows (k₃.knows hl₂)
    have hclone := (((spells_of_plain (σ := σ) (a := "callable;") (by decide)).append
      (spells_braced hl₄)).append (spells_of_plain (a := ".clone()") (by decide))).append
      (spells_braced hl₄)
    apply does_bind (does_labelFor hclone)
    intro clone u₅ k₅ hclone
    have hl₅ := k₅.knows hl₄
    exact does_write (by decide) ⟨hclone, hl₅, k₅.knows hresult.2, hl₅, hclone, trivial⟩
  split
  · exact does_bind (does_supertypes hπ hl₁) fun _ t h _ => hrest t h
  · exact hrest _ .refl

theorem does_arrayType (hπ : σ.Covers p π) (hp : σ.Allows p) {array : SimpleType}
    (harray : p.isArray array = true) :
    σ.Does p s (π.arrayType array) fun v t => σ.KnowsViews t v := by
  apply does_read
  apply does_bind (does_hostLabel hπ _)
  intro component t₁ _ hcomponent
  apply does_bind (does_hostLabel hπ _)
  intro element t₂ h₂ helement
  have hkey := (((spells_of_plain (σ := σ) (a := "array;") (by decide)).append
    (letters_nat (p.arrayCore (.simple array)).levels).spells).append
    (spells_of_plain (a := ";") (by decide))).append (spells_braced helement)
  refine does_bind (does_labelWith hkey fun l u hu hl => ?_) fun label t₃ h₃ hlabel => ?_
  · exact does_extractArray hπ (hu.knows helement) (hu.knows (h₂.knows hcomponent)) hl
  split
  · exact does_bind (does_classType hπ hp _ _ _) fun rich u hu hrich =>
      does_pure ⟨hu.knows hlabel, hrich.2⟩
  · next hc =>
    -- An array is a class, so the type that is not known is never taken.
    rw [Program.isArray, Program.arrayShape?, hc] at harray
    cases harray

/-! ## Members -/

theorem does_callableKey (hπ : σ.Covers p π) {name : String} (hn : σ.Letters name)
    {parent : DeclParent} (hparent : σ.AllowsParent p parent) (parameters : List IrType)
    (result : IrType) :
    σ.Does p s (π.callableKey parent name parameters result) fun key t => σ.Spells t key := by
  apply does_read
  have hone (type : IrType) (t : Session) : σ.Does p t
      (do return (← π.hostLabel (p.erase type)).braced) fun text u => σ.Spells u text :=
    does_bind (does_hostLabel hπ _) fun l u _ hl => does_pure (spells_braced hl)
  apply does_bind (does_mapM (R := fun text u => σ.Spells u text)
    (fun _ _ _ htu ht => htu.spells ht) fun type t _ => hone type t)
  intro types t₁ _ htypes
  apply does_bind (does_hostLabel hπ _)
  intro result t₂ h₂ hresult
  refine does_bind (hπ.parent t₂ parent hparent) fun parent t₃ h₃ hparent => does_pure ?_
  have htypes₃ : σ.Spells t₃ (", ".intercalate types) :=
    spells_intercalate (spells_of_plain (by decide)) fun a ha =>
      h₃.spells (h₂.spells (htypes a ha))
  have hstart := (spells_of_plain (σ := σ) (a := "callable;") (by decide)).append
    (spells_braced hparent)
  have hname := (hstart.append (spells_of_plain (a := ".") (by decide))).append hn.spells
  have hopen := (hname.append (spells_of_plain (a := "(") (by decide))).append htypes₃
  exact (hopen.append (spells_of_plain (a := ")") (by decide))).append
    (spells_braced (h₃.knows hresult))

theorem does_function (hπ : σ.Covers p π) (hp : σ.Allows p) (id : DeclId) :
    σ.Does p s (π.function id) fun l t => σ.Knows t l := by
  apply does_read
  split
  · next d f hd hf =>
    apply does_bind (does_callableKey hπ (hp.function hf) (hp.parent hd) _ _)
    intro key t _ hkey
    apply does_bind (does_labelFor hkey)
    intro l u _ hl
    apply does_when_bind (fun he => does_scheduleOwner he fun c hc => hc)
    intro v huv
    exact does_pure (huv.knows hl)
  · exact does_unresolved _

theorem does_parentStep (hπ : σ.Covers p π) (hp : σ.Allows p) {parent : DeclParent}
    (hparent : σ.AllowsParent p parent) :
    σ.Does p s (π.parentStep parent) fun l t => σ.Knows t l := by
  cases parent with
  | file file => exact does_fileClassLabel hp (hparent.file.imp_right fun h => h file rfl)
  | package name => exact does_packageLabel (hparent.package name rfl)
  | decl id =>
    apply does_read
    split
    · exact does_classSource hπ hp id
    · exact does_function hπ hp id
    · exact does_unresolved _

/-! ## Type parameters -/

theorem does_typeParameterKey? (hπ : σ.Covers p π) (hp : σ.Allows p) (id : DeclId) :
    σ.Does p s (π.typeParameterKey? id) fun found t => (∀ key ∈ found, σ.Spells t key) ∧
      ((p.typeParameter? id).isSome → found.isSome) := by
  apply does_read
  split
  · next d q hd hq =>
    apply does_bind (hπ.parent s d.parent (hp.parent hd))
    intro parent t _ hparent
    refine does_pure ⟨fun key hkey => ?_, fun _ => rfl⟩
    cases hkey
    have hstart := (spells_of_plain (σ := σ) (a := "typevar;") (by decide)).append
      (spells_braced hparent)
    exact (hstart.append (spells_of_plain (by decide))).append (hp.typeParameter hq).spells
  · next hnone =>
    refine does_pure ⟨nofun, fun hq => ?_⟩
    obtain ⟨q, hq⟩ := Option.isSome_iff_exists.mp hq
    obtain ⟨d, hd, -⟩ := Program.decl_of_typeParameter? hq
    exact absurd hq (hnone d q hd)

theorem does_typeParameter (hπ : σ.Covers p π) (hp : σ.Allows p) {id : DeclId}
    (hid : σ.errors = 0 ∨ (p.typeParameter? id).isSome) :
    σ.Does p s (π.typeParameter id) fun l t => σ.Knows t l := by
  apply does_bind (does_typeParameterKey? hπ hp id)
  intro found t _ hfound
  cases found with
  | some key => exact does_labelFor (hfound.1 key rfl)
  | none => exact does_pure (knows_missing (hid.imp_right hfound.2) rfl)

theorem does_typeParameterUse (hπ : σ.Covers p π) (hp : σ.Allows p) (id : DeclId) :
    σ.Does p s (π.typeParameterUse id) fun l t => σ.Knows t l := by
  apply does_bind (does_typeParameterKey? hπ hp id)
  intro found t _ hfound
  cases found with
  | none => exact does_unresolved _
  | some key =>
    apply does_bind does_find?
    intro label u hu hlabel
    cases label with
    | some l => exact does_pure (hlabel l rfl)
    | none =>
      exact does_bind (does_complain _) fun _ v hv _ =>
        does_labelFor (hv.spells (hu.spells (hfound.1 key rfl)))

theorem does_typeParameterType (hπ : σ.Covers p π) (hp : σ.Allows p) (id : DeclId)
    (nullable : Bool) :
    σ.Does p s (π.typeParameterType id nullable) fun v t => σ.KnowsViews t v := by
  apply does_read
  apply does_bind (does_typeParameterUse hπ hp id)
  intro host t _ hhost
  apply does_bind (does_namedClass (letters_of_plain (by decide)) (letters_of_plain (by decide)))
  intro c u hu hc
  apply does_bind (does_richType (spells_of_plain (by decide)) hc)
  intro rich v hv hrich
  exact does_pure ⟨hv.knows (hu.knows hhost), hrich⟩

/-! ## The step of a type -/

theorem does_simpleType (hπ : σ.Covers p π) (hp : σ.Allows p) (primitives : Bool)
    (type : SimpleType) :
    σ.Does p s (π.simpleType primitives type) fun v t => σ.KnowsViews t v := by
  refine does_read (does_when_bind (fun _ => does_complain _) fun t _ => ?_)
  split
  · exact does_typeParameterType hπ hp _ _
  · split
    · exact does_bind (does_complaint _) fun _ _ _ h => does_pure (knowsViews_unknown h)
    · next name _ =>
      split
      · next info hi => exact does_primitiveType hπ hi _ _ _
      · exact does_ite (fun h => does_arrayType hπ hp h) fun _ => does_classType hπ hp _ _ _

theorem does_typeStep (hπ : σ.Covers p π) (hp : σ.Allows p) (primitives : Bool) (type : IrType) :
    σ.Does p s (π.typeStep primitives type) fun v t => σ.KnowsViews t v := by
  cases type with
  | simple type => exact does_simpleType hπ hp primitives type
  | error description =>
    exact does_bind (does_complaint _) fun _ _ _ h => does_pure (knowsViews_unknown h)

theorem covers_projection (hp : σ.Allows p) (fuel : Nat) : σ.Covers p (projection fuel) := by
  induction fuel with
  | zero =>
    exact ⟨fun _ _ _ => does_throw, fun _ _ _ => does_throw, fun _ _ _ => does_throw,
      fun _ _ _ => does_throw⟩
  | succ fuel ih =>
    exact ⟨fun _ primitives type => does_typeStep ih hp primitives type,
      fun _ _ _ => does_bind (does_complaint _) fun _ _ _ h => does_pure h,
      fun _ id arguments => does_classInstanceStep ih hp id arguments,
      fun _ _ hparent => does_parentStep ih hp hparent⟩

end Scope

end IrFacts
