import IrFacts.Proofs.Run.Operation

/-!
# Which external classes are scheduled

Projecting a class asks for its key, and the class is scheduled when the key
gets its label by that. So a class stays out of the queue when its key had a
label already: another class goes by the same name on the host, or a member
had its parent labelled before. The owner of an external function is scheduled
with each use of the function, the owner of a field or of a property never is.

A visit of a class says in which session its key is asked for, and the theorem
at the end says of any run of references which visits fill the queue.
-/

set_option autoImplicit false

namespace IrFacts

namespace Event

theorem run_accepted (es : List Event) (s : Session) (id : DeclId) :
    id ∈ (run es s).queue.accepted ↔ id ∈ s.queue.accepted ∨ ∃ f, .schedule id f ∈ es := by
  induction es generalizing s with
  | nil => simp [run]
  | cons e es ih =>
    rw [run, ih]
    cases e with
    | schedule other f =>
      rw [Session.accepted_schedule]
      constructor
      · rintro ((h | rfl) | ⟨g, h⟩)
        · exact Or.inl h
        · exact Or.inr ⟨f, by simp⟩
        · exact Or.inr ⟨g, List.mem_cons_of_mem _ h⟩
      · rintro (h | ⟨g, h⟩)
        · exact Or.inl (Or.inl h)
        · rcases List.mem_cons.mp h with he | h
          · cases he
            exact Or.inl (Or.inr rfl)
          · exact Or.inr ⟨g, h⟩
    | _ => simp [step, Session.mapWriter]

theorem run_nodup (es : List Event) {s : Session} (h : s.queue.accepted.Nodup) :
    (run es s).queue.accepted.Nodup := by
  induction es generalizing s with
  | nil => exact h
  | cons e es ih =>
    apply ih
    cases e with
    | schedule id f =>
      simp only [step, ClassQueue.schedule]
      split
      · exact h
      · next hid => exact List.nodup_cons.mpr ⟨hid, h⟩
    | _ => exact h

/-- In the run of `es` from `s` the event `e` happens in `u`. -/
def Occurs (es : List Event) (s : Session) (e : Event) (u : Session) : Prop :=
  ∃ before after, es = before ++ e :: after ∧ run before s = u

theorem Occurs.append_left {es fs : List Event} {s u : Session} {e : Event}
    (h : Occurs es s e u) : Occurs (es ++ fs) s e u := by
  obtain ⟨before, after, rfl, hu⟩ := h
  exact ⟨before, after ++ fs, by simp, hu⟩

theorem Occurs.append_right {es fs : List Event} {s u : Session} {e : Event}
    (h : Occurs fs (run es s) e u) : Occurs (es ++ fs) s e u := by
  obtain ⟨before, after, rfl, hu⟩ := h
  exact ⟨es ++ before, after, by simp, by rw [run_append, hu]⟩

theorem Occurs.binding {es : List Event} {s u : Session} {key : String} {asker : Option DeclId}
    (h : Occurs es s (.lookup key asker) u) (hu : u.table.find? key = none) :
    ⟨key, asker⟩ ∈ bindings es s := by
  obtain ⟨before, after, rfl, rfl⟩ := h
  simp [bindings_append, bindings, binding?, hu]

end Event

/-! ## Visits -/

namespace Program

/-- What a type argument is projected as, or bounded by. -/
def argumentType (p : Program) : TypeArgument → IrType
  | .star => p.builtinType "Any"
  | .projection _ type => type

def primitive? (p : Program) (id : DeclId) : Option Builtins.PrimitiveInfo :=
  (p.fqName? id).bind Builtins.primitiveInfo?

/-- The class of a type, and the arguments that are projected with it. -/
def classView? (p : Program) (type : SimpleType) : Option (DeclId × List TypeArgument) :=
  match type.classifier with
  | .ofTypeParameter _ => none
  | .ofClass id => (p.fqName? id).map fun _ =>
    (id, if (p.primitive? id).isSome then [] else type.arguments)

/-- The projection of a type comes to the class, for the type itself or for a
type argument in it. -/
inductive Projects (p : Program) (c : DeclId) : IrType → Prop where
  | here {type : SimpleType} {arguments : List TypeArgument} :
      p.classView? type = some (c, arguments) → p.Projects c (.simple type)
  | argument {type : SimpleType} {id : DeclId} {arguments : List TypeArgument}
      {a : TypeArgument} : p.classView? type = some (id, arguments) → a ∈ arguments →
      p.Projects c (p.argumentType a) → p.Projects c (.simple type)

end Program

namespace Projection

open Extract

def arrayLabel (π : Projection) (array : SimpleType) : Extract Label := do
  let p ← read
  let core := p.arrayCore (.simple array)
  let component ← π.hostLabel (boxed p core.isPrimitive (p.arrayElement array))
  let element ← π.hostLabel (boxed p core.isPrimitive core.element)
  labelWith ("array;" ++ toString core.levels ++ ";" ++ element.braced)
    (π.extractArray array (p.simpleShortName true false array) core.levels element component)

/-- All that the projection of a type does before it comes to the class. -/
def beforeClass (π : Projection) (primitives : Bool) (id : DeclId) (type : SimpleType) :
    Extract Unit := do
  let p ← read
  if type.abbreviation.isSome then
    complain (.aliasIgnored (p.simpleShortName primitives false type))
  match p.primitive? id with
  | some info => do let _ ← primitiveHost info (primitives && !type.nullable)
  | none => if p.isArray type then do let _ ← π.arrayLabel type

end Projection

open Extract

/-- When `type` is projected from `s` with so much fuel, the class `c` is asked
for by `key` in the session `u`. -/
inductive Visits (p : Program) :
    Nat → Bool → IrType → Session → DeclId → String → Session → Prop where
  | here {n : Nat} {primitives : Bool} {type : SimpleType} {s t u : Session} {id : DeclId}
      {arguments : List TypeArgument} {name : String} :
      p.classView? type = some (id, arguments) →
      Ends p s ((projection (n + 1)).beforeClass primitives id type) () t →
      Ends p t ((projection n).instanceName (p.onHost id) arguments) name u →
      Visits p (n + 2) primitives (.simple type) s id ("class;" ++ name) u
  | argument {n : Nat} {primitives : Bool} {type : SimpleType} {s t u v : Session} {id c : DeclId}
      {before after : List TypeArgument} {a : TypeArgument} {name key : String} :
      p.classView? type = some (id, before ++ a :: after) →
      Ends p s ((projection (n + 1)).beforeClass primitives id type) () t →
      Ends p t ((projection n).instanceName (p.onHost id) before) name u →
      Visits p n false (p.argumentType a) u c key v →
      Visits p (n + 2) primitives (.simple type) s c key v

namespace Scope

variable {p : Program} {s t u s' : Session} {π : Projection}

theorem trace_of_ends {α : Type} {m : Extract α} {Q : α → Session → Prop} {a : α}
    (h : widest.Does p s m Q) (he : Ends p s m a s') : ∃ es, widest.Trace p s es s' :=
  (h (widest_sound s) a s' he).1.1

def Shows (p : Program) (s s' : Session) (V : DeclId → String → Session → Prop) : Prop :=
  ∃ es, widest.Trace p s es s' ∧
    ∀ c key u, V c key u → Event.Occurs es s (.lookup key (some c)) u

theorem Shows.then {V W : DeclId → String → Session → Prop} (h : Shows p s t V)
    (k : Shows p t u W) : Shows p s u fun c key v => V c key v ∨ W c key v := by
  obtain ⟨es, htrace, hV⟩ := h
  obtain ⟨fs, ktrace, hW⟩ := k
  refine ⟨es ++ fs, htrace.append ktrace, fun c key v hv => ?_⟩
  rcases hv with hv | hv
  · exact (hV c key v hv).append_left
  · obtain ⟨-, -, rfl⟩ := htrace
    exact (hW c key v hv).append_right

theorem Shows.imp {V W : DeclId → String → Session → Prop} (h : Shows p s t V)
    (hi : ∀ c key u, W c key u → V c key u) : Shows p s t W := by
  obtain ⟨es, htrace, hV⟩ := h
  exact ⟨es, htrace, fun c key u hw => hV c key u (hi c key u hw)⟩

theorem shows_of_trace (h : ∃ es, widest.Trace p s es t) : Shows p s t fun _ _ _ => False := by
  obtain ⟨es, htrace⟩ := h
  exact ⟨es, htrace, fun _ _ _ h => h.elim⟩

theorem shows_foldlM {α β : Type} {f : β → α → Extract β}
    {V : α → Session → DeclId → String → Session → Prop}
    (h : ∀ b a s b' s', Ends p s (f b a) b' s' → Shows p s s' (V a s)) {as : List α} {b b' : β}
    (he : Ends p s (as.foldlM f b) b' s') : Shows p s s' fun c key v =>
      ∃ before a after b₁ u, as = before ++ a :: after ∧ Ends p s (before.foldlM f b) b₁ u ∧
        V a u c key v := by
  induction as generalizing s b with
  | nil =>
    obtain ⟨rfl, rfl⟩ := ends_pure.mp he
    exact (shows_of_trace ⟨[], .nil⟩).imp fun _ _ _ ⟨_, _, _, _, _, hnil, _⟩ => by simp at hnil
  | cons a as ih =>
    rw [List.foldlM_cons] at he
    obtain ⟨b₁, t, ha, hrest⟩ := ends_bind.mp he
    apply ((h b a s b₁ t ha).then (ih hrest)).imp
    intro c key v hv
    obtain ⟨before, a', after, b₂, u, hsplit, hbefore, hV⟩ := hv
    cases before with
    | nil =>
      obtain ⟨-, rfl⟩ := ends_pure.mp hbefore
      obtain ⟨rfl, -⟩ := List.cons.inj hsplit
      exact Or.inl hV
    | cons x before =>
      obtain ⟨rfl, htail⟩ := List.cons.inj hsplit
      rw [List.foldlM_cons] at hbefore
      obtain ⟨b₃, t', hx, hbefore⟩ := ends_bind.mp hbefore
      obtain ⟨rfl, rfl⟩ := ends_unique ha hx
      exact Or.inr ⟨before, a', after, b₂, u, htail, hbefore, hV⟩

variable {n : Nat}

theorem ends_argument {a : TypeArgument} {l : Label} (he : Ends p s (π.argument a) l s') :
    ∃ views t, Ends p s (π.type false (p.argumentType a)) views t ∧
      ∃ es, widest.Trace p t es s' := by
  have hwildcard {kind : Trap.WildcardKind} {key : String} {argument : TypeArgument}
      {bound : Label} {t : Session} : widest.Does p t (Projection.wildcard kind key argument bound)
        fun l t => widest.Knows t l :=
    does_wildcard (widest_spells t key) (widest_knows t bound)
  cases a with
  | star =>
    obtain ⟨views, t, htype, he⟩ := ends_bind.mp (ends_read_bind.mp he)
    exact ⟨views, t, htype, trace_of_ends hwildcard he⟩
  | projection variance type =>
    obtain ⟨views, t, htype, he⟩ := ends_bind.mp he
    refine ⟨views, t, htype, ?_⟩
    cases variance with
    | invariant =>
      obtain ⟨-, rfl⟩ := ends_pure.mp he
      exact ⟨[], .nil⟩
    | covariant => exact trace_of_ends hwildcard he
    | contravariant => exact trace_of_ends hwildcard he

theorem shows_instanceName {V : TypeArgument → Session → DeclId → String → Session → Prop}
    {id : DeclId} {arguments : List TypeArgument} {name : String}
    (h : ∀ a s views s', Ends p s (π.type false (p.argumentType a)) views s' →
      Shows p s s' (V a s))
    (he : Ends p s (π.instanceName id arguments) name s') : Shows p s s' fun c key v =>
      ∃ before a after text u, arguments = before ++ a :: after ∧
        Ends p s (π.instanceName id before) text u ∧ V a u c key v := by
  refine (shows_foldlM (V := V) (fun text a t b' t' ha => ?_) (ends_read_bind.mp he)).imp ?_
  · obtain ⟨l, u, ha, hb⟩ := ends_bind.mp ha
    obtain ⟨-, rfl⟩ := ends_pure.mp hb
    obtain ⟨views, v, htype, htrace⟩ := ends_argument ha
    exact ((h a t views v htype).then (shows_of_trace htrace)).imp fun _ _ _ hv => Or.inl hv
  · rintro c key v ⟨before, a, after, text, u, hsplit, hbefore, hV⟩
    exact ⟨before, a, after, text, u, hsplit, ends_read_bind.mp hbefore, hV⟩

theorem shows_classInstance {V : TypeArgument → Session → DeclId → String → Session → Prop}
    {id : DeclId} {arguments : List TypeArgument} {found : ClassInstance}
    (hπ : widest.Covers p π)
    (h : ∀ a s views s', Ends p s (π.type false (p.argumentType a)) views s' →
      Shows p s s' (V a s))
    (he : Ends p s (π.classInstanceStep id arguments) found s') : Shows p s s' fun c key v =>
      (c = id ∧ ∃ name, key = "class;" ++ name ∧
        Ends p s (π.instanceName (p.onHost id) arguments) name v) ∨
      ∃ before a after text u, arguments = before ++ a :: after ∧
        Ends p s (π.instanceName (p.onHost id) before) text u ∧ V a u c key v := by
  obtain ⟨name, t, hname, he⟩ := ends_bind.mp (ends_read_bind.mp he)
  obtain ⟨l, t', hlabel, he⟩ := ends_bind.mp he
  obtain ⟨-, rfl⟩ := ends_pure.mp he
  obtain ⟨-, labels, hlabels⟩ :=
    (does_instanceName hπ (widest_allows p) (p.onHost id) arguments (widest_sound s) name t hname).2
  obtain ⟨⟨es, htrace⟩, -⟩ := trace_introducing (widest_sound t)
    (widest_spells t ("class;" ++ name)) ⟨labels, by rw [hlabels]⟩
    (fun l u _ _ => does_inFileOf (widest_allows p) (fun v _ => does_extractInstance hπ
      (widest_allows p) (widest_knows v l)) fun _ _ _ _ _ => trivial) hlabel
  have hasks : Shows p t s' fun c key v => c = id ∧ key = "class;" ++ name ∧ v = t :=
    ⟨_, htrace, by rintro c key v ⟨rfl, rfl, rfl⟩; exact ⟨[], es, rfl, rfl⟩⟩
  apply ((shows_instanceName h hname).then hasks).imp
  intro c key v hv
  rcases hv with ⟨rfl, name', rfl, hname'⟩ | hv
  · obtain ⟨rfl, rfl⟩ := ends_unique hname hname'
    exact Or.inr ⟨rfl, rfl, rfl⟩
  · exact Or.inl hv

theorem does_beforeClass (hπ : widest.Covers p π) (primitives : Bool) (id : DeclId)
    (type : SimpleType) : widest.Does p s (π.beforeClass primitives id type) Any := by
  refine does_read (does_when_bind (fun _ => does_complain _) fun t _ => ?_)
  split
  · next info hinfo =>
    obtain ⟨name, -, hinfo⟩ := Option.bind_eq_some_iff.mp hinfo
    exact does_bind (does_primitiveHost hinfo _) fun _ _ _ _ => does_pure trivial
  · refine does_when fun _ => does_bind (Q := Any) ?_ fun _ _ _ _ => does_pure trivial
    refine does_read <| does_bind (does_hostLabel hπ _) fun component _ _ _ => ?_
    apply does_bind (does_hostLabel hπ _)
    intro element u _ _
    refine (does_labelWith (widest_spells u _) fun l v _ _ => ?_).imp fun _ _ _ _ => trivial
    exact does_extractArray hπ (widest_knows v element) (widest_knows v component)
      (widest_knows v l)

theorem does_rich {name : String} {l : Label} {nullable : Bool} :
    widest.Does p s (Projection.richType name l nullable) fun w t => widest.Knows t w.label :=
  does_richType (widest_spells s name) (widest_knows s l)

theorem ends_primitiveType {info : Builtins.PrimitiveInfo} {id : DeclId}
    {nullable primitives : Bool} {views : TypeViews}
    (he : Ends p s (π.primitiveType info id nullable primitives) views s') :
    ∃ host t found u, Ends p s (Projection.primitiveHost info (primitives && !nullable)) host t ∧
      Ends p t (π.classInstance id []) found u ∧ ∃ es, widest.Trace p u es s' := by
  obtain ⟨host, t, hhost, he⟩ := ends_bind.mp he
  obtain ⟨found, u, hfound, he⟩ := ends_bind.mp he
  exact ⟨host, t, found, u, hhost, hfound,
    trace_of_ends (does_bind does_rich fun _ _ _ _ => does_pure (Q := Any) trivial) he⟩

theorem ends_classType (hπ : widest.Covers p π) {id : DeclId} {arguments : List TypeArgument}
    {nullable : Bool} {views : TypeViews}
    (he : Ends p s (π.classType id arguments nullable) views s') :
    ∃ found t, Ends p s (π.classInstance id arguments) found t ∧
      ∃ es, widest.Trace p t es s' := by
  obtain ⟨found, t, hfound, he⟩ := ends_bind.mp he
  obtain ⟨name, u, hname, he⟩ := ends_bind.mp (ends_read_bind.mp he)
  obtain ⟨es, htrace⟩ := trace_of_ends (does_instanceName hπ (widest_allows p) id arguments) hname
  obtain ⟨fs, ktrace⟩ :=
    trace_of_ends (does_bind does_rich fun _ _ _ _ => does_pure (Q := Any) trivial) he
  exact ⟨found, t, hfound, es ++ fs, htrace.append ktrace⟩

theorem ends_arrayType (hπ : widest.Covers p π) {array : SimpleType} {id : DeclId}
    {views : TypeViews} (hclass : array.classifier = .ofClass id)
    (he : Ends p s (π.arrayType array) views s') :
    ∃ label t found u, Ends p s (π.arrayLabel array) label t ∧
      Ends p t (π.classInstance id array.arguments) found u ∧ ∃ es, widest.Trace p u es s' := by
  obtain ⟨component, t₁, hcomponent, he⟩ := ends_bind.mp (ends_read_bind.mp he)
  obtain ⟨element, t₂, helement, he⟩ := ends_bind.mp he
  obtain ⟨label, t, hlabel, he⟩ := ends_bind.mp he
  simp only [hclass] at he
  obtain ⟨rich, v, hrich, he⟩ := ends_bind.mp he
  obtain ⟨-, rfl⟩ := ends_pure.mp he
  obtain ⟨found, u, hfound, htrace⟩ := ends_classType hπ hrich
  refine ⟨label, t, found, u, ?_, hfound, htrace⟩
  exact ends_read_bind.mpr (ends_bind.mpr ⟨component, t₁, hcomponent,
    ends_bind.mpr ⟨element, t₂, helement, hlabel⟩⟩)

/-- The projection of a class type comes to the class, whatever is done before. -/
theorem ends_simpleType {primitives : Bool} {type : SimpleType} {id : DeclId}
    {arguments : List TypeArgument} {views : TypeViews} (hπ : widest.Covers p π)
    (hview : p.classView? type = some (id, arguments))
    (he : Ends p s (π.simpleType primitives type) views s') :
    ∃ t found u, Ends p s (π.beforeClass primitives id type) () t ∧
      Ends p t (π.classInstance id arguments) found u ∧ ∃ es, widest.Trace p u es s' := by
  obtain ⟨classifier, nullable, args, abbreviation⟩ := type
  cases classifier with
  | ofTypeParameter id => cases hview
  | ofClass other =>
    obtain ⟨name, hname, hview⟩ := Option.map_eq_some_iff.mp hview
    obtain ⟨rfl, rfl⟩ := Prod.mk.inj hview
    have hprimitive : p.primitive? other = Builtins.primitiveInfo? name := by
      rw [Program.primitive?, hname, Option.bind_some]
    rw [Projection.simpleType, ends_read_bind, when_bind] at he
    obtain ⟨_, t₀, halias, he⟩ := ends_bind.mp he
    simp only [hname] at he
    rw [hprimitive]
    cases hinfo : Builtins.primitiveInfo? name with
    | some info =>
      simp only [hinfo] at he
      obtain ⟨host, t, found, u, hhost, hfound, htrace⟩ := ends_primitiveType he
      refine ⟨t, found, u, ?_, hfound, htrace⟩
      rw [Projection.beforeClass, ends_read_bind, when_bind]
      simp only [hprimitive, hinfo]
      exact ends_bind.mpr ⟨(), t₀, halias, ends_bind.mpr ⟨host, t, hhost,
        ends_pure.mpr ⟨rfl, rfl⟩⟩⟩
    | none =>
      simp only [hinfo] at he
      split at he
      · next harray =>
        obtain ⟨label, t, found, u, hlabel, hfound, htrace⟩ := ends_arrayType hπ rfl he
        refine ⟨t, found, u, ?_, hfound, htrace⟩
        rw [Projection.beforeClass, ends_read_bind, when_bind]
        simp only [hprimitive, hinfo, if_pos harray]
        exact ends_bind.mpr ⟨(), t₀, halias, ends_bind.mpr ⟨label, t, hlabel,
          ends_pure.mpr ⟨rfl, rfl⟩⟩⟩
      · next harray =>
        obtain ⟨found, u, hfound, htrace⟩ := ends_classType hπ he
        refine ⟨t₀, found, u, ?_, hfound, htrace⟩
        rw [Projection.beforeClass, ends_read_bind, when_bind]
        simp only [hprimitive, hinfo, if_neg harray]
        exact ends_bind.mpr ⟨(), t₀, halias, ends_pure.mpr ⟨rfl, rfl⟩⟩

theorem shows_type (n : Nat) (primitives : Bool) (type : IrType) {views : TypeViews}
    (he : Ends p s ((projection n).type primitives type) views s') :
    Shows p s s' (Visits p n primitives type s) := by
  induction n using Nat.strongRecOn generalizing primitives type s views s' with
  | ind n ih =>
  have hplain : Shows p s s' fun _ _ _ => False :=
    shows_of_trace (trace_of_ends ((widest_covers p n).type s primitives type) he)
  match n, type, ih, he with
  | 0, _, _, he => exact absurd he ends_throw
  | 1, _, _, _ => exact hplain.imp fun _ _ _ h => nomatch h
  | n + 2, .error _, _, _ => exact hplain.imp fun _ _ _ h => nomatch h
  | n + 2, .simple type, ih, he =>
    cases hview : p.classView? type with
    | none => exact hplain.imp fun _ _ _ h => by cases h <;> simp_all
    | some view =>
      obtain ⟨id, arguments⟩ := view
      obtain ⟨t, found, u, hbefore, hfound, htrace⟩ :=
        ends_simpleType (widest_covers p (n + 1)) hview he
      have hleft := shows_of_trace
        (trace_of_ends (does_beforeClass (widest_covers p (n + 1)) primitives id type) hbefore)
      have hclass := shows_classInstance (V := fun a s => Visits p n false (p.argumentType a) s)
        (widest_covers p n) (fun a s views s' h => ih n (by omega) false _ h) hfound
      apply ((hleft.then hclass).then (shows_of_trace htrace)).imp
      intro c key v hv
      refine Or.inl (Or.inr ?_)
      cases hv with
      | here hview' hbefore' hname =>
        obtain ⟨rfl, rfl⟩ := Prod.mk.inj (Option.some.inj (hview.symm.trans hview'))
        obtain ⟨-, rfl⟩ := ends_unique hbefore hbefore'
        exact Or.inl ⟨rfl, _, rfl, hname⟩
      | argument hview' hbefore' hname h =>
        obtain ⟨rfl, rfl⟩ := Prod.mk.inj (Option.some.inj (hview.symm.trans hview'))
        obtain ⟨-, rfl⟩ := ends_unique hbefore hbefore'
        exact Or.inr ⟨_, _, _, _, _, rfl, hname, h⟩

theorem ends_named {n : Nat} {primitives : Bool} {type : SimpleType} {id : DeclId}
    {arguments : List TypeArgument} {views : TypeViews}
    (hview : p.classView? type = some (id, arguments))
    (he : Ends p s ((projection n).type primitives (.simple type)) views s') :
    ∃ m t name u, n = m + 2 ∧
      Ends p s ((projection (m + 1)).beforeClass primitives id type) () t ∧
      Ends p t ((projection m).instanceName (p.onHost id) arguments) name u := by
  match n with
  | 0 => exact absurd he ends_throw
  | 1 =>
    obtain ⟨_, _, _, _, hfound, _⟩ := ends_simpleType (widest_covers p 0) hview he
    exact absurd hfound ends_throw
  | m + 2 =>
    obtain ⟨t, found, u, hbefore, hfound, -⟩ :=
      ends_simpleType (widest_covers p (m + 1)) hview he
    obtain ⟨name, v, hname, -⟩ := ends_bind.mp (ends_read_bind.mp hfound)
    exact ⟨m, t, name, v, rfl, hbefore, hname⟩

theorem visits_of_projects {c : DeclId} {type : IrType} (hc : p.Projects c type) {n : Nat}
    {primitives : Bool} {views : TypeViews}
    (he : Ends p s ((projection n).type primitives type) views s') :
    ∃ key u, Visits p n primitives type s c key u := by
  induction hc generalizing n primitives s views s' with
  | here hview =>
    obtain ⟨m, t, name, u, rfl, hbefore, hname⟩ := ends_named hview he
    exact ⟨_, u, .here hview hbefore hname⟩
  | argument hview ha hc ih =>
    obtain ⟨m, t, name, u, rfl, hbefore, hname⟩ := ends_named hview he
    obtain ⟨before, after, rfl⟩ := List.append_of_mem ha
    have hfold := ends_read_bind.mp hname
    rw [List.foldlM_append] at hfold
    obtain ⟨text, v, htext, hrest⟩ := ends_bind.mp hfold
    rw [List.foldlM_cons] at hrest
    obtain ⟨_, w, hstep, -⟩ := ends_bind.mp hrest
    obtain ⟨l, x, harg, -⟩ := ends_bind.mp hstep
    obtain ⟨views', y, htype, -⟩ := ends_argument harg
    obtain ⟨key, z, hvisit⟩ := ih htype
    exact ⟨key, z, .argument hview hbefore (ends_read_bind.mpr htext) hvisit⟩

/-! ## Members -/

theorem accepted_scheduleOwner {c : DeclId} {steps : Nat} {f : DeclId} {r : Unit}
    (hc : p.ownerWithin steps f = some c) (he : Ends p s (Projection.scheduleOwner steps f) r s') :
    c ∈ s'.queue.accepted := by
  induction steps generalizing f with
  | zero => exact absurd he ends_throw
  | succ steps ih =>
    have he := ends_read_bind.mp he
    cases hparent : p.parent? f with
    | none => simp [Program.ownerWithin, hparent] at hc
    | some parent =>
      cases parent with
      | file file => simp [Program.ownerWithin, hparent] at hc
      | package name => simp [Program.ownerWithin, hparent] at hc
      | decl e =>
        simp only [hparent] at he
        simp only [Program.ownerWithin, hparent] at hc
        split at he
        · next hclass =>
          rw [if_pos hclass] at hc
          cases hc
          obtain rfl := (ends_schedule none).mp he
          exact Session.accepted_schedule.mpr (Or.inr rfl)
        · next hclass =>
          rw [if_neg hclass] at hc
          split at he
          · next hfunction =>
            rw [if_pos hfunction] at hc
            exact ih hc he
          · next hfunction =>
            rw [if_neg hfunction] at hc
            cases hc

theorem accepted_function {f c : DeclId} {l : Label} (hf : p.isFunction f = true)
    (hx : p.isExternal f = true) (hc : p.owner? f = some c)
    (he : Ends p s (π.function f) l s') : c ∈ s'.queue.accepted := by
  obtain ⟨fn, hfn⟩ := Option.isSome_iff_exists.mp hf
  have he := ends_read_bind.mp he
  cases hd : p.decl? f with
  | none => simp [Program.function?, hd] at hfn
  | some d =>
    simp only [hd, hfn, if_pos hx] at he
    obtain ⟨_, _, -, he⟩ := ends_bind.mp he
    obtain ⟨_, _, -, he⟩ := ends_bind.mp he
    obtain ⟨_, t, howner, he⟩ := ends_bind.mp he
    obtain ⟨-, rfl⟩ := ends_pure.mp he
    exact accepted_scheduleOwner hc howner

theorem labelFor_queue {key : String} {l : Label} (he : Ends p s (labelFor key) l s') :
    s'.queue = s.queue := by
  obtain ⟨-, rfl⟩ := (ends_labelFor none).mp he
  rfl

theorem classSource_queue {id : DeclId} {l : Label} (he : Ends p s (π.classSource id) l s') :
    s'.queue = s.queue := by
  obtain ⟨name, t, hname, he⟩ := ends_bind.mp he
  rw [Projection.instanceName, ends_read_bind] at hname
  rw [labelFor_queue he, (ends_pure.mp hname).2]

theorem kind?_of_isClass {id : DeclId} (h : p.isClass id = true) :
    ∃ c, p.kind? id = some (.class c) := by
  unfold Program.isClass Program.class? at h
  unfold Program.kind?
  cases hd : p.decl? id with
  | none => simp [hd] at h
  | some d =>
    cases hk : d.kind with
    | «class» c => exact ⟨c, by simp [hk]⟩
    | _ => simp [hd, hk] at h

theorem member_queue {n : Nat} {kind : String} {id e : DeclId} {l : Label}
    (hparent : p.parent? id = some (.decl e)) (hclass : p.isClass e = true)
    (he : Ends p s ((projection n).member kind id) l s') : s'.queue = s.queue := by
  obtain ⟨d, hd, hde⟩ := Option.map_eq_some_iff.mp hparent
  obtain ⟨c, hkind⟩ := kind?_of_isClass hclass
  rw [Projection.member, ends_read_bind] at he
  simp only [hd, hde] at he
  obtain ⟨parent, t, hlabel, he⟩ := ends_bind.mp he
  rw [labelFor_queue he]
  cases n with
  | zero => exact absurd hlabel ends_throw
  | succ n =>
    have hlabel : Ends p s ((projection n).parentStep (.decl e)) parent t := hlabel
    rw [Projection.parentStep, ends_read_bind] at hlabel
    simp only [hkind] at hlabel
    exact classSource_queue hlabel

end Scope

/-! ## Runs of references -/

namespace Reference

/-- Asks for the references one after the other. -/
def askAll (π : Projection) (rs : List Reference) : Extract Unit :=
  rs.foldlM (fun _ r => do let _ ← r.ask π) ()

/-- What is labelled as a member, under `field` or `property`. -/
def member? : Reference → Option DeclId
  | .field id => some id
  | .property id => some id
  | .enumEntry id => some id
  | _ => none

variable {p : Program} {n : Nat} {s s' : Session} {rs : List Reference}

theorem ends_askAll_of_mem {r : Reference} (hr : r ∈ rs)
    (he : Ends p s (askAll (projection n) rs) () s') :
    ∃ before after t a u, rs = before ++ r :: after ∧
      Ends p s (askAll (projection n) before) () t ∧ Ends p t (r.ask (projection n)) a u ∧
      Ends p u (askAll (projection n) after) () s' := by
  obtain ⟨before, after, rfl⟩ := List.append_of_mem hr
  rw [askAll, List.foldlM_append] at he
  obtain ⟨_, t, hbefore, he⟩ := ends_bind.mp he
  rw [List.foldlM_cons] at he
  obtain ⟨_, u, hask, hafter⟩ := ends_bind.mp he
  obtain ⟨a, u', hask, hpure⟩ := ends_bind.mp hask
  obtain ⟨-, rfl⟩ := ends_pure.mp hpure
  exact ⟨before, after, t, a, u, rfl, hbefore, hask, hafter⟩

theorem shows_askAll (he : Ends p s (askAll (projection n) rs) () s') :
    Scope.Shows p s s' fun c key u => ∃ before type after t, rs = before ++ .type type :: after ∧
      Ends p s (askAll (projection n) before) () t ∧ Visits p n true type t c key u := by
  refine (Scope.shows_foldlM (V := fun r s c key u => ∃ type, r = .type type ∧
    Visits p n true type s c key u) (fun _ r s _ s' ha => ?_) he).imp ?_
  · obtain ⟨a, t, ha, hpure⟩ := ends_bind.mp ha
    obtain ⟨-, rfl⟩ := ends_pure.mp hpure
    cases r with
    | type type =>
      obtain ⟨views, u, htype, hpure⟩ := ends_bind.mp ha
      obtain ⟨-, rfl⟩ := ends_pure.mp hpure
      apply (Scope.shows_type n true type htype).imp
      intro c key u hv
      obtain ⟨_, he, hv⟩ := hv
      cases he
      exact hv
    | _ =>
      apply (Scope.shows_of_trace (Scope.trace_of_ends (Scope.does_ask
        (Scope.widest_covers p n) (Scope.widest_allows p) _) ha)).imp
      intro _ _ _ hv
      obtain ⟨_, he, -⟩ := hv
      cases he
  · rintro c key u ⟨before, type, after, t, hsplit, hbefore, hv⟩
    exact ⟨before, _, after, (), t, hsplit, hbefore, type, rfl, hv⟩

/-- How a run of references leaves the queue that was empty before it. The
events `es` are those of the run: every visit is among them. -/
structure Queues (p : Program) (n : Nat) (rs : List Reference) (s s' : Session)
    (es : List Event) : Prop where
  run : Event.run es s = s'
  accounted : Event.Accounted p s es
  once : s'.queue.accepted.Nodup
  /-- Either the class was asked for first by a key, or it owns a function. -/
  accepted : ∀ c, c ∈ s'.queue.accepted ↔
    (∃ b ∈ Event.bindings es s, p.Introduces b c) ∨ ∃ f, .schedule c (some f) ∈ es
  visited : ∀ type c, .type type ∈ rs → p.Projects c type → ∃ before after t key u,
    rs = before ++ .type type :: after ∧ Ends p s (askAll (projection n) before) () t ∧
      Visits p n true type t c key u
  occurs : ∀ before type after t c key u, rs = before ++ .type type :: after →
    Ends p s (askAll (projection n) before) () t → Visits p n true type t c key u →
      Event.Occurs es s (.lookup key (some c)) u
  /-- A visit that finds the key without a label schedules the class and its host class. -/
  first : ∀ before type after t c key u, rs = before ++ .type type :: after →
    Ends p s (askAll (projection n) before) () t → Visits p n true type t c key u →
      u.table.find? key = none → ∀ d, p.isExternal d = true → d = c ∨ p.hostClass? c = some d →
        d ∈ s'.queue.accepted
  owner : ∀ f c, .function f ∈ rs → p.isFunction f = true → p.isExternal f = true →
    p.owner? f = some c → c ∈ s'.queue.accepted
  /-- Members of a class schedule nothing. -/
  member : ∀ r ∈ rs, ∀ id e, r.member? = some id → p.parent? id = some (.decl e) →
    p.isClass e = true → ∀ t a t', Ends p t (r.ask (projection n)) a t' → t'.queue = t.queue

theorem accepted_iff {es : List Event} (hempty : s.queue.accepted = [])
    (hacc : Event.Accounted p s es) : ∀ c, c ∈ (Event.run es s).queue.accepted ↔
      (∃ b ∈ Event.bindings es s, p.Introduces b c) ∨ ∃ f, .schedule c (some f) ∈ es := by
  intro c
  rw [Event.run_accepted, hempty, ← hacc.introduced]
  constructor
  · rintro (h | ⟨_ | f, h⟩)
    · cases h
    · exact Or.inl h
    · exact Or.inr ⟨f, h⟩
  · rintro (h | ⟨f, h⟩)
    · exact Or.inr ⟨none, h⟩
    · exact Or.inr ⟨some f, h⟩

theorem queues_of_ends (hs : s.queue = .empty) (he : Ends p s (askAll (projection n) rs) () s') :
    ∃ es, Queues p n rs s s' es := by
  obtain ⟨es, ⟨-, hacc, hrun⟩, hoccurs⟩ := shows_askAll he
  have hempty : s.queue.accepted = [] := by rw [hs]; rfl
  have haccepted := hrun ▸ accepted_iff hempty hacc
  have hoccurs : ∀ before type after t c key u, rs = before ++ .type type :: after →
      Ends p s (askAll (projection n) before) () t → Visits p n true type t c key u →
        Event.Occurs es s (.lookup key (some c)) u :=
    fun before type after t c key u hsplit hbefore hv =>
      hoccurs c key u ⟨before, type, after, t, hsplit, hbefore, hv⟩
  refine ⟨es, hrun, hacc, ?_, haccepted, ?_, hoccurs, ?_, ?_, ?_⟩
  · rw [← hrun]
    exact Event.run_nodup es (by rw [hempty]; exact List.nodup_nil)
  · intro type c htype hc
    obtain ⟨before, after, t, a, u, hsplit, hbefore, hask, -⟩ := ends_askAll_of_mem htype he
    obtain ⟨views, v, hview, -⟩ := ends_bind.mp hask
    obtain ⟨key, w, hv⟩ := Scope.visits_of_projects hc hview
    exact ⟨before, after, t, key, w, hsplit, hbefore, hv⟩
  · intro before type after t c key u hsplit hbefore hv hu d hd hcd
    have hb := (hoccurs before type after t c key u hsplit hbefore hv).binding hu
    exact (haccepted d).mpr (Or.inl ⟨_, hb, c, rfl, hd, hcd⟩)
  · intro f c hf hfunction hx hc
    obtain ⟨before, after, t, a, u, -, -, hask, hafter⟩ := ends_askAll_of_mem hf he
    obtain ⟨l, v, hfun, hpure⟩ := ends_bind.mp hask
    obtain ⟨-, rfl⟩ := ends_pure.mp hpure
    obtain ⟨fs, ⟨-, -, hrest⟩, -⟩ := shows_askAll hafter
    rw [← hrest]
    exact (Event.run_accepted fs _ c).mpr
      (Or.inl (Scope.accepted_function hfunction hx hc hfun))
  · intro r _ id e hid hparent hclass t a t' hask
    cases r with
    | field _ | property _ | enumEntry _ =>
      cases hid
      obtain ⟨l, u, hmember, hpure⟩ := ends_bind.mp hask
      obtain ⟨-, rfl⟩ := ends_pure.mp hpure
      exact Scope.member_queue hparent hclass hmember
    | _ => cases hid

/-- Two classes that go by one name on the host. -/
def lists : Program :=
  let external (package name : String) : Declaration :=
    { parent := .package package, origin := .externalStub, kind := .class { name } }
  { files := #[]
    declarations := #[external "kotlin.collections" "List",
      external "kotlin.collections" "MutableList", external "java.util" "List"]
    classIndex := [("kotlin.collections.List", ⟨0⟩), ("kotlin.collections.MutableList", ⟨1⟩),
      ("java.util.List", ⟨2⟩)] }

/-- The second of them finds the key with a label and stays out of the queue. -/
theorem queues_of_ends_lists :
    let rs : List Reference := [.type (.ofClass ⟨0⟩ []), .type (.ofClass ⟨1⟩ [])]
    let s : Session :=
      { file := .source (.ofSink .unbounded) "a.kt" .single, counter := {}, queue := .empty }
    lists.isExternal ⟨1⟩ = true ∧ lists.Projects ⟨1⟩ (.ofClass ⟨1⟩ []) ∧
      ∃ s' es, Ends lists s (askAll (projection 8) rs) () s' ∧
        s'.queue.accepted = [⟨2⟩, ⟨0⟩] ∧ Queues lists 8 rs s s' es := by
  have hview : lists.classView? { classifier := .ofClass ⟨1⟩ } = some (⟨1⟩, []) := by
    decide +kernel
  refine ⟨by decide, .here hview, ?_⟩
  obtain ⟨_, s', he, haccepted⟩ := ends_of_map (p := lists)
    (s := { file := .source (.ofSink .unbounded) "a.kt" .single, counter := {}, queue := .empty })
    (m := askAll (projection 8) [.type (.ofClass ⟨0⟩ []), .type (.ofClass ⟨1⟩ [])])
    (f := fun r => r.2.queue.accepted) (b := [⟨2⟩, ⟨0⟩]) (by decide +kernel)
  obtain ⟨es, hqueues⟩ := queues_of_ends rfl he
  exact ⟨s', es, he, haccepted, hqueues⟩

end Reference

end IrFacts
