import IrFacts.Proofs.Program.Walks
import IrFacts.Proofs.Run.SettledProjection
import IrFacts.Proofs.Types.Family

/-!
# Parents that are labelled

What a declaration is nested in has a label that is made of its erased types
and of its own parent. Where functions nest, this comes to an end, and so every
type parameter is projected as soon as the erased types of functions are.
-/

set_option autoImplicit false

namespace IrFacts

namespace Extract

variable {α : Type} {p : Program} {s t : Session}

/-- An operation of projection answers if its step does. -/
theorem answersOn_succ {m m' : Projection → Extract α}
    (hm : ∀ fuel, m' (projection (fuel + 1)) = m (projection fuel)) (h : AnswersOn p s m) :
    AnswersOn p s m' := by
  intro t ht
  obtain ⟨a, u, ha, ho, hr⟩ := h t ht
  refine ⟨a, u, surely_succ hm ha, ho, fun v hv => ?_⟩
  obtain ⟨w, hw, htable⟩ := hr v hv
  exact ⟨w, surely_succ hm hw, htable⟩

/-! ## Members -/

theorem answers_scheduleOwner {steps : Nat} {id : DeclId} (h : p.EndsWithin steps id) :
    Answers p s fun _ => Projection.scheduleOwner steps id := by
  induction steps generalizing id s with
  | zero => exact h.elim
  | succ steps ih =>
    apply answers_read
    cases hparent : p.parent? id with
    | none => exact answers_complain _
    | some parent =>
      cases parent with
      | file file => exact answers_complain _
      | package name => exact answers_pure ()
      | decl parent =>
        exact answers_ite (fun _ => answers_schedule parent) fun _ =>
          answers_ite (fun hfunction => ih (h parent hparent hfunction)) fun _ => answers_complain _

def SignatureAnswers (p : Program) (s : Session) (types : List IrType) : Prop :=
  ∀ type ∈ types, TypeAnswers p s (p.erase type)

theorem SignatureAnswers.onward {types : List IrType} (h : SignatureAnswers p s types)
    (ho : s.Onward t) : SignatureAnswers p t types := fun type htype => (h type htype).onward ho

theorem answers_callableKey {parent : DeclParent} (name : String) {parameters : List IrType}
    {result : IrType} (hsignature : SignatureAnswers p s (result :: parameters))
    (hparent : AnswersOn p s fun π => π.parent parent) :
    Answers p s fun π => π.callableKey parent name parameters result := by
  refine answers_read (answers_bind (answers_mapM fun type htype t ht => ?_) fun _ t₁ h₁ => ?_)
  · have hanswers := (hsignature type (List.mem_cons_of_mem _ htype)).onward ht
    exact answers_bind (answers_hostLabel hanswers) fun _ _ _ => answers_pure _
  · have hanswers := (hsignature result (List.mem_cons_self ..)).onward h₁
    exact answers_bind (answers_hostLabel hanswers) fun _ t₂ h₂ =>
      answers_bind (hparent.onward (h₁.trans h₂)).here fun _ _ _ => answers_pure _

theorem answers_function {id : DeclId} (hn : p.FunctionsNest)
    (hsignature : ∀ f, p.function? id = some f → SignatureAnswers p s (p.signature f))
    (hparent : ∀ parent, p.parent? id = some parent → AnswersOn p s fun π => π.parent parent) :
    Answers p s fun π => π.function id := by
  have hmissing : Answers p s fun _ => (do
      complain (.callTarget id)
      return Label.placeholder) :=
    answers_bind (answers_complain _) fun _ _ _ => answers_pure _
  apply answers_read
  cases hd : p.decl? id with
  | none => exact hmissing
  | some d =>
    cases hf : p.function? id with
    | none => exact hmissing
    | some f =>
      have hkey := answers_callableKey f.name (hsignature f hf)
        (hparent d.parent (by simp [Program.parent?, hd]))
      exact answers_bind hkey fun _ _ _ => answers_bind (answers_labelFor _) fun _ _ _ =>
        answers_when_bind (fun _ => answers_scheduleOwner (Program.endsWithin_walkLimit hn id))
          fun _ _ => answers_pure _

/-! ## Parents -/

def SignaturesAnswer (p : Program) (s : Session) : Prop :=
  ∀ id f, p.function? id = some f → SignatureAnswers p s (p.signature f)

theorem SignaturesAnswer.onward (h : SignaturesAnswer p s) (ho : s.Onward t) :
    SignaturesAnswer p t := fun id f hf => (h id f hf).onward ho

theorem answers_parentStep {parent : DeclParent} (hn : p.FunctionsNest)
    (hsignatures : SignaturesAnswer p s)
    (hnext : ∀ id, parent = .decl id → p.isFunction id = true →
      ∀ next, p.parent? id = some next → AnswersOn p s fun π => π.parent next) :
    Answers p s fun π => π.parentStep parent := by
  cases parent with
  | file file => exact answers_fileClassLabel file
  | package name => exact answers_packageLabel name
  | decl id =>
    have hother (kind : Option DeclKind) : Answers p s fun _ => (do
        complain (.declarationParent (Projection.describe kind))
        return Label.placeholder) :=
      answers_bind (answers_complain _) fun _ _ _ => answers_pure _
    apply answers_read
    cases hkind : p.kind? id with
    | none => exact hother none
    | some kind =>
      cases kind with
      | «class» c => exact answers_classSource id
      | function f =>
        obtain ⟨d, hd, hk⟩ := Option.map_eq_some_iff.mp hkind
        have hfunction : p.isFunction id = true := by
          simp [Program.isFunction, Program.function?, hd, hk]
        exact answers_function hn (hsignatures id) (hnext id rfl hfunction)
      | _ => exact hother (some _)

/-- Every parent is labelled, by induction on the functions around it. -/
theorem answersOn_parent (hn : p.FunctionsNest) (hsignatures : SignaturesAnswer p s)
    (parent : DeclParent) : AnswersOn p s fun π => π.parent parent := by
  suffices h : ∀ steps parent,
      (∀ id, parent = .decl id → p.isFunction id = true → p.EndsWithin steps id) →
        AnswersOn p s fun π => π.parent parent from
    h p.walkLimit parent fun id _ _ => Program.endsWithin_walkLimit hn id
  intro steps
  induction steps with
  | zero =>
    intro parent hends
    refine answersOn_succ (m := fun π => π.parentStep parent) (fun _ => rfl) fun t ht => ?_
    exact answers_parentStep hn (hsignatures.onward ht) fun id hid hfunction =>
      (hends id hid hfunction).elim
  | succ steps ih =>
    intro parent hends
    refine answersOn_succ (m := fun π => π.parentStep parent) (fun _ => rfl) fun t ht => ?_
    refine answers_parentStep hn (hsignatures.onward ht) fun id hid hfunction next hnext => ?_
    exact (ih next fun other hother => hends id hid hfunction other (hother ▸ hnext)).onward ht

/-! ## Type parameters -/

theorem ends_labelFor_bound (key : String) (s : Session) :
    ∃ l t, Ends p s (labelFor key) l t ∧ s.Onward t ∧ t.table.find? key = some l := by
  rw [labelFor_eq]
  cases hfound : s.table.find? key with
  | some l => exact ⟨l, s, (ends_labelWith none).mpr (.inl ⟨hfound, rfl⟩), .refl s, hfound⟩
  | none =>
    exact ⟨_, _, (ends_labelWith none).mpr (.inr ⟨hfound, rfl, ends_pure.mpr ⟨rfl, rfl⟩⟩),
      onward_lookup key s, find?_lookup key s hfound⟩

/-- The label of a key, which is complained about if it has none. -/
theorem answers_findOr (key : String) (problem : Problem) : Answers p s fun _ => (do
    match ← find? key with
    | some label => return label
    | none =>
      complain problem
      labelFor key) := by
  have hknown {t : Session} {label : Label} (h : t.table.find? key = some label) :
      Ends p t (do
        match ← find? key with
        | some label => return label
        | none =>
          complain problem
          labelFor key) label t :=
    ends_bind.mpr ⟨some label, t, ends_find?.mpr ⟨h.symm, rfl⟩, ends_pure.mpr ⟨rfl, rfl⟩⟩
  cases hfound : s.table.find? key with
  | some label =>
    exact answers_of_ends label (hknown hfound) (.refl s) fun t ht =>
      ⟨t, hknown (ht key label hfound), rfl⟩
  | none =>
    obtain ⟨⟨⟩, t, ⟨least, hleast⟩, hst⟩ := (answers_complain (p := p) (s := s) problem).settles
    obtain ⟨label, u, hlabel, htu, hbound⟩ := ends_labelFor_bound (p := p) key t
    refine answers_of_ends label ?_ (hst.trans htu) fun v hv =>
      ⟨v, hknown (hv key label hbound), rfl⟩
    exact ends_bind.mpr ⟨none, s, ends_find?.mpr ⟨hfound.symm, rfl⟩,
      ends_bind.mpr ⟨(), t, hleast least (Nat.le_refl least), hlabel⟩⟩

theorem answers_typeParameterUse (id : DeclId)
    (hparent : ∀ parent, AnswersOn p s fun π => π.parent parent) :
    Answers p s fun π => π.typeParameterUse id := by
  have hkey : Answers p s fun π => π.typeParameterKey? id := by
    apply answers_read
    cases p.decl? id with
    | none => exact answers_pure none
    | some d =>
      cases p.typeParameter? id with
      | none => exact answers_pure none
      | some q => exact answers_bind (hparent d.parent).here fun _ _ _ => answers_pure _
  refine answers_bind hkey fun key t ht => ?_
  cases key with
  | none => exact answers_bind (answers_complain _) fun _ _ _ => answers_pure _
  | some key => exact answers_findOr key _

theorem answers_typeParameterType (id : DeclId) (nullable : Bool)
    (hparent : ∀ parent, AnswersOn p s fun π => π.parent parent) :
    Answers p s fun π => π.typeParameterType id nullable := by
  refine answers_read (answers_bind (answers_typeParameterUse id hparent) fun _ _ _ => ?_)
  refine answers_bind (answers_namedClass _ _) fun _ _ _ => ?_
  exact answers_bind (answers_richType _ _ _) fun _ _ _ => answers_pure _

end Extract

end IrFacts
