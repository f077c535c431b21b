import IrFacts.Proofs.Labels.Faithful
import IrFacts.Proofs.Labels.Stability
import IrFacts.Proofs.Run.Fuel
import IrFacts.Proofs.Run.Settles
import Mathlib.Data.List.Forall2

/-!
# What is asked in another file

A reference gets the same answer wherever it is asked, also while places are
attributed to another file: the answer is told by the labels alone. The labels
that are answered stand in the table, unless they are the placeholder.
-/

set_option autoImplicit false

namespace IrFacts

/-- The label stands in the table, or for what could not be resolved. -/
def LabelTable.Gives (t : LabelTable) (l : Label) : Prop :=
  l = .placeholder ∨ ∃ key, t.find? key = some l

theorem LabelTable.Gives.mono {t u : LabelTable} {l : Label} (h : t.Gives l) (hle : t.Le u) :
    u.Gives l :=
  h.imp_right fun ⟨key, hkey⟩ => ⟨key, hle key l hkey⟩

theorem LabelTable.Gives.number {t : LabelTable} {l : Label} (h : t.Gives l) (ht : t.Faithful) :
    ∃ n, l = .number n := by
  rcases h with rfl | ⟨key, hkey⟩
  · exact ⟨0, rfl⟩
  · obtain ⟨n, hn, -⟩ := ht.bound key l hkey
    exact ⟨n, hn⟩

theorem Session.Le.table {s t : Session} (h : s.Le t) : s.table.Le t.table := h.find?

namespace Extract

variable {α : Type} {p : Program} {π : Projection} {s s' : Session}

theorem recalls_labelWith {key : String} {define : Label → Extract Unit}
    (hd : ∀ l, Grows p (define l)) {s s' t t' : Session} {a b : Label}
    (he : Ends p s (labelWith key define) a s') (ht : s'.table.Le t.table)
    (hb : Ends p t (labelWith key define) b t') : b = a := by
  have hkey := ht key _ (bound_of_labelWith hd he).2
  rcases (ends_labelWith none).mp hb with ⟨hk, -⟩ | ⟨hk, -⟩
  · exact Option.some.inj (hk.symm.trans hkey)
  · cases hk.symm.trans hkey

theorem recalls_findOrComplain {key : String} {s s' t t' : Session} {a b : Label}
    (he : Ends p s (findOrComplain key) a s') (ht : s'.table.Le t.table)
    (hb : Ends p t (findOrComplain key) b t') : b = a := by
  have hkey := ht key _ (bound_of_findOrComplain he).2
  obtain ⟨found, u, hf, hb⟩ := ends_bind.mp hb
  obtain ⟨rfl, rfl⟩ := ends_find?.mp hf
  rw [hkey] at hb
  exact (ends_pure.mp hb).1

/-- Once a question has been answered, it has the same answer wherever the labels are known. By
induction on how the question is put together: nothing that is answered depends on the target. -/
theorem Asks.recalls {m : Extract α} (h : Asks p m) {s s' t t' : Session} {a b : α}
    (he : Ends p s m a s') (ht : s'.table.Le t.table) (hb : Ends p t m b t') : b = a := by
  induction h generalizing s s' t t' with
  | pure a => rw [(ends_pure.mp he).1, (ends_pure.mp hb).1]
  | throw e => exact absurd he ends_throw
  | bind hm hf ihm ihf =>
    obtain ⟨a, s₁, ha, he⟩ := ends_bind.mp he
    obtain ⟨c, t₁, hc, hb⟩ := ends_bind.mp hb
    have hs₁ := ((hf a ⟨s, s₁, ha⟩).grows _ _ _ he).table
    obtain rfl := ihm ha (hs₁.trans ht) hc
    exact ihf c ⟨s, s₁, ha⟩ he (ht.trans (hm.grows _ _ _ hc).table) hb
  | label _ hd => exact recalls_labelWith hd he ht hb
  | found => exact recalls_findOrComplain he ht hb
  | report => rfl
  | schedule => rfl
  | target => rfl
  | same hsame _ ih => exact ih ((hsame s).symm.trans he) ht ((hsame t).symm.trans hb)

/-! ## Projection -/

/-- What projection answers is remembered, and its labels stand in the table. -/
structure Remembers (p : Program) (π : Projection) : Prop extends Stable p π where
  givesType : ∀ {s primitives type v s'}, Ends p s (π.type primitives type) v s' →
    s'.table.Gives v.host.label
  bindsInstance : ∀ {s id arguments c s'}, Ends p s (π.classInstance id arguments) c s' →
    ∃ labels : List Label, labels.length = arguments.length ∧
      s'.table.find? ("class;" ++ p.instanceText (p.onHost id) labels) = some c.label

/-! ### Arguments -/

theorem gives_wildcard {kind : Trap.WildcardKind} {key : String} {argument : TypeArgument}
    {bound l : Label} (h : Ends p s (Projection.wildcard kind key argument bound) l s') :
    s'.table.Gives l :=
  .inr ⟨key, (bound_of_labelWith (fun id => grows_extractWildcard _ _ _ id)
    (ends_read_bind.mp h)).2⟩

theorem gives_argument (hπ : Remembers p π) {a : TypeArgument} {l : Label}
    (h : Ends p s (π.argument a) l s') : s'.table.Gives l := by
  cases a with
  | star =>
    obtain ⟨v, t, -, h⟩ := ends_bind.mp (ends_read_bind.mp h)
    exact gives_wildcard h
  | projection variance type =>
    obtain ⟨v, t, hv, h⟩ := ends_bind.mp h
    cases variance with
    | invariant =>
      obtain ⟨rfl, rfl⟩ := ends_pure.mp h
      exact hπ.givesType hv
    | covariant => exact gives_wildcard h
    | contravariant => exact gives_wildcard h

/-- By induction on the arguments: their labels follow the name one by one. -/
theorem labels_arguments (hπ : Remembers p π) {arguments : List TypeArgument}
    {name text : String} (h : Ends p s (arguments.foldlM
      (fun text a => do return text ++ ";" ++ (← π.argument a).braced) name) text s') :
    ∃ labels, List.Forall₂ (fun a l => ∃ t u, Ends p t (π.argument a) l u ∧ u.table.Le s'.table)
        arguments labels ∧
      text = labels.foldl (fun text l => text ++ ";" ++ l.braced) name := by
  induction arguments generalizing s name with
  | nil =>
    obtain ⟨rfl, rfl⟩ := ends_pure.mp h
    exact ⟨[], .nil, rfl⟩
  | cons a arguments ih =>
    rw [List.foldlM_cons] at h
    obtain ⟨next, t, hfirst, h⟩ := ends_bind.mp h
    obtain ⟨l, t, hl, hnext⟩ := ends_bind.mp hfirst
    obtain ⟨rfl, rfl⟩ := ends_pure.mp hnext
    obtain ⟨labels, hlabels, rfl⟩ := ih h
    have hgrows := (asks_arguments hπ.toStable arguments _).grows _ _ _ h
    exact ⟨l :: labels, .cons ⟨s, t, hl, hgrows.table⟩ hlabels, rfl⟩

theorem labels_instanceName (hπ : Remembers p π) {id : DeclId} {arguments : List TypeArgument}
    {text : String} (h : Ends p s (π.instanceName id arguments) text s') :
    ∃ labels, List.Forall₂ (fun a l => ∃ t u, Ends p t (π.argument a) l u ∧ u.table.Le s'.table)
        arguments labels ∧
      text = p.instanceText id labels :=
  labels_arguments hπ (ends_read_bind.mp h)

/-! ### Classes -/

theorem binds_classInstanceStep (hπ : Remembers p π) {id : DeclId} {arguments : List TypeArgument}
    {c : ClassInstance} (h : Ends p s (π.classInstanceStep id arguments) c s') :
    ∃ labels : List Label, labels.length = arguments.length ∧
      s'.table.find? ("class;" ++ p.instanceText (p.onHost id) labels) = some c.label := by
  obtain ⟨text, t, htext, h⟩ := ends_bind.mp (ends_read_bind.mp h)
  obtain ⟨label, _, hlabel, h⟩ := ends_bind.mp h
  obtain ⟨rfl, rfl⟩ := ends_pure.mp h
  obtain ⟨labels, hlabels, rfl⟩ := labels_instanceName hπ htext
  exact ⟨labels, hlabels.length_eq.symm,
    (bound_of_labelWith (fun l => grows_classInstance hπ.toStable id arguments l) hlabel).2⟩

theorem gives_instance (hπ : Remembers p π) {id : DeclId} {arguments : List TypeArgument}
    {c : ClassInstance} (h : Ends p s (π.classInstance id arguments) c s') :
    s'.table.Gives c.label := by
  obtain ⟨labels, -, hkey⟩ := hπ.bindsInstance h
  exact .inr ⟨_, hkey⟩

theorem gives_classType (hπ : Remembers p π) {id : DeclId} {arguments : List TypeArgument}
    {nullable : Bool} {v : TypeViews} (h : Ends p s (π.classType id arguments nullable) v s') :
    s'.table.Gives v.host.label := by
  obtain ⟨c, t, hc, h⟩ := ends_bind.mp h
  obtain ⟨name, u, hname, h⟩ := ends_bind.mp (ends_read_bind.mp h)
  obtain ⟨rich, w, hrich, h⟩ := ends_bind.mp h
  obtain ⟨rfl, rfl⟩ := ends_pure.mp h
  have hgrows := ((asks_instanceName hπ.toStable id arguments).grows _ _ _ hname).trans
    ((asks_richType name c.label nullable).grows _ _ _ hrich)
  exact (gives_instance hπ hc).mono hgrows.table

/-! ### Primitives and arrays -/

theorem gives_primitiveHost {info : Builtins.PrimitiveInfo} {allowed : Bool} {v : TypeView}
    (h : Ends p s (Projection.primitiveHost info allowed) v s') : s'.table.Gives v.label := by
  unfold Projection.primitiveHost at h
  split at h
  · obtain ⟨l, t, hl, h⟩ := ends_bind.mp h
    obtain ⟨rfl, rfl⟩ := ends_pure.mp h
    exact .inr ⟨_, (bound_of_labelWith (fun _ => grows_write _) hl).2⟩
  · obtain ⟨l, t, hl, h⟩ := ends_bind.mp h
    obtain ⟨rfl, rfl⟩ := ends_pure.mp h
    obtain ⟨package, u, -, hl⟩ := ends_bind.mp hl
    exact .inr ⟨_, (bound_of_labelWith (fun _ => grows_write _) hl).2⟩

theorem gives_primitiveType (hπ : Remembers p π) {info : Builtins.PrimitiveInfo} {id : DeclId}
    {nullable primitives : Bool} {v : TypeViews}
    (h : Ends p s (π.primitiveType info id nullable primitives) v s') :
    s'.table.Gives v.host.label := by
  obtain ⟨host, t, hhost, h⟩ := ends_bind.mp h
  obtain ⟨c, u, hc, h⟩ := ends_bind.mp h
  obtain ⟨rich, w, hrich, h⟩ := ends_bind.mp h
  obtain ⟨rfl, rfl⟩ := ends_pure.mp h
  have hgrows := ((hπ.asksInstance id []).grows _ _ _ hc).trans
    ((asks_richType _ c.label nullable).grows _ _ _ hrich)
  exact (gives_primitiveHost hhost).mono hgrows.table

theorem gives_arrayType (hπ : Remembers p π) {array : SimpleType} {v : TypeViews}
    (h : Ends p s (π.arrayType array) v s') : s'.table.Gives v.host.label := by
  obtain ⟨component, t, -, h⟩ := ends_bind.mp (ends_read_bind.mp h)
  obtain ⟨element, u, -, h⟩ := ends_bind.mp h
  obtain ⟨l, w, hl, h⟩ := ends_bind.mp h
  have hkey := (bound_of_labelWith (fun l => grows_extractArray hπ.toStable _ _ _ _ _ l) hl).2
  dsimp only at h
  split at h
  · next id _ =>
    obtain ⟨rich, x, hrich, h⟩ := ends_bind.mp h
    obtain ⟨rfl, rfl⟩ := ends_pure.mp h
    exact .inr ⟨_, ((asks_classType hπ.toStable _ _ _).grows _ _ _ hrich).table _ _ hkey⟩
  · obtain ⟨rfl, rfl⟩ := ends_pure.mp h
    exact .inr ⟨_, hkey⟩

/-! ### Members and type parameters -/

theorem gives_typeParameterUse {id : DeclId} {l : Label}
    (h : Ends p s (π.typeParameterUse id) l s') : s'.table.Gives l := by
  obtain ⟨found, t, -, h⟩ := ends_bind.mp h
  cases found with
  | none =>
    obtain ⟨u, w, -, h⟩ := ends_bind.mp h
    exact .inl (ends_pure.mp h).1
  | some key => exact .inr ⟨key, (bound_of_findOrComplain h).2⟩

theorem gives_typeParameterType {id : DeclId} {nullable : Bool} {v : TypeViews}
    (h : Ends p s (π.typeParameterType id nullable) v s') : s'.table.Gives v.host.label := by
  obtain ⟨host, t, hhost, h⟩ := ends_bind.mp (ends_read_bind.mp h)
  obtain ⟨c, u, hc, h⟩ := ends_bind.mp h
  obtain ⟨rich, w, hrich, h⟩ := ends_bind.mp h
  obtain ⟨rfl, rfl⟩ := ends_pure.mp h
  have hgrows := ((asks_namedClass "kotlin" "TypeParam").grows _ _ _ hc).trans
    ((asks_richType _ c nullable).grows _ _ _ hrich)
  exact (gives_typeParameterUse hhost).mono hgrows.table

/-! ### The knot -/

theorem gives_unknown {problem : Problem} {v : TypeViews}
    (h : Ends p s (do complain problem; return .unknown) v s') : s'.table.Gives v.host.label := by
  obtain ⟨u, t, -, h⟩ := ends_bind.mp h
  obtain ⟨rfl, rfl⟩ := ends_pure.mp h
  exact .inl rfl

theorem gives_typeStep (hπ : Remembers p π) {primitives : Bool} {type : IrType} {v : TypeViews}
    (h : Ends p s (π.typeStep primitives type) v s') : s'.table.Gives v.host.label := by
  cases type with
  | error description => exact gives_unknown h
  | simple type =>
    have h := ends_read_bind.mp h
    dsimp only at h
    rw [when_bind] at h
    obtain ⟨u, t, -, h⟩ := ends_bind.mp h
    split at h
    · exact gives_typeParameterType h
    · split at h
      · exact gives_unknown h
      · split at h
        · exact gives_primitiveType hπ h
        · split at h
          · exact gives_arrayType hπ h
          · exact gives_classType hπ h

theorem remembers_projection (p : Program) (fuel : Nat) : Remembers p (projection fuel) := by
  induction fuel with
  | zero =>
    exact ⟨stable_projection p 0, fun h => absurd h ends_throw, fun h => absurd h ends_throw⟩
  | succ fuel ih =>
    exact ⟨stable_projection p (fuel + 1), fun h => gives_typeStep ih h,
      fun h => binds_classInstanceStep ih h⟩

/-! ## Labels of arguments -/

/-- In this table the label is that of the argument, whatever fuel there is. -/
structure Answered (p : Program) (t : LabelTable) (a : TypeArgument) (l : Label) : Prop where
  gives : t.Gives l
  again : ∀ {fuel u m u'}, t.Le u.table → Ends p u ((projection fuel).argument a) m u' → m = l

theorem Answered.mono {t u : LabelTable} {a : TypeArgument} {l : Label} (h : Answered p t a l)
    (hle : t.Le u) : Answered p u a l :=
  ⟨h.gives.mono hle, fun hu he => h.again (hle.trans hu) he⟩

theorem answered_argument {fuel : Nat} {a : TypeArgument} {l : Label}
    (h : Ends p s ((projection fuel).argument a) l s') : Answered p s'.table a l := by
  refine ⟨gives_argument (remembers_projection p fuel) h, fun {other} u m u' hle hm => ?_⟩
  have more (n : Nat) (hn : n ≤ max fuel other) :=
    (refines_projection p hn).argument a
  exact (asks_argument (stable_projection p (max fuel other)) a).recalls
    (more fuel (Nat.le_max_left ..) _ _ _ h) hle (more other (Nat.le_max_right ..) _ _ _ hm)

theorem answered_instanceName {fuel : Nat} {id : DeclId} {arguments : List TypeArgument}
    {text : String} (h : Ends p s ((projection fuel).instanceName id arguments) text s') :
    ∃ labels, List.Forall₂ (Answered p s'.table) arguments labels ∧
      text = p.instanceText id labels := by
  obtain ⟨labels, hlabels, rfl⟩ := labels_instanceName (remembers_projection p fuel) h
  refine ⟨labels, hlabels.imp fun _ _ ⟨t, u, hl, hle⟩ => ?_, rfl⟩
  exact (answered_argument hl).mono hle

end Extract

end IrFacts
