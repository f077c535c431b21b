import IrFacts.Proofs.Labels.IntroducedOnce
import IrFacts.Proofs.Labels.Stability
import IrFacts.Proofs.Run.Fuel
import IrFacts.Proofs.Types.NormalForm

/-!
# Labels stand for forms

Whatever type is projected gets the label of its form. The form is found along
with the label, part by part, and as a session only grows the label stays that
of the form. So two types have one label just when they have one form.
-/

set_option autoImplicit false

namespace IrFacts

open Extract

namespace Session

variable {p : Program} {s t : Session} {P : Session → Prop}

/-- The label that a parent gets in the session. -/
def Owner (s : Session) (p : Program) (parent : DeclParent) (l : Label) : Prop :=
  ∃ fuel s', Ends p s ((projection fuel).parent parent) l s'

theorem owner_unique (s : Session) (p : Program) : Relator.RightUnique (s.Owner p) := by
  rintro parent l m ⟨_, _, hl⟩ ⟨_, _, hm⟩
  exact parent_unique hl hm

/-- What holds of every session that knows what `s` knows and tells its keys apart. -/
def Hereafter (s : Session) (P : Session → Prop) : Prop := ∀ u, s.Le u → u.table.Faithful → P u

theorem Hereafter.of_le (h : s.Hereafter P) (hst : s.Le t) : t.Hereafter P :=
  fun u hu => h u (hst.trans hu)

end Session

/-- In the session the type has the form, and the form has the label. -/
structure HostForm.Fits (p : Program) (u : Session) (primitives : Bool) (type : IrType) (l : Label)
    (f : HostForm) : Prop where
  plain : f.Plain
  label : f.label? u.table = some l
  of : f.Of p (u.Owner p) primitives type

structure HostArgument.Fits (p : Program) (u : Session) (argument : TypeArgument) (l : Label)
    (a : HostArgument) : Prop where
  plain : a.Plain
  label : a.label? u.table = some l
  of : a.Of p (u.Owner p) argument

structure HostArgument.AllFit (p : Program) (u : Session) (arguments : List TypeArgument)
    (ls : List Label) (as : List HostArgument) : Prop where
  plain : AllPlain as
  labels : labels? u.table as = some ls
  of : AllOf p (u.Owner p) as arguments

theorem HostArgument.Fits.cons {p : Program} {u : Session} {argument : TypeArgument}
    {arguments : List TypeArgument} {l : Label} {ls : List Label} {a : HostArgument}
    {as : List HostArgument} (h : a.Fits p u argument l) (k : AllFit p u arguments ls as) :
    AllFit p u (argument :: arguments) (l :: ls) (a :: as) where
  plain := ⟨h.plain, k.plain⟩
  labels := by simp [labels?, h.label, k.labels]
  of := ⟨argument, arguments, rfl, h.of, k.of⟩

theorem HostArgument.allFit_nil {p : Program} {u : Session} : AllFit p u [] [] [] :=
  ⟨trivial, rfl, rfl⟩

structure RichForm.Fits (p : Program) (u : Session) (type : IrType) (l : Label) (r : RichForm) :
    Prop where
  plain : r.Plain
  label : r.label? u.table = some l
  of : r.Of p (u.Owner p) type

variable {p : Program} {u : Session} {l m : Label}

theorem HostForm.Fits.label_eq_iff {primitives others : Bool} {type other : IrType}
    {f g : HostForm} (hf : f.Fits p u primitives type l) (hu : u.table.Faithful)
    (hg : g.Fits p u others other m) : l = m ↔ f = g := by
  constructor
  · rintro rfl
    exact HostForm.eq_of_label? hu f g hf.plain hg.plain hf.label hg.label
  · rintro rfl
    exact Option.some.inj (hf.label.symm.trans hg.label)

theorem RichForm.Fits.label_eq_iff {type other : IrType} {r q : RichForm}
    (hr : r.Fits p u type l) (hu : u.table.Faithful) (hq : q.Fits p u other m) :
    l = m ↔ r = q := by
  constructor
  · rintro rfl
    exact RichForm.eq_of_label? hu hr.plain hq.plain hr.label hq.label
  · rintro rfl
    exact Option.some.inj (hr.label.symm.trans hq.label)

/-- What the operations of projection give labels to, from when on they have ended. -/
structure Projection.Consing (p : Program) (π : Projection) : Prop extends Stable p π where
  formOfType : ∀ {s primitives type v s'}, Ends p s (π.type primitives type) v s' →
    ∃ f : HostForm, s'.Hereafter fun u => f.Fits p u primitives type v.host.label
  formOfClass : ∀ {s primitives type v s'}, Ends p s (π.type primitives type) v s' →
    p.OverClass type → ∃ r : RichForm, s'.Hereafter fun u => r.Fits p u type v.rich.label
  formsOfInstance : ∀ {s id arguments c s'}, Ends p s (π.classInstance id arguments) c s' →
    ∃ as ls, s'.Hereafter fun u => HostArgument.AllFit p u arguments ls as ∧
      u.table.find? ("class;" ++ instanceText (p.nameInKeys (p.onHost id)) ls) = some c.label
  owner : ∀ {s parent l s'}, Ends p s (π.parent parent) l s' →
    s'.Hereafter fun u => u.Owner p parent l ∧ ∃ n, l = .number n

namespace Projection

variable {p : Program} {π : Projection} {s s' : Session}

/-! ## Arguments -/

theorem bound_of_wildcard {kind : Trap.WildcardKind} {key : String} {a : TypeArgument}
    {bound l : Label} (h : Ends p s (wildcard kind key a bound) l s') :
    s.Le s' ∧ s'.table.find? key = some l :=
  bound_of_labelWith (fun _ => grows_of_does fun t =>
    Scope.does_extractWildcard (Scope.widest_knows t _) (Scope.widest_knows t bound))
    (ends_read_bind.mp h)

theorem fits_argument (hπ : Consing p π) {a : TypeArgument} {l : Label}
    (h : Ends p s (π.argument a) l s') :
    ∃ x : HostArgument, s'.Hereafter fun u => x.Fits p u a l := by
  cases a with
  | star =>
    obtain ⟨v, t, -, h⟩ := ends_bind.mp (ends_read_bind.mp h)
    have hkey := (bound_of_wildcard h).2
    exact ⟨.star, fun u hu ht => ⟨trivial, hu.find? _ _ hkey, rfl⟩⟩
  | projection variance type =>
    obtain ⟨v, t, htype, h⟩ := ends_bind.mp h
    obtain ⟨f, hf⟩ := hπ.formOfType htype
    obtain ⟨hle, hover⟩ : t.Le s' ∧ HostArgument.over? s'.table v.host.label variance = some l := by
      cases variance with
      | invariant =>
        obtain ⟨rfl, rfl⟩ := ends_pure.mp h
        exact ⟨.refl _, rfl⟩
      | covariant =>
        obtain ⟨hle, hkey⟩ := bound_of_wildcard h
        exact ⟨hle, by rw [HostArgument.over?, ← String.append_assoc]; exact hkey⟩
      | contravariant =>
        obtain ⟨hle, hkey⟩ := bound_of_wildcard h
        exact ⟨hle, by rw [HostArgument.over?, ← String.append_assoc]; exact hkey⟩
    refine ⟨.projection variance f, fun u hu ht => ?_⟩
    obtain ⟨hplain, hlabel, hof⟩ := hf u (hle.trans hu) ht
    have hstays := HostArgument.over?_of_find? hu.find? hover
    exact ⟨hplain, Option.bind_eq_some_iff.mpr ⟨_, hlabel, hstays⟩, type, rfl, hof⟩

/-- By induction on the arguments: their labels follow the name one by one. -/
theorem allFit_arguments (hπ : Consing p π) {arguments : List TypeArgument} {name text : String}
    (h : Ends p s (arguments.foldlM
      (fun text a => do return text ++ ";" ++ (← π.argument a).braced) name) text s') :
    ∃ as ls, text = instanceText name ls ∧
      s'.Hereafter fun u => HostArgument.AllFit p u arguments ls as := by
  induction arguments generalizing s name with
  | nil =>
    obtain ⟨rfl, rfl⟩ := ends_pure.mp h
    exact ⟨[], [], rfl, fun _ _ _ => HostArgument.allFit_nil⟩
  | cons a arguments ih =>
    rw [List.foldlM_cons] at h
    obtain ⟨next, t, hfirst, h⟩ := ends_bind.mp h
    obtain ⟨l, _, hl, hnext⟩ := ends_bind.mp hfirst
    obtain ⟨rfl, rfl⟩ := ends_pure.mp hnext
    obtain ⟨x, hx⟩ := fits_argument hπ hl
    have hle := (asks_arguments hπ.toStable _ _).grows _ _ _ h
    obtain ⟨as, ls, rfl, has⟩ := ih h
    exact ⟨x :: as, l :: ls, rfl, fun u hu ht => (hx u (hle.trans hu) ht).cons (has u hu ht)⟩

theorem allFit_instanceName (hπ : Consing p π) {id : DeclId} {arguments : List TypeArgument}
    {text : String} (h : Ends p s (π.instanceName id arguments) text s') :
    ∃ as ls, text = instanceText (p.nameInKeys id) ls ∧
      s'.Hereafter fun u => HostArgument.AllFit p u arguments ls as :=
  allFit_arguments hπ (ends_read_bind.mp h)

/-! ## Classes -/

theorem forms_classInstanceStep (hπ : Consing p π) {id : DeclId} {arguments : List TypeArgument}
    {c : ClassInstance} (h : Ends p s (π.classInstanceStep id arguments) c s') :
    ∃ as ls, s'.Hereafter fun u => HostArgument.AllFit p u arguments ls as ∧
      u.table.find? ("class;" ++ instanceText (p.nameInKeys (p.onHost id)) ls) = some c.label := by
  obtain ⟨name, t, hname, h⟩ := ends_bind.mp (ends_read_bind.mp h)
  obtain ⟨label, _, hlabel, h⟩ := ends_bind.mp h
  obtain ⟨rfl, rfl⟩ := ends_pure.mp h
  obtain ⟨as, ls, rfl, hfit⟩ := allFit_instanceName hπ hname
  obtain ⟨hle, hkey⟩ :=
    bound_of_labelWith (fun l => grows_classInstance hπ.toStable id arguments l) hlabel
  exact ⟨as, ls, fun u hu ht => ⟨hfit u (hle.trans hu) ht, hu.find? _ _ hkey⟩⟩

theorem bound_of_richType {name : String} {l : Label} {nullable : Bool} {v : TypeView}
    (h : Ends p s (richType name l nullable) v s') :
    s.Le s' ∧ s'.table.find? (richStart nullable ++ name) = some v.label := by
  cases nullable with
  | true =>
    obtain ⟨label, _, hlabel, h⟩ := ends_bind.mp h
    obtain ⟨rfl, rfl⟩ := ends_pure.mp h
    exact bound_of_labelWith (fun _ => grows_write _) hlabel
  | false =>
    obtain ⟨label, _, hlabel, h⟩ := ends_bind.mp h
    obtain ⟨rfl, rfl⟩ := ends_pure.mp h
    exact bound_of_labelWith (fun _ => grows_write _) hlabel

theorem forms_classType (hπ : Consing p π) {id : DeclId} {arguments : List TypeArgument}
    {nullable : Bool} {v : TypeViews} (h : Ends p s (π.classType id arguments nullable) v s') :
    (∃ as ls, s'.Hereafter fun u => HostArgument.AllFit p u arguments ls as ∧
      u.table.find? ("class;" ++ instanceText (p.nameInKeys (p.onHost id)) ls) =
        some v.host.label) ∧
    ∃ as ls, s'.Hereafter fun u => HostArgument.AllFit p u arguments ls as ∧
      u.table.find? (richStart nullable ++ instanceText (p.nameInKeys id) ls) =
        some v.rich.label := by
  obtain ⟨c, t₁, hc, h⟩ := ends_bind.mp h
  obtain ⟨name, t₂, hname, h⟩ := ends_bind.mp (ends_read_bind.mp h)
  obtain ⟨rich, _, hrich, h⟩ := ends_bind.mp h
  obtain ⟨rfl, rfl⟩ := ends_pure.mp h
  obtain ⟨as, ls, hhost⟩ := hπ.formsOfInstance hc
  obtain ⟨bs, ms, rfl, hfit⟩ := allFit_instanceName hπ hname
  obtain ⟨hle₂, hkey⟩ := bound_of_richType hrich
  have hle₁ := (asks_instanceName hπ.toStable id arguments).grows _ _ _ hname
  exact ⟨⟨as, ls, hhost.of_le (hle₁.trans hle₂)⟩, bs, ms, fun u hu ht =>
    ⟨hfit u (hle₂.trans hu) ht, hu.find? _ _ hkey⟩⟩

theorem fits_ofClass {u : Session} {primitives : Bool} {type : IrType} {name : String}
    {arguments : List TypeArgument} {as : List HostArgument} {ls : List Label} {l : Label}
    (hshape : p.shape primitives type = .ofClass name arguments) (hname : ';' ∉ name.toList)
    (hfit : HostArgument.AllFit p u arguments ls as)
    (hkey : u.table.find? ("class;" ++ instanceText name ls) = some l) :
    (HostForm.ofClass name as).Fits p u primitives type l where
  plain := ⟨hname, hfit.plain⟩
  label := Option.bind_eq_some_iff.mpr ⟨ls, hfit.labels, hkey⟩
  of := ⟨arguments, hshape, hfit.of⟩

/-! ## Primitives -/

theorem bound_of_namedClass {package name : String} {l : Label}
    (h : Ends p s (namedClass package name) l s') :
    s'.table.find? ("class;" ++ qualify package name) = some l := by
  obtain ⟨package, t, -, h⟩ := ends_bind.mp h
  exact (bound_of_labelWith (fun _ => grows_write _) h).2

theorem hostClass_plain : ∀ e ∈ Builtins.primitives,
    ';' ∉ (qualify e.2.hostPackage e.2.hostClass).toList := by
  decide +kernel

theorem fits_primitiveHost {info : Builtins.PrimitiveInfo} {name : String} {allowed : Bool}
    (hinfo : Builtins.primitiveInfo? name = some info) {v : TypeView}
    (h : Ends p s (primitiveHost info allowed) v s') {primitives : Bool} {type : IrType}
    (hshape : p.shape primitives type = Program.primitiveShape info allowed) :
    ∃ f : HostForm, s'.Hereafter fun u => f.Fits p u primitives type v.label := by
  obtain ⟨before, after, htable, -⟩ := List.lookup_eq_some_iff.mp hinfo
  have hplain := hostClass_plain (name, info) (by simp [htable])
  have hboxed (hshape : p.shape primitives type =
        .ofClass (qualify info.hostPackage info.hostClass) [])
      (h : Ends p s (do
        let label ← namedClass info.hostPackage info.hostClass
        return ⟨label, qualify info.hostPackage info.hostClass⟩) v s') :
      ∃ f : HostForm, s'.Hereafter fun u => f.Fits p u primitives type v.label := by
    obtain ⟨l, _, hl, h⟩ := ends_bind.mp h
    obtain ⟨rfl, rfl⟩ := ends_pure.mp h
    have hkey := bound_of_namedClass hl
    exact ⟨.ofClass _ [], fun u hu _ =>
      fits_ofClass hshape hplain HostArgument.allFit_nil (hu.find? _ _ hkey)⟩
  unfold primitiveHost at h
  unfold Program.primitiveShape at hshape
  cases hprimitive : info.primitive with
  | none =>
    rw [hprimitive] at h hshape
    exact hboxed hshape h
  | some primitive =>
    rw [hprimitive] at h hshape
    cases allowed with
    | false => exact hboxed hshape h
    | true =>
      obtain ⟨l, _, hl, h⟩ := ends_bind.mp h
      obtain ⟨rfl, rfl⟩ := ends_pure.mp h
      have hkey := (bound_of_labelWith (fun _ => grows_write _) hl).2
      exact ⟨.primitive primitive, fun u hu _ => ⟨trivial, hu.find? _ _ hkey, hshape⟩⟩

theorem fits_primitiveType (hπ : Consing p π) {info : Builtins.PrimitiveInfo} {name : String}
    (hinfo : Builtins.primitiveInfo? name = some info) {id : DeclId} {nullable primitives : Bool}
    {v : TypeViews} (h : Ends p s (π.primitiveType info id nullable primitives) v s')
    {type : IrType}
    (hshape : p.shape primitives type =
      Program.primitiveShape info (primitives && !nullable)) :
    ∃ f : HostForm, s'.Hereafter fun u => f.Fits p u primitives type v.host.label := by
  obtain ⟨host, t₁, hhost, h⟩ := ends_bind.mp h
  obtain ⟨c, t₂, hc, h⟩ := ends_bind.mp h
  obtain ⟨rich, _, hrich, h⟩ := ends_bind.mp h
  obtain ⟨rfl, rfl⟩ := ends_pure.mp h
  obtain ⟨f, hf⟩ := fits_primitiveHost hinfo hhost hshape
  have hle := (hπ.asksInstance id []).grows _ _ _ hc
  exact ⟨f, hf.of_le (hle.trans (bound_of_richType hrich).1)⟩

/-! ## Arrays -/

theorem fits_hostLabel (hπ : Consing p π) {type : IrType} {l : Label}
    (h : Ends p s (π.hostLabel type) l s') :
    ∃ f : HostForm, s'.Hereafter fun u => f.Fits p u true type l := by
  obtain ⟨v, _, hv, h⟩ := ends_bind.mp h
  obtain ⟨rfl, rfl⟩ := ends_pure.mp h
  exact hπ.formOfType hv

theorem fits_arrayType (hπ : Consing p π) {array : SimpleType} {v : TypeViews}
    (h : Ends p s (π.arrayType array) v s') {primitives : Bool} {type : IrType}
    (hshape : p.shape primitives type = .array (p.arrayCore (.simple array)).levels
      (boxed p (p.arrayCore (.simple array)).isPrimitive (p.arrayCore (.simple array)).element)) :
    ∃ f : HostForm, s'.Hereafter fun u => f.Fits p u primitives type v.host.label := by
  obtain ⟨component, t₁, -, h⟩ := ends_bind.mp (ends_read_bind.mp h)
  obtain ⟨element, t₂, helement, h⟩ := ends_bind.mp h
  obtain ⟨label, t₃, hlabel, h⟩ := ends_bind.mp h
  obtain ⟨f, hf⟩ := fits_hostLabel hπ helement
  obtain ⟨hle, hkey⟩ := bound_of_labelWith (fun l => grows_of_does (Q := Scope.Any) fun u =>
    Scope.does_extractArray hπ.toCovers (Scope.widest_knows u element)
      (Scope.widest_knows u component) (Scope.widest_knows u l)) hlabel
  obtain ⟨hle₃, hv⟩ : t₃.Le s' ∧ v.host.label = label := by
    dsimp only at h
    split at h
    · obtain ⟨rich, t₄, hrich, h⟩ := ends_bind.mp h
      obtain ⟨rfl, rfl⟩ := ends_pure.mp h
      exact ⟨(asks_classType hπ.toStable _ _ _).grows _ _ _ hrich, rfl⟩
    · obtain ⟨rfl, rfl⟩ := ends_pure.mp h
      exact ⟨.refl _, rfl⟩
  refine ⟨.array (p.arrayCore (.simple array)).levels f, fun u hu ht => ?_⟩
  obtain ⟨hplain, hform, hof⟩ := hf u (hle.trans (hle₃.trans hu)) ht
  have hbound : u.table.find? ("array;" ++ (toString (p.arrayCore (.simple array)).levels ++ ";" ++
      element.braced)) = some v.host.label := by
    simpa only [String.append_assoc, hv] using hu.find? _ _ (hle₃.find? _ _ hkey)
  exact ⟨hplain, Option.bind_eq_some_iff.mpr ⟨element, hform, hbound⟩, _, hshape, hof⟩

/-! ## Type variables -/

theorem bound_of_function {id : DeclId} {l : Label} (h : Ends p s (π.function id) l s') :
    l = .placeholder ∨ ∃ key, s'.table.find? key = some l := by
  replace h := ends_read_bind.mp h
  split at h
  · obtain ⟨key, t₁, -, h⟩ := ends_bind.mp h
    obtain ⟨label, t₂, hlabel, h⟩ := ends_bind.mp h
    have hkey := (bound_of_labelFor hlabel).2
    split at h
    · obtain ⟨_, t₃, howner, h⟩ := ends_bind.mp h
      obtain ⟨rfl, rfl⟩ := ends_pure.mp h
      exact Or.inr ⟨_, ((asks_scheduleOwner _ _).grows _ _ _ howner).find? _ _ hkey⟩
    · obtain ⟨rfl, rfl⟩ := ends_pure.mp h
      exact Or.inr ⟨_, hkey⟩
  · obtain ⟨_, _, -, h⟩ := ends_bind.mp h
    exact Or.inl (ends_pure.mp h).1

theorem bound_of_parentStep {parent : DeclParent} {l : Label}
    (h : Ends p s (π.parentStep parent) l s') :
    l = .placeholder ∨ ∃ key, s'.table.find? key = some l := by
  cases parent with
  | file file =>
    replace h := ends_read_bind.mp h
    split at h
    · exact Or.inr ⟨_, (bound_of_labelFor h).2⟩
    · exact Or.inl (ends_pure.mp h).1
  | package name => exact Or.inr ⟨_, (bound_of_labelWith (fun _ => grows_write _) h).2⟩
  | decl id =>
    replace h := ends_read_bind.mp h
    split at h
    · obtain ⟨name, t, -, h⟩ := ends_bind.mp h
      exact Or.inr ⟨_, (bound_of_labelFor h).2⟩
    · exact bound_of_function h
    · obtain ⟨_, _, -, h⟩ := ends_bind.mp h
      exact Or.inl (ends_pure.mp h).1

theorem fits_typeParameterType (hπ : Consing p π) {id : DeclId} {nullable : Bool} {v : TypeViews}
    (h : Ends p s (π.typeParameterType id nullable) v s') {primitives : Bool} {type : IrType}
    (hshape : p.shape primitives type = p.typeParameterShape id) :
    ∃ f : HostForm, s'.Hereafter fun u => f.Fits p u primitives type v.host.label := by
  obtain ⟨host, t, hhost, h⟩ := ends_bind.mp (ends_read_bind.mp h)
  obtain ⟨richClass, t₁, hclass, h⟩ := ends_bind.mp h
  obtain ⟨rich, _, hrich, h⟩ := ends_bind.mp h
  obtain ⟨rfl, rfl⟩ := ends_pure.mp h
  have hle := ((asks_namedClass _ _).grows _ _ _ hclass).trans (bound_of_richType hrich).1
  obtain ⟨found, t₂, hfound, huse⟩ := ends_bind.mp hhost
  replace hfound := ends_read_bind.mp hfound
  split at hfound
  · next d q hd hq =>
    obtain ⟨owner, t₃, howner, hfound⟩ := ends_bind.mp hfound
    obtain ⟨rfl, rfl⟩ := ends_pure.mp hfound
    obtain ⟨hle₂, hkey⟩ := bound_of_findOrComplain huse
    have hvariable : p.shape primitives type = .typeVariable d.parent q.name := by
      rw [hshape, Program.typeParameterShape, hd, hq]
    refine ⟨.typeVariable owner q.name, fun u hu ht => ?_⟩
    obtain ⟨hof, hnumber⟩ := hπ.owner howner u (hle₂.trans (hle.trans hu)) ht
    have hbound : u.table.find? ("typevar;" ++ (owner.braced ++ ";" ++ q.name)) = some host := by
      simpa only [String.append_assoc] using hu.find? _ _ (hle.find? _ _ hkey)
    exact ⟨hnumber, hbound, d.parent, hvariable, hof⟩
  · next hnone =>
    obtain ⟨rfl, rfl⟩ := ends_pure.mp hfound
    obtain ⟨_, _, -, huse⟩ := ends_bind.mp huse
    obtain ⟨rfl, rfl⟩ := ends_pure.mp huse
    have hunknown : p.shape primitives type = .unknown := by
      rw [hshape, Program.typeParameterShape]
      split
      · next d q hd hq => exact (hnone d q hd hq).elim
      · rfl
    exact ⟨.unknown, fun u _ _ => ⟨trivial, rfl, hunknown⟩⟩

/-! ## Any type -/

theorem shape_classType {primitives : Bool} {id : DeclId} {type : SimpleType}
    (h : p.IsClassType id type) :
    p.shape primitives (.simple type) = .ofClass (p.nameInKeys (p.onHost id)) type.arguments := by
  obtain ⟨hclassifier, ⟨name, hname, hinfo⟩, hnotArray⟩ := h
  simp only [Program.shape, hclassifier, hname, hinfo, hnotArray]
  rfl

theorem ends_classified {primitives : Bool} {type : SimpleType} {v : TypeViews}
    (h : Ends p s (π.simpleType primitives type) v s') : ∃ t, Ends p t
      (match type.classifier with
      | .ofTypeParameter id => π.typeParameterType id type.nullable
      | .ofClass id =>
        match p.fqName? id with
        | none => do
          complain (.typeOfNonClass id)
          return .unknown
        | some name =>
          match Builtins.primitiveInfo? name with
          | some info => π.primitiveType info id type.nullable primitives
          | none =>
            if p.isArray type then π.arrayType type
            else π.classType id type.arguments type.nullable) v s' := by
  replace h := ends_read_bind.mp h
  dsimp only at h
  rw [when_bind] at h
  obtain ⟨_, t, -, h⟩ := ends_bind.mp h
  exact ⟨t, h⟩

theorem ends_classType {primitives : Bool} {id : DeclId} {type : SimpleType} {v : TypeViews}
    (hid : p.IsClassType id type) (h : Ends p s (π.simpleType primitives type) v s') :
    ∃ t, Ends p t (π.classType id type.arguments type.nullable) v s' := by
  obtain ⟨hclassifier, ⟨name, hname, hinfo⟩, hnotArray⟩ := hid
  obtain ⟨t, h⟩ := ends_classified h
  simp only [hclassifier, hname, hinfo, hnotArray] at h
  exact ⟨t, h⟩

theorem fits_richForm (hπ : Consing p π) (hp : p.PlainClassNames) {primitives : Bool}
    {type : IrType} {v : TypeViews} (h : Ends p s (π.typeStep primitives type) v s')
    (hclass : p.OverClass type) :
    ∃ r : RichForm, s'.Hereafter fun u => r.Fits p u type v.rich.label := by
  obtain ⟨id, type, rfl, hid⟩ := hclass
  obtain ⟨t, h⟩ := ends_classType hid h
  obtain ⟨-, as, ls, hfit⟩ := forms_classType hπ h
  refine ⟨⟨type.nullable, p.nameInKeys id, as⟩, fun u hu ht => ?_⟩
  obtain ⟨hall, hkey⟩ := hfit u hu ht
  exact ⟨⟨hp.nameInKeys id, hall.plain⟩, Option.bind_eq_some_iff.mpr ⟨ls, hall.labels, hkey⟩,
    id, type, rfl, hid, rfl, hid.binaryName?, hall.of⟩

theorem fits_simpleType (hπ : Consing p π) (hp : p.PlainClassNames) {primitives : Bool}
    {type : SimpleType} {v : TypeViews} (h : Ends p s (π.simpleType primitives type) v s') :
    ∃ f : HostForm, s'.Hereafter fun u => f.Fits p u primitives (.simple type) v.host.label := by
  obtain ⟨t, hends⟩ := ends_classified h
  cases hclassifier : type.classifier with
  | ofTypeParameter id =>
    rw [hclassifier] at hends
    exact fits_typeParameterType hπ hends (by simp only [Program.shape, hclassifier])
  | ofClass id =>
    rw [hclassifier] at hends
    cases hname : p.fqName? id with
    | none =>
      simp only [hname] at hends
      obtain ⟨_, _, -, hends⟩ := ends_bind.mp hends
      obtain ⟨rfl, rfl⟩ := ends_pure.mp hends
      have hshape : p.shape primitives (.simple type) = .unknown := by
        simp only [Program.shape, hclassifier, hname]
      exact ⟨.unknown, fun u _ _ => ⟨trivial, rfl, hshape⟩⟩
    | some name =>
      cases hinfo : Builtins.primitiveInfo? name with
      | some info =>
        simp only [hname, hinfo] at hends
        exact fits_primitiveType hπ hinfo hends
          (by simp only [Program.shape, hclassifier, hname, hinfo])
      | none =>
        cases harray : p.isArray type with
        | true =>
          simp only [hname, hinfo, harray] at hends
          exact fits_arrayType hπ hends
            (by simp only [Program.shape, hclassifier, hname, hinfo, harray, if_true])
        | false =>
          have hid : p.IsClassType id type := ⟨hclassifier, ⟨name, hname, hinfo⟩, harray⟩
          obtain ⟨_, hclass⟩ := ends_classType hid h
          obtain ⟨⟨as, ls, hfit⟩, -⟩ := forms_classType hπ hclass
          refine ⟨.ofClass (p.nameInKeys (p.onHost id)) as, fun u hu ht => ?_⟩
          obtain ⟨hall, hkey⟩ := hfit u hu ht
          exact fits_ofClass (shape_classType hid) (hp.nameInKeys _) hall hkey

theorem fits_typeStep (hπ : Consing p π) (hp : p.PlainClassNames) {primitives : Bool}
    {type : IrType} {v : TypeViews} (h : Ends p s (π.typeStep primitives type) v s') :
    ∃ f : HostForm, s'.Hereafter fun u => f.Fits p u primitives type v.host.label := by
  cases type with
  | simple type => exact fits_simpleType hπ hp h
  | error description =>
    obtain ⟨_, _, -, h⟩ := ends_bind.mp h
    obtain ⟨rfl, rfl⟩ := ends_pure.mp h
    exact ⟨.unknown, fun u _ _ => ⟨trivial, rfl, rfl⟩⟩

end Projection

theorem consing_projection {p : Program} (hp : p.PlainClassNames) (fuel : Nat) :
    Projection.Consing p (projection fuel) := by
  have hstable := stable_projection p fuel
  induction fuel with
  | zero =>
    exact ⟨hstable, fun h => absurd h ends_throw, fun h => absurd h ends_throw,
      fun h => absurd h ends_throw, fun h => absurd h ends_throw⟩
  | succ fuel ih =>
    have hπ := ih (stable_projection p fuel)
    refine ⟨hstable, fun h => Projection.fits_typeStep hπ hp h,
      fun h => Projection.fits_richForm hπ hp h, fun h => Projection.forms_classInstanceStep hπ h,
      fun {s parent l s'} h u hu ht => ?_⟩
    obtain ⟨u', howner, -⟩ := (hstable.asksParent parent).again h hu
    refine ⟨⟨_, u', howner⟩, ?_⟩
    rcases Projection.bound_of_parentStep h with rfl | ⟨key, hkey⟩
    · exact ⟨0, rfl⟩
    · obtain ⟨n, hn, -⟩ := ht.bound key l (hu.find? _ _ hkey)
      exact ⟨n, hn⟩

end IrFacts
