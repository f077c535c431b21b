import IrFacts.Proofs.Types.HashConsing

/-!
# Same label, same form

Whatever has been asked of a store, two types have one label on the host just
when they have one normal form there, and two types over classes have one rich
label just when nullability, name and arguments agree.
-/

set_option autoImplicit false

namespace IrFacts

open Extract

namespace Session

variable {p : Program} {s s' : Session}

def Reachable (s : Session) : Prop :=
  ∃ (new : Session) (sink : Trap.Sink) (path : String) (lines : Option LineTable)
    (es : List Event), new.file = .ofPath (.ofSink sink) path lines ∧ s = Event.run es new

theorem Reachable.run (h : s.Reachable) (es : List Event) : (Event.run es s).Reachable := by
  obtain ⟨new, sink, path, lines, fs, hnew, rfl⟩ := h
  exact ⟨new, sink, path, lines, fs ++ es, hnew, (Event.run_append ..).symm⟩

theorem Reachable.of_ends {α : Type} {m : Extract α} {a : α} (h : s.Reachable) (hm : Plain p m)
    (he : Ends p s m a s') : s'.Reachable := by
  obtain ⟨es, -, rfl⟩ := hm.runs he
  exact h.run es

theorem Reachable.faithful (h : s.Reachable) : s.table.Faithful := by
  obtain ⟨new, sink, path, lines, es, hnew, rfl⟩ := h
  obtain ⟨fs, -, hstart⟩ := Request.script_ofPath (p := default) hnew
  rw [← hstart, ← Event.run_append]
  exact LabelTable.faithful_empty.run _

end Session

/-- In the session the labels of two views tell whether their types have one form. -/
structure Session.Discerns (u : Session) (p : Program) (primitives₁ primitives₂ : Bool)
    (type₁ type₂ : IrType) (v₁ v₂ : TypeViews) : Prop where
  hostForms : (∃ f : HostForm, f.Of p (u.Owner p) primitives₁ type₁) ∧
    ∃ g : HostForm, g.Of p (u.Owner p) primitives₂ type₂
  host : ∀ f g : HostForm, f.Of p (u.Owner p) primitives₁ type₁ →
    g.Of p (u.Owner p) primitives₂ type₂ → (v₁.host.label = v₂.host.label ↔ f = g)
  richForms : p.OverClass type₁ → p.OverClass type₂ →
    (∃ r : RichForm, r.Of p (u.Owner p) type₁) ∧ ∃ q : RichForm, q.Of p (u.Owner p) type₂
  rich : ∀ r q : RichForm, r.Of p (u.Owner p) type₁ → q.Of p (u.Owner p) type₂ →
    (v₁.rich.label = v₂.rich.label ↔ r = q)

/-! ## Requests only add -/

namespace Request

variable {p : Program}

theorem grows_forget {α : Type} {m : Extract α} (h : Grows p m) : Grows p (do let _ ← m) :=
  grows_bind h fun _ => grows_pure ()

theorem grows_perform (typeFuel walkFuel : Nat) (r : Request) :
    Grows p (r.perform (walk (projection typeFuel) walkFuel)) := by
  have hcovers := (Scope.widest_coversWalk p typeFuel walkFuel).toCovers
  have hp := Scope.widest_allows p
  cases r with
  | operation op => exact Operation.grows_perform typeFuel walkFuel op
  | package name => exact grows_forget (asks_packageLabel name).grows
  | modifier name =>
    exact grows_forget <| grows_of_does fun _ =>
      Scope.does_modifierLabel (Scope.widest_letters name)
  | classType id arguments nullable =>
    exact grows_forget <| grows_of_does fun _ =>
      Scope.does_classType hcovers hp id arguments nullable
  | parent owner =>
    exact grows_forget <| grows_of_does fun s =>
      hcovers.parent s owner ⟨fun name _ => Scope.widest_letters name, .inl rfl⟩
  | value id => exact grows_forget (grows_of_does fun _ => Scope.does_value hcovers hp id)
  | place span => exact grows_forget (grows_location span)
  | wholeFile => exact grows_forget (grows_of_does fun _ => Scope.does_wholeFile)
  | noPlace => exact grows_forget asks_unknownLocation.grows

theorem grows_run (typeFuel walkFuel : Nat) (requests : List Request) :
    Grows p (run (walk (projection typeFuel) walkFuel) requests) := by
  induction requests with
  | nil => exact grows_pure ()
  | cons r requests ih => exact grows_bind (grows_perform typeFuel walkFuel r) fun _ => ih

/-! ## The result -/

variable {s s₁ s₂ s₃ : Session} {fuel₁ fuel₂ typeFuel walkFuel : Nat} {requests : List Request}
  {primitives₁ primitives₂ : Bool} {type₁ type₂ : IrType} {v₁ v₂ : TypeViews}

/-- In any store, with any requests between them, two types get one label on the
host just when they have one form there, and two types over classes get one rich
label just when they have one rich form. -/
theorem sameLabel_iff_sameForm (hp : p.PlainClassNames) (hs : s.Reachable)
    (h₁ : Ends p s ((projection fuel₁).type primitives₁ type₁) v₁ s₁)
    (hbetween : Ends p s₁ (run (walk (projection typeFuel) walkFuel) requests) () s₂)
    (h₂ : Ends p s₂ ((projection fuel₂).type primitives₂ type₂) v₂ s₃) :
    s₃.Discerns p primitives₁ primitives₂ type₁ type₂ v₁ v₂ := by
  have hconsing₁ := consing_projection hp fuel₁
  have hconsing₂ := consing_projection hp fuel₂
  have hle : s₁.Le s₃ := (grows_run typeFuel walkFuel requests _ _ _ hbetween).trans
    ((hconsing₂.asksType primitives₂ type₂).grows _ _ _ h₂)
  have htable : s₃.table.Faithful :=
    (((hs.of_ends ((stable_projection p fuel₁).asksType primitives₁ type₁).plain h₁).of_ends
      (plain_run typeFuel walkFuel requests) hbetween).of_ends
      ((stable_projection p fuel₂).asksType primitives₂ type₂).plain h₂).faithful
  have howner := s₃.owner_unique p
  obtain ⟨f, hf⟩ := hconsing₁.formOfType h₁
  obtain ⟨g, hg⟩ := hconsing₂.formOfType h₂
  replace hf := hf s₃ hle htable
  replace hg := hg s₃ (.refl s₃) htable
  have hrich₁ (hclass : p.OverClass type₁) : ∃ r, RichForm.Fits p s₃ type₁ v₁.rich.label r := by
    obtain ⟨r, hr⟩ := hconsing₁.formOfClass h₁ hclass
    exact ⟨r, hr s₃ hle htable⟩
  have hrich₂ (hclass : p.OverClass type₂) : ∃ q, RichForm.Fits p s₃ type₂ v₂.rich.label q := by
    obtain ⟨q, hq⟩ := hconsing₂.formOfClass h₂ hclass
    exact ⟨q, hq s₃ (.refl s₃) htable⟩
  constructor
  case hostForms => exact ⟨⟨f, hf.of⟩, g, hg.of⟩
  case host =>
    intro f' g' hf' hg'
    rw [HostForm.of_unique howner f' f hf' hf.of, HostForm.of_unique howner g' g hg' hg.of]
    exact hf.label_eq_iff htable hg
  case richForms =>
    intro hclass₁ hclass₂
    obtain ⟨r, hr⟩ := hrich₁ hclass₁
    obtain ⟨q, hq⟩ := hrich₂ hclass₂
    exact ⟨⟨r, hr.of⟩, q, hq.of⟩
  case rich =>
    intro r' q' hr' hq'
    obtain ⟨r, hr⟩ := hrich₁ hr'.overClass
    obtain ⟨q, hq⟩ := hrich₂ hq'.overClass
    rw [RichForm.of_unique howner hr' hr.of, RichForm.of_unique howner hq' hq.of]
    exact hr.label_eq_iff htable hq

/-- A box of some box, and perhaps a box of anything. -/
theorem sameLabel_iff_sameForm_shelf : ∃ v₁ v₂ s₃,
    let someBox : IrType := .ofClass ⟨0⟩ [.projection .covariant (.ofClass ⟨0⟩ [])]
    let anyBox : IrType := (IrType.ofClass ⟨0⟩ [.star]).makeNullable
    (∃ s₁ s₂,
      Ends shelf { file := .source (.ofSink .unbounded) "a.kt" .single, counter := {}, queue := {} }
        ((projection 9).type true someBox) v₁ s₁ ∧
      Ends shelf s₁ (run (walk (projection 9) 9) [.package "lib"]) () s₂ ∧
      Ends shelf s₂ ((projection 9).type true anyBox) v₂ s₃) ∧
    shelf.OverClass someBox ∧ shelf.OverClass anyBox ∧
      s₃.Discerns shelf true true someBox anyBox v₁ v₂ := by
  have hnames : shelf.PlainClassNames := ⟨by simp [shelf], by simp [shelf], by simp [shelf]⟩
  have hshape : shelf.shapeOfClass? ⟨0⟩ = none := by decide
  have hclass (nullable : Bool) (arguments : List TypeArgument) :
      shelf.OverClass (.simple { classifier := .ofClass ⟨0⟩, nullable, arguments }) :=
    ⟨⟨0⟩, _, rfl, rfl, ⟨"lib.Box", by decide, by decide⟩,
      by simp only [Program.isArray, Program.arrayShape?, hshape]⟩
  obtain ⟨_, s₃, h⟩ := ends_of_isOk (p := shelf)
    (s := { file := .source (.ofSink .unbounded) "a.kt" .single, counter := {}, queue := {} })
    (m := (projection 9).type true (.ofClass ⟨0⟩ [.projection .covariant (.ofClass ⟨0⟩ [])]) >>=
      fun v₁ => run (walk (projection 9) 9) [.package "lib"] >>= fun _ =>
        (projection 9).type true (IrType.ofClass ⟨0⟩ [.star]).makeNullable >>= fun v₂ =>
          pure (v₁, v₂)) (by decide +kernel)
  obtain ⟨v₁, s₁, h₁, h⟩ := ends_bind.mp h
  obtain ⟨_, s₂, hbetween, h⟩ := ends_bind.mp h
  obtain ⟨v₂, _, h₂, h⟩ := ends_bind.mp h
  obtain ⟨rfl, rfl⟩ := ends_pure.mp h
  refine ⟨v₁, v₂, _, ⟨s₁, s₂, h₁, hbetween, h₂⟩, hclass false _, hclass true _, ?_⟩
  exact sameLabel_iff_sameForm hnames ⟨_, .unbounded, "a.kt", some .single, [], rfl, rfl⟩
    h₁ hbetween h₂

end Request

end IrFacts
