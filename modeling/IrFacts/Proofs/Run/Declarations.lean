import IrFacts.Proofs.Run.Code
import IrFacts.Proofs.Run.Initializations

/-!
# Declarations keep to a scope

The walk closes the circles of declarations and code, so that a whole file
keeps to every scope that allows the names of the program and may write code.
-/

set_option autoImplicit false

namespace IrFacts

namespace Scope

open Extract

variable {σ : Scope} {p : Program} {s t : Session} {α : Type} {w : Walk}

/-! ## Type parameters and value parameters -/

theorem does_typeParameterOwner (hp : σ.Allows p) (hπ : σ.Covers p w.toProjection)
    (name : String) (d : Declaration) :
    σ.Does p s (w.typeParameterOwner name d) fun l t => σ.Knows t l := by
  have hunexpected : σ.Does p s (do
      complainAt (.typeParameterParent name) d.span
      return .placeholder) fun l t => σ.Knows t l :=
    does_bind (does_complaintAt _ _) fun _ _ _ h => does_pure (knows_placeholder h)
  apply does_read
  split
  · apply does_ite (fun _ => does_function hπ hp _)
    intro _
    exact does_ite (fun _ => does_classSource hπ hp _) fun _ => hunexpected
  · exact hunexpected

theorem does_extractTypeParameter (hp : σ.Allows p) (hπ : σ.Covers p w.toProjection)
    (id : DeclId) : σ.Does p s (w.extractTypeParameter id) Any := by
  apply does_read
  split
  · next hq =>
    apply does_bind (does_typeParameter hπ hp (.inr (by simp [hq])))
    intro label t₁ h₁ hlabel
    apply does_bind (does_typeParameterOwner hp hπ _ _)
    intro owner t₂ h₂ howner
    refine does_bind (does_write (by decide) ⟨h₂.knows hlabel, howner, trivial⟩)
      fun _ t₃ h₃ _ => ?_
    exact does_locate _ (h₃.knows (h₂.knows hlabel))
  · exact does_pure trivial

theorem does_extractValueParameter (hp : σ.Allows p) (hπ : σ.Covers p w.toProjection)
    {callable : Label} (hcall : σ.Knows s callable) (index : Nat) (id : DeclId) :
    σ.Does p s (w.extractValueParameter callable index id) Any := by
  apply does_read
  split
  · apply does_bind (does_valueParameter hπ hp id)
    intro label t₁ h₁ hlabel
    apply does_bind (hπ.type t₁ _ _)
    intro type t₂ h₂ htype
    apply does_bind (does_location _)
    intro place t₃ h₃ hplace
    have hlabel₃ := h₃.knows (h₂.knows hlabel)
    have hcall₃ := h₃.knows (h₂.knows (h₁.knows hcall))
    refine does_bind (does_write (by decide) ⟨hlabel₃, h₃.knows htype.1, h₃.knows htype.2,
      hcall₃, hlabel₃, trivial⟩) fun _ t₄ h₄ _ => ?_
    have hlabel₄ := h₄.knows hlabel₃
    refine does_bind (does_write (by decide) ⟨hlabel₄, h₄.knows hplace, trivial⟩)
      fun _ t₅ h₅ _ => ?_
    exact does_write (by decide) ⟨h₅.knows hlabel₄, trivial⟩
  · exact does_complain _

/-! ## Functions -/

theorem does_constructorRow (hp : σ.Allows p) (hπ : σ.Covers p w.toProjection) (id : DeclId)
    (f : FunctionDecl) {parent : Label} (hparent : σ.Knows s parent) :
    σ.Does p s (w.constructorRow id f parent) fun l t => σ.Knows t l := by
  refine does_read (does_bind (hπ.type s _ _) fun type t₁ h₁ htype => ?_)
  apply does_bind (does_function hπ hp id)
  intro label t₂ h₂ hlabel
  refine does_bind (does_write (by decide) ⟨hlabel, h₂.knows htype.1, h₂.knows htype.2,
    h₂.knows (h₁.knows hparent), hlabel, trivial⟩) fun _ t₃ h₃ _ => ?_
  exact does_pure (h₃.knows hlabel)

theorem does_methodRow (hp : σ.Allows p) (hπ : σ.Covers p w.toProjection) (id : DeclId)
    (f : FunctionDecl) {parent : Label} (hparent : σ.Knows s parent) :
    σ.Does p s (w.methodRow id f parent) fun l t => σ.Knows t l := by
  refine does_read (does_bind (hπ.type s _ _) fun type t₁ h₁ htype => ?_)
  apply does_bind (does_function hπ hp id)
  intro label t₂ h₂ hlabel
  refine does_bind (does_write (by decide) ⟨hlabel, h₂.knows htype.1, h₂.knows htype.2,
    h₂.knows (h₁.knows hparent), hlabel, trivial⟩) fun _ t₃ h₃ _ => ?_
  have hlabel₃ := h₃.knows hlabel
  split
  · apply does_bind (hπ.type t₃ _ _)
    intro type t₄ h₄ htype
    refine does_bind (does_write (by decide) ⟨h₄.knows hlabel₃, htype.1, htype.2, trivial⟩)
      fun _ t₅ h₅ _ => ?_
    exact does_pure (h₅.knows (h₄.knows hlabel₃))
  · exact does_pure hlabel₃

theorem does_body (hc : σ.WritesCode) (hw : σ.CoversWalk p w) {label : Label}
    (hl : σ.Knows s label) {b : Body} (he : σ.ReadsAll p (b.statements.flatMap (·.parts p))) :
    σ.Does p s (w.body label b) Any :=
  does_bind (does_stmtRow hc hl hl) fun _ _ hst hblock =>
    does_statements hc hw (hst.knows hl) hblock _ he

theorem does_current (f : Session → Session) {e : Event} (he : ∀ s, f s = e.step s)
    (hf : ∃ id, e = .current id) : σ.Does p s (modify f) Any := by
  obtain ⟨id, rfl⟩ := hf
  intro _ u s' hm
  rw [ends_modify.mp hm, he]
  exact ⟨leads_single trivial nofun nofun nofun, trivial⟩

theorem does_inFunction {id : DeclId} {action : Extract α} {Q : α → Session → Prop}
    (ha : ∀ t, σ.Leads p s t → σ.Does p t action Q)
    (hQ : ∀ a t u, σ.Leads p t u → Q a t → Q a u) :
    σ.Does p s (Walk.inFunction id action) Q := by
  apply does_get
  intro _
  apply does_bind (does_current _ (e := .current (some id)) (fun _ => rfl) ⟨_, rfl⟩)
  intro _ t₁ h₁ _
  apply does_bind (ha t₁ h₁)
  intro a t₂ _ hq
  apply does_bind (does_current _ (e := .current s.currentFunction) (fun _ => rfl) ⟨_, rfl⟩)
  intro _ t₃ h₃ _
  exact does_pure (hQ a t₂ t₃ h₃ hq)

theorem does_extractFunction (hc : σ.WritesCode) (hp : σ.Allows p) (hw : σ.CoversWalk p w)
    {parent : Label} (hparent : σ.Knows s parent) (id : DeclId) :
    σ.Does p s (w.extractFunction parent id) fun l t => σ.Knows t l := by
  apply does_read
  split
  · next d f _ hf =>
    obtain ⟨d', hdecl, hkind⟩ := Program.decl_of_function? hf
    have hbody (b : Body) (hb : f.body = some b) :
        σ.ReadsAll p (b.statements.flatMap (·.parts p)) := fun e he =>
      hp.code hdecl e (by simpa [hkind, DeclKind.code, hb] using he)
    refine does_inFunction (fun t₁ h₁ => ?_) fun _ _ _ h hl => h.knows hl
    apply does_bind (does_forM fun _ _ _ _ => does_extractTypeParameter hp hw.toCovers _)
    intro _ t₂ h₂ _
    apply does_bind (does_location _)
    intro place t₃ h₃ hplace
    have hparent₃ := h₃.knows (h₂.knows (h₁.knows hparent))
    apply does_ite_bind (fun _ => does_constructorRow hp hw.toCovers id f hparent₃)
      (fun _ => does_methodRow hp hw.toCovers id f hparent₃)
    intro label t₄ h₄ hlabel
    refine does_bind (does_write (by decide) ⟨hlabel, h₄.knows hplace, trivial⟩)
      fun _ t₅ h₅ _ => ?_
    have hlabel₅ := h₅.knows hlabel
    have hrest (t : Session) (h : σ.Leads p t₅ t) : σ.Does p t (do
        f.valueParameters.zipIdx.forM fun v => w.extractValueParameter label v.2 v.1
        return label) fun l t => σ.Knows t l :=
      does_bind (does_forM fun _ _ _ hu =>
        does_extractValueParameter hp hw.toCovers (hu.knows (h.knows hlabel₅)) _ _) fun _ _ hu _ =>
          does_pure (hu.knows (h.knows hlabel₅))
    split
    · next b hb =>
      exact does_bind (does_body hc hw hlabel₅ (hbody b hb)) fun _ t h _ => hrest t h
    · exact hrest t₅ .refl
  · exact does_unresolved _

/-! ## Members -/

theorem does_extractField (hp : σ.Allows p) (hπ : σ.Covers p w.toProjection) {parent : Label}
    (hparent : σ.Knows s parent) (id : DeclId) :
    σ.Does p s (w.extractField parent id) fun l t => σ.Knows t l := by
  apply does_read
  split
  · next d f hdecl _ =>
    apply does_bind (does_field hπ hp (.inr (by simp [hdecl])))
    intro label t₁ h₁ hlabel
    apply does_bind (hπ.type t₁ _ _)
    intro type t₂ h₂ htype
    have hlabel₂ := h₂.knows hlabel
    refine does_bind (does_write (by decide) ⟨hlabel₂, htype.1, htype.2,
      h₂.knows (h₁.knows hparent), hlabel₂, trivial⟩) fun _ t₃ h₃ _ => ?_
    apply does_bind (does_locate _ (h₃.knows hlabel₂))
    intro _ t₄ h₄ _
    exact does_pure (h₄.knows (h₃.knows hlabel₂))
  · exact does_unresolved _

theorem does_getter (hc : σ.WritesCode) (hp : σ.Allows p) (hw : σ.CoversWalk p w)
    {parent label : Label} (hparent : σ.Knows s parent) (hl : σ.Knows s label)
    (external : Bool) (v : PropertyDecl) (span : Span) :
    σ.Does p s (w.getter parent label external v span) Any := by
  unfold Walk.getter
  split
  · exact does_bind (does_extractFunction hc hp hw hparent _) fun _ _ hst hf =>
      does_write (by decide) ⟨hst.knows hl, hf, trivial⟩
  · exact does_when fun _ => does_complainAt _ _

theorem does_setter (hc : σ.WritesCode) (hp : σ.Allows p) (hw : σ.CoversWalk p w)
    {parent label : Label} (hparent : σ.Knows s parent) (hl : σ.Knows s label)
    (external : Bool) (v : PropertyDecl) (span : Span) :
    σ.Does p s (w.setter parent label external v span) Any := by
  unfold Walk.setter
  split
  · apply does_when_bind (fun _ => does_complainAt _ _)
    intro t h
    exact does_bind (does_extractFunction hc hp hw (h.knows hparent) _) fun _ _ hst hf =>
      does_write (by decide) ⟨hst.knows (h.knows hl), hf, trivial⟩
  · exact does_when fun _ => does_complainAt _ _

theorem does_extractProperty (hc : σ.WritesCode) (hp : σ.Allows p) (hw : σ.CoversWalk p w)
    {parent : Label} (hparent : σ.Knows s parent) (id : DeclId) :
    σ.Does p s (w.extractProperty parent id) Any := by
  apply does_read
  split
  · next hdecl =>
    apply does_bind (does_property hw.toCovers hp (.inr (by simp [hdecl])))
    intro label t₁ h₁ hlabel
    apply does_bind (does_location _)
    intro place t₂ h₂ hplace
    have hlabel₂ := h₂.knows hlabel
    refine does_bind (does_write (by decide) ⟨hlabel₂, trivial⟩) fun _ t₃ h₃ _ => ?_
    have hlabel₃ := h₃.knows hlabel₂
    refine does_bind (does_write (by decide) ⟨hlabel₃, h₃.knows hplace, trivial⟩)
      fun _ t₄ h₄ _ => ?_
    have hlabel₄ := h₄.knows hlabel₃
    have hparent₄ := h₄.knows (h₃.knows (h₂.knows (h₁.knows hparent)))
    apply does_bind (does_getter hc hp hw hparent₄ hlabel₄ _ _ _)
    intro _ t₅ h₅ _
    have hlabel₅ := h₅.knows hlabel₄
    have hparent₅ := h₅.knows hparent₄
    apply does_bind (does_setter hc hp hw hparent₅ hlabel₅ _ _ _)
    intro _ t₆ h₆ _
    split
    · apply does_bind (does_extractField hp hw.toCovers (h₆.knows hparent₅) _)
      intro f t₇ h₇ hf
      exact does_write (by decide) ⟨h₇.knows (h₆.knows hlabel₅), hf, trivial⟩
    · exact does_pure trivial
  · exact does_pure trivial

theorem does_extractEnumEntry (hp : σ.Allows p) (hπ : σ.Covers p w.toProjection) {parent : Label}
    (hparent : σ.Knows s parent) (id : DeclId) :
    σ.Does p s (w.extractEnumEntry parent id) Any := by
  apply does_read
  split
  · exact does_pure trivial
  · next d hdecl =>
    split
    · exact does_complainAt _ _
    · apply does_when_bind (fun _ => does_complainAt _ _)
      intro t₁ h₁
      apply does_bind (does_enumEntry hπ hp (.inr (by simp [hdecl])))
      intro label t₂ h₂ hlabel
      apply does_bind (does_classType hπ hp _ _ _)
      intro type t₃ h₃ htype
      have hlabel₃ := h₃.knows hlabel
      refine does_bind (does_write (by decide) ⟨hlabel₃, htype.1, htype.2,
        h₃.knows (h₂.knows (h₁.knows hparent)), hlabel₃, trivial⟩) fun _ t₄ h₄ _ => ?_
      exact does_locate _ (h₄.knows hlabel₃)

theorem does_extractTypeAlias (hp : σ.Allows p) (hπ : σ.Covers p w.toProjection) (id : DeclId) :
    σ.Does p s (w.extractTypeAlias id) Any := by
  apply does_read
  split
  · next hdecl =>
    apply does_when_bind (fun _ => does_complainAt _ _)
    intro t₁ h₁
    apply does_bind (does_typeAlias hπ hp (.inr (by simp [hdecl])))
    intro label t₂ h₂ hlabel
    apply does_bind (hπ.type t₂ _ _)
    intro type t₃ h₃ htype
    refine does_bind (does_write (by decide) ⟨h₃.knows hlabel, htype.2, trivial⟩)
      fun _ t₄ h₄ _ => ?_
    exact does_locate _ (h₄.knows (h₃.knows hlabel))
  · exact does_pure trivial

theorem does_extractDeclaration (hc : σ.WritesCode) (hp : σ.Allows p) (hw : σ.CoversWalk p w)
    {parent : Label} (hparent : σ.Knows s parent) (id : DeclId) :
    σ.Does p s (w.extractDeclaration parent id) Any := by
  apply does_read
  split
  · exact does_complain _
  · split
    · exact does_bind (hw.classDeclaration s id) fun _ _ _ _ => does_pure trivial
    · exact does_bind (does_extractFunction hc hp hw hparent id) fun _ _ _ _ => does_pure trivial
    · exact does_pure trivial
    · exact does_extractProperty hc hp hw hparent id
    · exact does_extractEnumEntry hp hw.toCovers hparent id
    · exact does_extractTypeAlias hp hw.toCovers id
    · exact does_bind (does_extractField hp hw.toCovers hparent id) fun _ _ _ _ => does_pure trivial
    · exact does_complainAt _ _

/-! ## Initialization of instances -/

/-- What initializes instances reads declared members only, and so is a field that it sets. -/
def ReadsInitialization (σ : Scope) (p : Program) : Walk.Initialization → Prop
  | .statement s => σ.ReadsAll p (s.parts p)
  | .field id _ value _ => σ.Declares p id ∧ σ.Reads p value

theorem Allows.initialization (h : σ.Allows p) {c : ClassDecl} {i : Walk.Initialization}
    (hi : i ∈ Walk.initializations p c) : σ.ReadsInitialization p i := by
  obtain ⟨member, -, hi⟩ := List.mem_flatMap.mp hi
  unfold Walk.initializationsOf at hi
  split at hi
  · next v _ =>
    obtain ⟨⟨id, f, value⟩, hitem, rfl⟩ := List.mem_map.mp hi
    obtain ⟨hf, hvalue⟩ := Program.field?_of_instanceField? (Option.mem_toList.mp hitem)
    obtain ⟨d, hdecl, hkind⟩ := Program.decl_of_field? hf
    exact ⟨.inr (by simp [hdecl]), h.code hdecl value (by simp [hkind, DeclKind.code, hvalue])⟩
  · next i' hdecl =>
    split at hi
    · cases hi
    · obtain ⟨s, hs, rfl⟩ := List.mem_map.mp hi
      exact fun e he => h.code hdecl e (List.mem_flatMap.mpr ⟨s, hs, he⟩)
  · cases hi

theorem does_initializerRow (hc : σ.WritesCode) (hw : σ.CoversWalk p w)
    {obinit place parent : Label} (ho : σ.Knows s obinit) (hplace : σ.Knows s place)
    (hparent : σ.Knows s parent) {kind : Trap.ExprKind} {type : IrType} {index : Int} :
    σ.Does p s (w.initializerRow obinit kind type place parent index) fun l t => σ.Knows t l := by
  apply does_bind does_fresh
  intro id t₁ h₁ hid
  apply does_bind (hw.type t₁ _ _)
  intro type t₂ h₂ htype
  have h₁₂ := h₁.trans h₂
  have hid₂ := h₂.knows hid
  apply does_bind (does_writeExpr hc hid₂ htype.1 htype.2 (h₁₂.knows hparent))
  intro _ t₃ h₃ _
  have hid₃ := h₃.knows hid₂
  refine does_bind (does_write (by decide) ⟨hid₃, h₃.knows (h₁₂.knows hplace), trivial⟩)
    fun _ t₄ h₄ _ => ?_
  have ho₄ := h₄.knows (h₃.knows (h₁₂.knows ho))
  refine does_bind (does_writeCode hc (by decide) ⟨h₄.knows hid₃, ho₄, trivial⟩)
    fun _ t₅ h₅ _ => ?_
  exact does_pure (h₅.knows (h₄.knows hid₃))

theorem does_initialization (hc : σ.WritesCode) (hp : σ.Allows p) (hw : σ.CoversWalk p w)
    {obinit block : Label} (ho : σ.Knows s obinit) (hblock : σ.Knows s block) (index : Nat)
    {i : Walk.Initialization} (hi : σ.ReadsInitialization p i) :
    σ.Does p s (w.initialization obinit block index i) Any := by
  cases i with
  | statement statement => exact does_statement hc hw ho hblock _ hi
  | field id f value span =>
    apply does_bind (does_location _)
    intro place t₁ h₁ hplace
    apply does_bind does_fresh
    intro stmt t₂ h₂ hstmt
    have ho₂ := h₂.knows (h₁.knows ho)
    refine does_bind (does_writeCode hc (by decide)
      ⟨hstmt, h₂.knows (h₁.knows hblock), ho₂, trivial⟩) fun _ t₃ h₃ _ => ?_
    have hplace₃ := h₃.knows (h₂.knows hplace)
    have hstmt₃ := h₃.knows hstmt
    refine does_bind (does_write (by decide) ⟨hstmt₃, hplace₃, trivial⟩) fun _ t₄ h₄ _ => ?_
    have ho₄ := h₄.knows (h₃.knows ho₂)
    apply does_bind (does_initializerRow hc hw ho₄ (h₄.knows hplace₃) (h₄.knows hstmt₃))
    intro assign t₅ h₅ hassign
    have ho₅ := h₅.knows ho₄
    apply does_bind (does_initializerRow hc hw ho₅ (h₅.knows (h₄.knows hplace₃)) hassign)
    intro left t₆ h₆ hleft
    apply does_bind (does_field hw.toCovers hp hi.1)
    intro target t₇ h₇ htarget
    refine does_bind (does_writeCode hc (by decide) ⟨h₇.knows hleft, htarget, trivial⟩)
      fun _ t₈ h₈ _ => ?_
    have h₅₈ := h₆.trans (h₇.trans h₈)
    exact hw.expression _ _ _ _ (h₅₈.knows ho₅) (h₅₈.knows hassign) hi.2

theorem does_extractInitialization (hc : σ.WritesCode) (hp : σ.Allows p)
    (hw : σ.CoversWalk p w) (id : DeclId) (d : Declaration) (c : ClassDecl) {parent : Label}
    (hparent : σ.Knows s parent) :
    σ.Does p s (w.extractInitialization id d c parent) Any := by
  refine does_read (does_ite (fun _ => does_pure trivial) fun _ => ?_)
  apply does_bind (does_callableKey hw.toCovers (letters_of_plain (by decide))
    (allowsParent_decl id) _ _)
  intro key t₁ h₁ hkey
  apply does_bind (does_labelFor hkey)
  intro obinit t₂ h₂ ho
  apply does_bind (hw.type t₂ _ _)
  intro result t₃ h₃ hresult
  apply does_bind (does_location _)
  intro place t₄ h₄ hplace
  have ho₄ := h₄.knows (h₃.knows ho)
  have hparent₄ := h₄.knows (h₃.knows (h₂.knows (h₁.knows hparent)))
  refine does_bind (does_write (by decide) ⟨ho₄, h₄.knows hresult.1, h₄.knows hresult.2,
    hparent₄, ho₄, trivial⟩) fun _ t₅ h₅ _ => ?_
  have ho₅ := h₅.knows ho₄
  refine does_bind (does_write (by decide) ⟨ho₅, h₅.knows hplace, trivial⟩)
    fun _ t₆ h₆ _ => ?_
  apply does_bind does_fresh
  intro block t₇ h₇ hblock
  have ho₇ := h₇.knows (h₆.knows ho₅)
  refine does_bind (does_writeCode hc (by decide) ⟨hblock, ho₇, ho₇, trivial⟩)
    fun _ t₈ h₈ _ => ?_
  have hplace₈ := h₈.knows (h₇.knows (h₆.knows (h₅.knows hplace)))
  refine does_bind (does_write (by decide) ⟨h₈.knows hblock, hplace₈, trivial⟩)
    fun _ t₉ h₉ _ => ?_
  rw [Walk.initializeMembers_eq]
  refine does_read (does_forM fun (i, _) hi _ hu => ?_)
  exact does_initialization hc hp hw
    (hu.knows (h₉.knows (h₈.knows ho₇))) (hu.knows (h₉.knows (h₈.knows hblock))) _
    (hp.initialization (List.fst_mem_of_mem_zipIdx hi))

/-! ## Classes -/

theorem does_instanceField (hp : σ.Allows p) (hπ : σ.Covers p w.toProjection) (id : DeclId)
    {field : Label × String} {parent place : Label} (hf : σ.Knows s field.1)
    (hparent : σ.Knows s parent) (hplace : σ.Knows s place) :
    σ.Does p s (w.instanceField id field parent place) Any := by
  apply does_bind (does_classType hπ hp id [] false)
  intro type t₁ h₁ htype
  refine does_bind (does_write (by decide) ⟨h₁.knows hf, htype.1, htype.2, h₁.knows hparent,
    h₁.knows hf, trivial⟩) fun _ t₂ h₂ _ => ?_
  have hf₂ := h₂.knows (h₁.knows hf)
  refine does_bind (does_write (by decide) ⟨hf₂, h₂.knows (h₁.knows hplace), trivial⟩)
    fun _ t₃ h₃ _ => ?_
  refine does_addModifiers (h₃.knows hf₂) fun name hn => letters_of_plain ?_
  simp only [List.mem_cons, List.not_mem_nil, or_false] at hn
  rcases hn with rfl | rfl | rfl <;> decide

theorem does_nesting (hp : σ.Allows p) (hπ : σ.Covers p w.toProjection) (id : DeclId)
    (c : ClassDecl) {label place : Label} (hl : σ.Knows s label) (hplace : σ.Knows s place) :
    σ.Does p s (w.nesting id c label place) Any := by
  apply does_read
  split
  · exact does_pure trivial
  · apply does_bind (hπ.classInstance s _ [])
    intro outer t₁ h₁ houter
    refine does_bind (does_write (by decide) ⟨h₁.knows hl, houter, trivial⟩) fun _ t₂ h₂ _ => ?_
    apply does_when
    intro _
    apply does_bind (does_companionField? hπ hp id)
    intro found t₃ h₃ hfound
    split
    · exact does_pure trivial
    · next field =>
      have hfield := hfound field rfl
      have houter₃ := h₃.knows (h₂.knows houter)
      have hplace₃ := h₃.knows (h₂.knows (h₁.knows hplace))
      apply does_bind (does_instanceField hp hπ id hfield houter₃ hplace₃)
      intro _ t₄ h₄ _
      have hl₄ := h₄.knows (h₃.knows (h₂.knows (h₁.knows hl)))
      exact does_write (by decide) ⟨h₄.knows houter₃, h₄.knows hfield, hl₄, trivial⟩

theorem does_classStep (hc : σ.WritesCode) (hp : σ.Allows p) (hw : σ.CoversWalk p w)
    (id : DeclId) : σ.Does p s (w.classStep id) fun l t => σ.Knows t l := by
  have hπ := hw.toCovers
  apply does_read
  split
  · apply does_bind (does_classSource hπ hp id)
    intro label t₁ _ hl₁
    apply does_bind (does_packageLabel (letters_package hp id))
    intro package t₂ h₂ hpackage
    have hl₂ := h₂.knows hl₁
    apply does_bind (does_writeClassOrInterface hl₂ hpackage hl₂)
    intro _ t₃ h₃ _
    apply does_bind (does_location _)
    intro place t₄ h₄ hplace
    have hl₄ := h₄.knows (h₃.knows hl₂)
    refine does_bind (does_write (by decide) ⟨hl₄, hplace, trivial⟩) fun _ t₅ h₅ _ => ?_
    have hl₅ := h₅.knows hl₄
    apply does_bind (does_nesting hp hw.toCovers id _ hl₅ (h₅.knows hplace))
    intro _ t₆ h₆ _
    apply does_bind (does_forM fun _ _ _ _ => does_extractTypeParameter hp hw.toCovers _)
    intro _ t₇ h₇ _
    have hl₇ := h₇.knows (h₆.knows hl₅)
    apply does_bind (does_forM fun _ _ _ hu =>
      does_extractDeclaration hc hp hw (hu.knows hl₇) _)
    intro _ t₈ h₈ _
    apply does_bind (does_extractInitialization hc hp hw id _ _ (h₈.knows hl₇))
    intro _ t₉ h₉ _
    have hl₉ := h₉.knows (h₈.knows hl₇)
    have hplace₉ := h₉.knows (h₈.knows (h₇.knows (h₆.knows (h₅.knows hplace))))
    have hrest (t : Session) (h : σ.Leads p t₉ t) : σ.Does p t (do
        Projection.classModifiers id label
        w.supertypes id label
        return label) fun l t => σ.Knows t l := by
      apply does_bind (does_classModifiers (h.knows hl₉))
      intro _ u₁ k₁ _
      have hl := k₁.knows (h.knows hl₉)
      exact does_bind (does_supertypes hπ hl) fun _ u₂ k₂ _ => does_pure (k₂.knows hl)
    refine does_ite (fun _ => ?_) fun _ => hrest t₉ .refl
    apply does_bind (does_objectField hπ id)
    intro field u₁ k₁ hfield
    apply does_bind (does_instanceField hp hw.toCovers id hfield (k₁.knows hl₉) (k₁.knows hplace₉))
    intro _ u₂ k₂ _
    refine does_bind (does_write (by decide) ⟨k₂.knows (k₁.knows hl₉), k₂.knows hfield, trivial⟩)
      fun _ u₃ k₃ _ => ?_
    exact hrest u₃ (k₁.trans (k₂.trans k₃))
  · exact does_unresolved _

theorem coversWalk_walk (hc : σ.WritesCode) (hp : σ.Allows p) {π : Projection}
    (hπ : σ.Covers p π) (fuel : Nat) : σ.CoversWalk p (walk π fuel) := by
  induction fuel with
  | zero => exact ⟨hπ, fun _ _ _ _ _ _ _ => does_throw, fun _ _ => does_throw⟩
  | succ fuel ih =>
    exact ⟨hπ, fun _ _ _ _ hcall hslot he => (seats_expressionStep hc hp ih hcall he).does hslot,
      fun _ id => does_classStep hc hp ih id⟩

variable {callable : Label} {slot : Slot}

theorem seats_expression (hc : σ.WritesCode) (hp : σ.Allows p) {π : Projection}
    (hπ : σ.Covers p π) (fuel : Nat) (hcall : σ.Knows s callable) {e : Expr} (he : σ.Reads p e) :
    σ.Seats p slot s ((walk π fuel).expression callable slot e) Any := by
  cases fuel with
  | zero => exact does_throw.seats
  | succ fuel => exact seats_expressionStep hc hp (coversWalk_walk hc hp hπ fuel) hcall he

theorem seats_statement (hc : σ.WritesCode) (hp : σ.Allows p) {π : Projection}
    (hπ : σ.Covers p π) (fuel : Nat) (hcall : σ.Knows s callable) (parent : Label) (index : Int)
    {code : Statement} (he : σ.ReadsAll p (code.parts p)) : σ.Seats p (.statement parent index) s
      ((walk π fuel).statement callable parent index code) Any := by
  have hw := coversWalk_walk hc hp hπ fuel
  match code with
  | .expr e => exact seats_expression hc hp hπ fuel hcall (he e (List.mem_singleton_self e))
  | .variable id => exact seats_variableStatement hc hw hcall he
  | .declaration id => exact seats_localDeclaration hc hw hcall id

/-! ## Files -/

theorem does_fileClass (hp : σ.Allows p) {file : FileId} {entry : FileEntry}
    (hf : p.file? file = some entry) :
    σ.Does p s (Walk.fileClass file entry) fun l t => σ.Knows t l := by
  refine does_bind (does_fileClassLabel hp (.inr (by simp [hf]))) fun label t₁ _ hl₁ => does_read ?_
  refine does_bind does_wholeFile fun place t₂ h₂ hplace => ?_
  have hname := hp.file hf entry.package (by simp [Program.fileNames])
  apply does_bind (does_packageLabel hname)
  intro package t₃ h₃ hpackage
  have hl₃ := h₃.knows (h₂.knows hl₁)
  refine does_bind (does_write (by decide) ⟨hl₃, hpackage, hl₃, trivial⟩) fun _ t₄ h₄ _ => ?_
  have hl₄ := h₄.knows hl₃
  refine does_bind (does_write (by decide) ⟨hl₄, h₄.knows (h₃.knows hplace), trivial⟩)
    fun _ t₅ h₅ _ => ?_
  exact does_pure (h₅.knows hl₄)

theorem does_extractFile (hc : σ.WritesCode) (hp : σ.Allows p) (hw : σ.CoversWalk p w)
    (file : FileId) : σ.Does p s (w.extractFile file) Any := by
  apply does_read
  split
  · exact does_complain _
  · next entry hf =>
    apply does_bind does_wholeFile
    intro place t₁ _ hplace
    have hname := hp.file hf entry.package (by simp [Program.fileNames])
    apply does_bind (does_packageLabel hname)
    intro package t₂ h₂ hpackage
    apply does_get
    intro hs
    have htarget := hs.target
    refine does_bind (does_write (by decide) ⟨htarget, h₂.knows hplace, trivial⟩)
      fun _ t₃ h₃ _ => ?_
    refine does_bind (does_write (by decide) ⟨h₃.knows htarget, h₃.knows hpackage, trivial⟩)
      fun _ t₄ _ _ => ?_
    apply does_when
    intro _
    apply does_bind (does_fileClass hp hf)
    intro parent t₅ _ hparent
    exact does_forM fun _ _ _ hu => does_extractDeclaration hc hp hw (hu.knows hparent) _

end Scope

end IrFacts
