import IrFacts.Proofs.Run.Settles

/-!
# Projections that settle

Every step of projection answers if the operations that it calls do. Those that
define a label only have to settle, and only where the key had no label.
-/

set_option autoImplicit false

namespace IrFacts

namespace LineTable

theorem narrow_lt (t : LineTable) (offset : UInt32) {fuel base size bound : Nat} (hpos : 0 < size)
    (h : base + size ≤ bound) : t.narrow offset fuel base size < bound := by
  induction fuel generalizing base size with
  | zero =>
    rw [narrow]
    omega
  | succ fuel ih =>
    rw [narrow]
    split
    · omega
    · have hkept (behind : Bool) :
          (if behind then base else base + size / 2) + (size - size / 2) ≤ bound := by
        cases behind <;> simp <;> omega
      exact ih (by omega) (hkept _)

theorem columnOf?_isSome {t : LineTable} (h : t.starts ≠ #[]) (offset : UInt32) :
    (t.columnOf? offset).isSome := by
  have hpos : 0 < t.starts.size := Array.size_pos_iff.mpr h
  have hline : t.narrow offset t.starts.size 0 t.starts.size < t.starts.size :=
    t.narrow_lt offset hpos (Nat.le_of_eq (Nat.zero_add _))
  have hlt : t.lineOf offset < t.starts.size := by
    unfold lineOf
    dsimp only
    split
    · split <;> omega
    · exact hpos
  simp [columnOf?, hlt]

end LineTable

namespace Extract

variable {α β : Type} {p : Program} {s s' t : Session}

/-! ## Places -/

def Placeable (target : Trap.Target) : Prop :=
  ∀ lines, target.lines = some lines → lines.starts ≠ #[]

theorem settles_placeIn {target : Trap.Target} (h : Placeable target) (span : Span) :
    Settles p s fun _ => placeIn target span := by
  unfold placeIn
  cases hlines : target.lines with
  | none => exact (answers_locationIn _ _).settles
  | some lines =>
    obtain ⟨first, hfirst⟩ := Option.isSome_iff_exists.mp
      (LineTable.columnOf?_isSome (h lines hlines) span.first)
    obtain ⟨last, hlast⟩ := Option.isSome_iff_exists.mp
      (LineTable.columnOf?_isSome (h lines hlines) span.last)
    have hregion : ∃ r, Trap.Region.ofSpan? lines span = some r := by
      simp [Trap.Region.ofSpan?, hfirst, hlast]
    obtain ⟨r, hr⟩ := hregion
    simp only [hr]
    exact settles_ite (fun _ => answers_unknownLocation.settles)
      fun _ => (answers_locationIn _ _).settles

theorem settles_locate {entity : Label} (h : Placeable s.file.target) (span : Span) :
    Settles p s fun _ => locate entity span := by
  refine settles_bind ?_ fun _ _ _ => settles_write _
  rw [location_eq]
  obtain ⟨l, t, ⟨n, hn⟩, ho⟩ := settles_placeIn (p := p) (s := s) h span
  exact settles_of_ends l (ends_get_bind.mpr (hn n (Nat.le_refl n))) ho

/-- Where a class is declared in a file, this file has lines. -/
def HasLines (p : Program) : Prop := ∀ entry ∈ p.files, entry.lines.starts ≠ #[]

theorem settles_inFile {path : String} {lines : Option LineTable} {populate : Bool}
    {m : Projection → Extract α} (hlines : ∀ ls, lines = some ls → ls.starts ≠ #[])
    (h : ∀ t : Session, s.table.Le t.table → Placeable t.file.target → Settles p t m) :
    Settles p s fun π => (do
      let saved ← onFile (·.retarget path lines populate)
      let result ← m π
      onFile fun file => ((), file.restore saved)
      return result) := by
  obtain ⟨label, t, hlabel⟩ : ∃ label t, Ends p s (onWriter (·.fileLabel path populate)) label t :=
    ⟨_, _, ends_onWriter.mpr ⟨rfl, rfl⟩⟩
  have hgrows : Grows p (onWriter (·.fileLabel path populate)) :=
    grows_of_does fun _ => Scope.does_fileLabel (Scope.widest_letters path)
  have htable := (hgrows s label t hlabel).find?
  obtain ⟨a, u, ⟨n, hn⟩, ho⟩ := h ((Event.target { path, label, lines }).step t) htable hlines
  refine ⟨a, (Event.target s.file.target).step u, ⟨n, fun fuel hfuel => ?_⟩,
    LabelTable.Le.trans htable ho.table, rfl⟩
  exact ends_bind.mpr ⟨_, _, ends_retarget.mpr ⟨rfl, label, t, hlabel, rfl⟩,
    ends_bind.mpr ⟨a, u, hn fuel hfuel,
      ends_bind.mpr ⟨(), _, ends_restore.mpr rfl, ends_pure.mpr ⟨rfl, rfl⟩⟩⟩⟩

theorem settles_inFileOf (hp : HasLines p) (id : DeclId) (populate : Bool)
    {m : Projection → Extract α}
    (h : ∀ t : Session, s.table.Le t.table → Placeable t.file.target → Settles p t m) :
    Settles p s fun π => inFileOf id populate (m π) := by
  apply settles_read
  dsimp only
  cases hsource : (if p.isExternal id then none else (p.fileOf? id).bind p.file?) with
  | none => exact settles_inFile nofun h
  | some entry =>
    refine settles_inFile (fun lines he => ?_) h
    cases he
    split at hsource
    · cases hsource
    · obtain ⟨file, -, hentry⟩ := Option.bind_eq_some_iff.mp hsource
      exact hp entry (Array.mem_of_getElem? hentry)

/-! ## Names and classes -/

theorem answers_packageLabel (name : String) : Answers p s fun _ => packageLabel name :=
  answers_fact _ _

theorem answers_namedClass (package name : String) : Answers p s fun _ => namedClass package name :=
  answers_bind (answers_packageLabel package) fun _ _ _ => answers_fact _ _

theorem answers_fileClassLabel (file : FileId) : Answers p s fun _ => fileClassLabel file := by
  apply answers_read
  cases p.file? file with
  | none => exact answers_pure _
  | some entry => exact answers_labelFor _

theorem answers_scheduleIfExternal (id : DeclId) : Answers p s fun _ => scheduleIfExternal id :=
  answers_read (answers_ite (fun _ => answers_schedule id) fun _ => answers_pure _)

theorem answers_wildcard (kind : Trap.WildcardKind) (key : String) (argument : TypeArgument)
    (bound : Label) : Answers p s fun _ => Projection.wildcard kind key argument bound := by
  refine answers_read (answers_labelWith fun _ => settles_bind (settles_write _) fun _ _ _ => ?_)
  refine settles_bind answers_unknownLocation.settles fun _ _ _ =>
    settles_bind (settles_write _) fun _ _ _ => ?_
  exact settles_bind (answers_fact _ _).settles fun _ _ _ => settles_pure _

def AnswersOn (p : Program) (s : Session) (m : Projection → Extract α) : Prop :=
  ∀ t, s.Onward t → Answers p t m

theorem AnswersOn.here {m : Projection → Extract α} (h : AnswersOn p s m) : Answers p s m :=
  h s (.refl s)

theorem AnswersOn.onward {m : Projection → Extract α} (h : AnswersOn p s m) (ho : s.Onward t) :
    AnswersOn p t m := fun u hu => h u (ho.trans hu)

/-- The type is projected from the session on, as a primitive and otherwise. -/
def TypeAnswers (p : Program) (s : Session) (type : IrType) : Prop :=
  ∀ primitives, AnswersOn p s fun π => π.type primitives type

theorem TypeAnswers.onward {type : IrType} (h : TypeAnswers p s type) (ho : s.Onward t) :
    TypeAnswers p t type := fun primitives => (h primitives).onward ho

theorem answers_hostLabel {type : IrType} (h : TypeAnswers p s type) :
    Answers p s fun π => π.hostLabel type :=
  answers_bind (h true).here fun _ _ _ => answers_pure _

def ArgumentAnswers (p : Program) (s : Session) : TypeArgument → Prop
  | .star => TypeAnswers p s (p.builtinType "Any")
  | .projection _ type => TypeAnswers p s type

theorem ArgumentAnswers.onward {a : TypeArgument} (h : ArgumentAnswers p s a) (ho : s.Onward t) :
    ArgumentAnswers p t a := by
  cases a with
  | star => exact TypeAnswers.onward h ho
  | projection variance type => exact TypeAnswers.onward h ho

theorem answers_argument {a : TypeArgument} (h : ArgumentAnswers p s a) :
    Answers p s fun π => π.argument a := by
  cases a with
  | star =>
    exact answers_read (answers_bind (h false).here fun _ _ _ => answers_wildcard _ _ _ _)
  | projection variance type =>
    refine answers_bind (h false).here fun _ _ _ => ?_
    cases variance with
    | invariant => exact answers_pure _
    | covariant => exact answers_wildcard _ _ _ _
    | contravariant => exact answers_wildcard _ _ _ _

theorem answers_instanceName (id : DeclId) {arguments : List TypeArgument}
    (h : ∀ a ∈ arguments, ArgumentAnswers p s a) :
    Answers p s fun π => π.instanceName id arguments := by
  refine answers_read (answers_foldlM (fun a ha _ t ht => ?_) _)
  exact answers_bind (answers_argument ((h a ha).onward ht)) fun _ _ _ => answers_pure _

theorem answers_classSource (id : DeclId) : Answers p s fun π => π.classSource id :=
  answers_bind (answers_instanceName id nofun) fun _ _ _ => answers_labelFor _

theorem answers_introducing (id : DeclId) : Answers p s fun _ => Scope.introducing p id := by
  refine answers_bind (answers_scheduleIfExternal id) fun _ _ _ => ?_
  cases p.hostClass? id with
  | none => exact answers_pure _
  | some host => exact answers_scheduleIfExternal host

/-! ## Labels of their own definition -/

/-- The label of the key that the action gives is bound, and the action is
recalled. -/
def Bound (p : Program) (table : LabelTable) (m : Projection → Extract α) (key : α → String) :
    Prop :=
  ∃ a l, Recalled p table m a ∧ table.find? (key a) = some l

theorem Bound.mono {table more : LabelTable} {m : Projection → Extract α} {key : α → String}
    (h : Bound p table m key) (hle : table.Le more) : Bound p more m key := by
  obtain ⟨a, l, hr, hl⟩ := h
  exact ⟨a, l, hr.mono hle, hle _ l hl⟩

/-- The definition of a label only runs where it was not bound before, and there
it is bound. -/
theorem answers_keyed {m : Projection → Extract α} {key : α → String}
    {define : Projection → α → Label → Extract Unit} {f : Projection → α → Label → Extract β}
    (hm : Answers p s m)
    (hdefine : ∀ a t l, s.table.Le t.table → ¬Bound p s.table m key → Bound p t.table m key →
      Settles p t fun π => define π a l)
    (hf : ∀ a l t, s.Onward t → Answers p t fun π => f π a l) :
    Answers p s fun π => m π >>= fun a => labelWith (key a) (define π a) >>= f π a := by
  obtain ⟨a, t, ha, hst, hr⟩ := hm
  have hlabel : Answers p t fun π => labelWith (key a) (define π a) := by
    refine answers_labelWith fun hnone => ?_
    have hle := (onward_lookup (key a) t).table
    refine hdefine a _ _ (hst.table.trans hle) ?_ ⟨a, _, hr.mono hle, find?_lookup _ t hnone⟩
    -- what was recalled before the action is what it gives now, and this has no label
    rintro ⟨b, l, hb, hl⟩
    obtain ⟨u, hu, -⟩ := hb t hst.table
    obtain ⟨v, hv, -⟩ := hr t (.refl _)
    obtain ⟨rfl, -⟩ := surely_unique hu hv
    rw [hst.table _ l hl] at hnone
    cases hnone
  have hrest : Answers p t fun π => labelWith (key a) (define π a) >>= f π a :=
    answers_bind hlabel fun l u hu => hf a l u (hst.trans hu)
  obtain ⟨b, u, hb, htu, hrb⟩ := hrest
  refine ⟨b, u, surely_bind ha hb, hst.trans htu, fun v hv => ?_⟩
  obtain ⟨w, hw, hwv⟩ := hr v (htu.table.trans hv)
  obtain ⟨x, hx, hxw⟩ := hrb w (hwv ▸ hv)
  exact ⟨x, surely_bind hw hx, hxw.trans hwv⟩

/-! ## Classes with arguments -/

def SupertypeAnswers (p : Program) (s : Session) (type : IrType) : Prop :=
  ∀ id u, type.classId? = some id → type.simple? = some u →
    AnswersOn p s fun π => π.classInstance id u.arguments

theorem SupertypeAnswers.onward {type : IrType} (h : SupertypeAnswers p s type)
    (ho : s.Onward t) : SupertypeAnswers p t type :=
  fun id u hid hu => (h id u hid hu).onward ho

theorem settles_supertypes (id : DeclId) (label : Label)
    (h : ∀ c, p.class? id = some c → ∀ type ∈ c.superTypes, SupertypeAnswers p s type) :
    Settles p s fun π => π.supertypes id label := by
  apply settles_read
  cases hc : p.class? id with
  | none => exact settles_pure _
  | some c =>
    refine settles_forM fun type htype t ht => ?_
    unfold Projection.supertype
    cases hid : type.classId? with
    | none => exact (answers_read (answers_complain _)).settles
    | some superId =>
      cases hu : type.simple? with
      | none => exact (answers_read (answers_complain _)).settles
      | some u =>
        have hinstance := (h c hc type htype superId u hid hu).onward ht
        exact settles_bind hinstance.here.settles fun _ _ _ => settles_write _

theorem settles_writeClassOrInterface (kind : ClassKind) (id : Label) (name : String)
    (package source : Label) :
    Settles p s fun _ => Projection.writeClassOrInterface kind id name package source := by
  have enum (t : Session) :
      Settles p t fun _ => if kind = .enumClass then write (.isEnumType id) else pure () :=
    settles_ite (fun _ => settles_write _) fun _ => settles_pure _
  exact settles_ite (fun _ => settles_bind (settles_write _) fun _ t _ => enum t)
    fun _ => settles_bind (settles_write _) fun _ t _ => enum t

theorem settles_classModifiers (id : DeclId) (label : Label) :
    Settles p s fun _ => Projection.classModifiers id label := by
  apply settles_read
  cases p.class? id with
  | none => exact settles_pure _
  | some c =>
    refine settles_ite (fun _ => settles_forM fun _ _ _ _ => ?_) fun _ => settles_pure _
    exact settles_bind (answers_fact _ _).settles fun _ _ _ => settles_write _

theorem settles_extractInstance {id : DeclId} {arguments : List TypeArgument} (label : Label)
    (hplace : Placeable s.file.target) (hargs : ∀ a ∈ arguments, ArgumentAnswers p s a)
    (hsuper : ∀ c, p.class? id = some c → ∀ type ∈ c.superTypes, SupertypeAnswers p s type) :
    Settles p s fun π => π.extractInstance id arguments label := by
  apply settles_read
  cases p.decl? id with
  | none => exact settles_pure _
  | some d =>
    cases hc : p.class? id with
    | none => exact settles_pure _
    | some c =>
      refine settles_bind (answers_packageLabel _).settles fun _ t₁ h₁ => ?_
      refine settles_bind (answers_classSource id).settles fun _ t₂ h₂ => ?_
      refine settles_bind (settles_writeClassOrInterface _ _ _ _ _) fun _ t₃ h₃ => ?_
      have ho := h₁.trans (h₂.trans h₃)
      refine settles_bind (settles_forM fun a ha t ht => ?_) fun _ t₄ h₄ => ?_
      · have hmem : a.1 ∈ arguments := List.zipIdx_map_fst 0 arguments ▸ List.mem_map_of_mem ha
        have hanswer := answers_argument ((hargs a.1 hmem).onward (ho.trans ht))
        exact settles_bind hanswer.settles fun _ _ _ => settles_write _
      refine settles_bind (settles_write _) fun _ t₅ h₅ => settles_bind (settles_write _)
        fun _ t₆ h₆ => settles_bind (settles_classModifiers _ _) fun _ t₇ h₇ => ?_
      have ho := ho.trans (h₄.trans (h₅.trans (h₆.trans h₇)))
      refine settles_bind (settles_supertypes id label fun c' hc' type htype => ?_)
        fun _ t₈ h₈ => ?_
      · exact (hsuper c' (hc.symm.trans hc' ▸ hc') type htype).onward ho
      · refine settles_locate ?_ _
        rw [(ho.trans h₈).target]
        exact hplace

/-- The class with these arguments has a label, from which its parts are known. -/
def InstanceBound (p : Program) (table : LabelTable) (id : DeclId)
    (arguments : List TypeArgument) : Prop :=
  Bound p table (fun π => π.instanceName id arguments) fun name => "class;" ++ name

theorem answers_classInstanceStep (hp : HasLines p) (id : DeclId) {arguments : List TypeArgument}
    (hargs : ∀ a ∈ arguments, ArgumentAnswers p s a)
    (hextract : arguments ≠ [] → ∀ t : Session, ¬InstanceBound p s.table (p.onHost id) arguments →
      InstanceBound p t.table (p.onHost id) arguments → s.table.Le t.table →
      Placeable t.file.target → ∀ l, Settles p t fun π =>
        π.extractInstance (p.onHost id) arguments l) :
    Answers p s fun π => π.classInstanceStep id arguments := by
  refine answers_read (answers_keyed (answers_instanceName (p.onHost id) hargs)
    (fun name t l hst hnot hbound => ?_) fun _ _ _ _ => answers_pure _)
  refine settles_when_bind (fun hne => settles_inFileOf hp _ _ fun u hu hplace => ?_)
    fun _ _ => (answers_introducing id).settles
  have hne : arguments ≠ [] := by
    rintro rfl
    cases hne
  exact hextract hne u hnot (hbound.mono hu) (hst.trans hu) hplace l

/-! ## Simple types -/

theorem answers_richType (name : String) (classLabel : Label) (nullable : Bool) :
    Answers p s fun _ => Projection.richType name classLabel nullable :=
  answers_ite (fun _ => answers_bind (answers_fact _ _) fun _ _ _ => answers_pure _)
    fun _ => answers_bind (answers_fact _ _) fun _ _ _ => answers_pure _

theorem answers_classType {id : DeclId} {arguments : List TypeArgument} (nullable : Bool)
    (hinstance : Answers p s fun π => π.classInstance id arguments)
    (hargs : ∀ a ∈ arguments, ArgumentAnswers p s a) :
    Answers p s fun π => π.classType id arguments nullable :=
  answers_bind hinstance fun _ _ ht => answers_read <|
    answers_bind (answers_instanceName id fun a ha => (hargs a ha).onward ht) fun _ _ _ =>
      answers_bind (answers_richType _ _ _) fun _ _ _ => answers_pure _

theorem answers_primitiveHost (info : Builtins.PrimitiveInfo) (allowed : Bool) :
    Answers p s fun _ => Projection.primitiveHost info allowed := by
  have hboxed : Answers p s fun _ => (do
      let label ← namedClass info.hostPackage info.hostClass
      return (⟨label, qualify info.hostPackage info.hostClass⟩ : TypeView)) :=
    answers_bind (answers_namedClass _ _) fun _ _ _ => answers_pure _
  unfold Projection.primitiveHost
  cases info.primitive with
  | none => exact hboxed
  | some name =>
    cases allowed with
    | false => exact hboxed
    | true => exact answers_bind (answers_fact _ _) fun _ _ _ => answers_pure _

theorem answers_primitiveType (info : Builtins.PrimitiveInfo) {id : DeclId}
    (nullable primitives : Bool) (hinstance : AnswersOn p s fun π => π.classInstance id []) :
    Answers p s fun π => π.primitiveType info id nullable primitives :=
  answers_bind (answers_primitiveHost _ _) fun _ _ ht =>
    answers_bind (hinstance _ ht) fun _ _ _ =>
      answers_bind (answers_richType _ _ _) fun _ _ _ => answers_pure _

/-! ## Arrays -/

theorem settles_extractArray {array : SimpleType} (name : String) (levels : Nat)
    (element component label : Label)
    (hsuper : ∀ id, array.classifier = .ofClass id → ∀ c, p.class? id = some c →
      ∀ type ∈ c.superTypes, SupertypeAnswers p s type)
    (hint : TypeAnswers p s (p.builtinType "Int"))
    (hclone : TypeAnswers p s (IrType.simple (p.cloneType array)).makeNullable) :
    Settles p s fun π => π.extractArray array name levels element component label := by
  refine settles_read (settles_bind (settles_write _) fun _ t₁ h₁ => ?_)
  have hmembers (t : Session) (ho : s.Onward t) : Settles p t fun π => (do
      let length ← labelFor ("field;" ++ label.braced ++ ";length")
      let int ← π.type true (p.builtinType "Int")
      write (.fields length "length" int.host.label int.rich.label label length)
      let result ← π.type true (IrType.simple (p.cloneType array)).makeNullable
      let clone ← labelFor ("callable;" ++ label.braced ++ ".clone()" ++ label.braced)
      write (.methods clone "clone" "clone()" label result.rich.label label clone)) := by
    refine settles_bind (answers_labelFor _).settles fun _ u hu => ?_
    refine settles_bind ((hint true).onward (ho.trans hu)).here.settles fun _ v hv => ?_
    refine settles_bind (settles_write _) fun _ w hw => ?_
    have ho := ho.trans (hu.trans (hv.trans hw))
    refine settles_bind ((hclone true).onward ho).here.settles fun _ _ _ => ?_
    exact settles_bind (answers_labelFor _).settles fun _ _ _ => settles_write _
  cases hclassifier : array.classifier with
  | ofClass id =>
    refine settles_bind (settles_supertypes id label fun c hc type htype => ?_)
      fun _ t₂ h₂ => hmembers t₂ (h₁.trans h₂)
    exact (hsuper id hclassifier c hc type htype).onward h₁
  | ofTypeParameter id => exact hmembers t₁ h₁

def coreElement (p : Program) (array : SimpleType) : IrType :=
  Projection.boxed p (p.arrayCore (.simple array)).isPrimitive (p.arrayCore (.simple array)).element

def ArrayBound (p : Program) (table : LabelTable) (array : SimpleType) : Prop :=
  Bound p table (fun π => π.hostLabel (coreElement p array)) fun element =>
    "array;" ++ toString (p.arrayCore (.simple array)).levels ++ ";" ++ element.braced

theorem answers_arrayType {array : SimpleType}
    (hcomponent : TypeAnswers p s
      (Projection.boxed p (p.arrayCore (.simple array)).isPrimitive (p.arrayElement array)))
    (helement : TypeAnswers p s (coreElement p array))
    (hextract : ∀ t : Session, ¬ArrayBound p s.table array → ArrayBound p t.table array →
      s.table.Le t.table → ∀ element component l, Settles p t fun π =>
        π.extractArray array (p.simpleShortName true false array)
          (p.arrayCore (.simple array)).levels element component l)
    (hclass : ∀ id, array.classifier = .ofClass id →
      AnswersOn p s fun π => π.classType id array.arguments array.nullable) :
    Answers p s fun π => π.arrayType array := by
  refine answers_read (answers_bind (answers_hostLabel hcomponent) fun component t₁ h₁ => ?_)
  refine answers_keyed (answers_hostLabel (helement.onward h₁))
    (fun element t l ht hnot hbound => ?_) fun _ label t₂ h₂ => ?_
  · exact hextract t (fun hs => hnot (hs.mono h₁.table)) hbound (h₁.table.trans ht) element
      component l
  · cases hclassifier : array.classifier with
    | ofClass id =>
      exact answers_bind ((hclass id hclassifier).onward (h₁.trans h₂)).here fun _ _ _ =>
        answers_pure _
    | ofTypeParameter id => exact answers_pure _

end Extract

end IrFacts
