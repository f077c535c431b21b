import IrFacts.Proofs.Types.Returns
import IrFacts.Proofs.Types.SameLabel

/-!
# Labels of overloads

The key of a function spells its parent, its name, the host views of its erased
value parameters and that of its erased result. The parts can be read back from
the key, so two functions in one parent share a label just when all of them
agree. What a function extends is no part of its key.
-/

set_option autoImplicit false

namespace IrFacts

open Extract

def callableText (owner : Label) (name : String) (parameters : List Label) (result : Label) :
    String :=
  "callable;" ++ owner.braced ++ "." ++ name ++ "(" ++
    ", ".intercalate (parameters.map Label.braced) ++ ")" ++ result.braced

/-! ## What a key tells -/

section Text

variable {ls ms : List Label} {l m owner : Label} {name other : String} {rest more : List Char}

theorem toList_parameters : (", ".intercalate ((l :: ls).map Label.braced)).toList =
    l.braced.toList ++ ls.flatMap fun m => ',' :: ([' '] ++ m.braced.toList) := by
  induction ls generalizing l with
  | nil => simp
  | cons m ls ih =>
    rw [List.map_cons, List.map_cons, String.intercalate_cons_cons, ← List.map_cons]
    simp only [String.toList_append, ih, List.flatMap_cons, List.append_assoc]
    rfl

theorem parameters_inj (hl : ∀ l ∈ ls, ∃ n, l = .number n) (hm : ∀ m ∈ ms, ∃ n, m = .number n)
    (h : (", ".intercalate (ls.map Label.braced)).toList ++ ')' :: rest =
      (", ".intercalate (ms.map Label.braced)).toList ++ ')' :: more) : ls = ms ∧ rest = more := by
  have hopen {m : Label} {ms : List Label} (hm : ∃ n, m = .number n) (rest more : List Char) :
      (", ".intercalate (([] : List Label).map Label.braced)).toList ++ ')' :: rest ≠
        (", ".intercalate ((m :: ms).map Label.braced)).toList ++ more := by
    obtain ⟨n, rfl⟩ := hm
    rw [toList_parameters, Label.braced_number]
    simp
  cases ls with
  | nil =>
    cases ms with
    | nil => exact ⟨rfl, (List.cons.inj h).2⟩
    | cons m ms => exact absurd h (hopen (hm m (List.mem_cons_self ..)) _ _)
  | cons l ls =>
    cases ms with
    | nil => exact absurd h.symm (hopen (hl l (List.mem_cons_self ..)) _ _)
    | cons m ms =>
      rw [List.forall_mem_cons] at hl hm
      obtain ⟨⟨i, rfl⟩, hl⟩ := hl
      obtain ⟨⟨j, rfl⟩, hm⟩ := hm
      rw [toList_parameters, toList_parameters, List.append_assoc, List.append_assoc] at h
      obtain ⟨rfl, htail⟩ := Label.braced_append_inj h
      obtain ⟨rfl, hrest⟩ := labels_inj ',' [' '] hl hm (by simp) (by simp) htail
      exact ⟨rfl, (List.cons.inj hrest).2⟩

/-- A name that keeps clear of parentheses can be read back from the key, with all
that stands behind it. -/
theorem callableText_inj (hname : '(' ∉ name.toList) (hother : '(' ∉ other.toList)
    (hl : ∀ l ∈ ls, ∃ n, l = .number n) (hm : ∀ m ∈ ms, ∃ n, m = .number n)
    (hresult : ∃ n, l = .number n) (hresult' : ∃ n, m = .number n)
    (h : callableText owner name ls l = callableText owner other ms m) :
    name = other ∧ ls = ms ∧ l = m := by
  delta callableText at h
  replace h := congrArg String.toList h
  simp only [String.toList_append, List.append_assoc] at h
  replace h := List.append_cancel_left (List.append_cancel_left (List.append_cancel_left h))
  obtain ⟨hnames, htail⟩ := eq_of_append_cons hname hother h
  obtain ⟨rfl, hresults⟩ := parameters_inj hl hm htail
  exact ⟨String.toList_inj.mp hnames, rfl,
    Label.braced_inj hresult hresult' (String.toList_inj.mp hresults)⟩

end Text

/-! ## What a session knows of a function -/

namespace Program

/-- The names of classes and packages keep clear of the sign between the parts of a
key, those of functions of what opens the parameters. -/
structure PlainNames (p : Program) : Prop extends p.PlainClassNames where
  ofFunction : ∀ d ∈ p.declarations, ∀ f, d.kind = .function f → '(' ∉ f.name.toList

def hasPlainNames (p : Program) : Bool :=
  p.files.all (fun entry => !entry.package.toList.contains ';') &&
    p.declarations.all fun d =>
      (match d.parent with
        | .package name => !name.toList.contains ';'
        | _ => true) &&
      match d.kind with
      | .class c => !c.name.toList.contains ';'
      | .function f => !f.name.toList.contains '('
      | _ => true

theorem plainNames_of_check {p : Program} (h : p.hasPlainNames = true) : p.PlainNames := by
  simp only [hasPlainNames, Bool.and_eq_true, Array.all_eq_true_iff_forall_mem] at h
  obtain ⟨hfiles, hdecls⟩ := h
  refine ⟨⟨fun entry hentry => ?file, fun d hd name hname => ?package, fun d hd c hc => ?ofClass⟩,
    fun d hd f hf => ?ofFunction⟩
  case file => simpa using hfiles entry hentry
  case package => simpa [hname] using (hdecls d hd).1
  case ofClass => simpa [hc] using (hdecls d hd).2
  case ofFunction => simpa [hf] using (hdecls d hd).2

end Program

namespace Session

/-- The label of the host view of the erased type. -/
def Erased (u : Session) (p : Program) (type : IrType) (l : Label) : Prop :=
  ∃ fuel u', Ends p u ((projection fuel).hostLabel (p.erase type)) l u'

/-- The labels of the erased types in the signature of a function, that of its
result before those of its value parameters. -/
def Signs (u : Session) (p : Program) (f : FunctionDecl) (labels : List Label) : Prop :=
  List.Forall₂ (u.Erased p) (p.signature f) labels

variable {p : Program} {s s' u : Session}

theorem erased_unique (u : Session) (p : Program) : Relator.RightUnique (u.Erased p) := by
  rintro type l m ⟨i, v, hl⟩ ⟨j, w, hm⟩
  rcases Nat.le_total i j with hle | hle
  · exact (ends_unique ((refines_projection p hle).hostLabel _ u l v hl) hm).1
  · exact (ends_unique hl ((refines_projection p hle).hostLabel _ u m w hm)).1

theorem signs_unique {f : FunctionDecl} {ls ms : List Label} (hl : u.Signs p f ls)
    (hm : u.Signs p f ms) : ls = ms := (erased_unique u p).forall₂ hl hm

theorem erased_of_hostLabel (hp : p.PlainClassNames) {fuel : Nat} {type : IrType} {l : Label}
    (h : Ends p s ((projection fuel).hostLabel (p.erase type)) l s') :
    s'.Hereafter fun u => u.Erased p type l ∧ ∃ n, l = .number n := by
  have hπ := consing_projection hp fuel
  obtain ⟨f, hf⟩ := Projection.fits_hostLabel hπ h
  intro u hu ht
  obtain ⟨u', hu', -⟩ := (asks_hostLabel hπ.toStable (p.erase type)).again h hu
  exact ⟨⟨fuel, u', hu'⟩, HostForm.number_of_label? ht (hf u hu ht).label⟩

theorem erased_of_mapM (hp : p.PlainClassNames) {fuel : Nat} {types : List IrType}
    {texts : List String} (h : Ends p s (types.mapM fun t => do
      return (← (projection fuel).hostLabel (p.erase t)).braced) texts s') :
    ∃ ls : List Label, texts = ls.map Label.braced ∧ s'.Hereafter fun u =>
      List.Forall₂ (u.Erased p) types ls ∧ ∀ l ∈ ls, ∃ n, l = .number n := by
  induction types generalizing s texts with
  | nil =>
    obtain ⟨rfl, rfl⟩ := ends_pure.mp h
    exact ⟨[], rfl, fun u _ _ => ⟨.nil, nofun⟩⟩
  | cons type types ih =>
    rw [List.mapM_cons] at h
    obtain ⟨text, t₁, hfirst, h⟩ := ends_bind.mp h
    obtain ⟨l, _, hl, hfirst⟩ := ends_bind.mp hfirst
    obtain ⟨rfl, rfl⟩ := ends_pure.mp hfirst
    obtain ⟨texts, t₂, hrest, h⟩ := ends_bind.mp h
    obtain ⟨rfl, rfl⟩ := ends_pure.mp h
    obtain ⟨ls, rfl, hls⟩ := ih hrest
    have hle := (asks_mapM fun t => asks_bind (asks_hostLabel
      (stable_projection p fuel) (p.erase t)) fun _ => .pure _).grows _ _ _ hrest
    refine ⟨l :: ls, rfl, fun u hu ht => ?_⟩
    obtain ⟨herased, hnumber⟩ := erased_of_hostLabel hp hl u (hle.trans hu) ht
    obtain ⟨hall, hnumbers⟩ := hls u hu ht
    exact ⟨.cons herased hall, List.forall_mem_cons.mpr ⟨hnumber, hnumbers⟩⟩

/-- The label of the function is that of the key over these labels. -/
structure Keyed (u : Session) (p : Program) (parent : DeclParent) (f : FunctionDecl)
    (l owner result : Label) (parameters : List Label) : Prop where
  inParent : u.Owner p parent owner
  signs : u.Signs p f (result :: parameters)
  numbers : ∀ m ∈ result :: parameters, ∃ n, m = .number n
  bound : u.table.find? (callableText owner f.name parameters result) = some l

theorem keyed_of_function (hp : p.PlainClassNames) {fuel : Nat} {id : DeclId} {parent : DeclParent}
    {f : FunctionDecl} {l : Label} (hf : p.function? id = some f)
    (hparent : p.parent? id = some parent)
    (h : Ends p s ((projection fuel).function id) l s') :
    ∃ owner result parameters, s'.Hereafter fun u =>
      u.Keyed p parent f l owner result parameters := by
  obtain ⟨d, hd, rfl⟩ := Option.map_eq_some_iff.mp hparent
  have hπ := consing_projection hp fuel
  replace h := ends_read_bind.mp h
  simp only [hd, hf] at h
  obtain ⟨key, t₁, hkey, h⟩ := ends_bind.mp h
  obtain ⟨label, t₂, hlabel, h⟩ := ends_bind.mp h
  rw [when_bind] at h
  obtain ⟨_, t₃, howner, h⟩ := ends_bind.mp h
  obtain ⟨rfl, rfl⟩ := ends_pure.mp h
  obtain ⟨texts, t₄, htexts, hkey⟩ := ends_bind.mp (ends_read_bind.mp hkey)
  obtain ⟨result, t₅, hresult, hkey⟩ := ends_bind.mp hkey
  obtain ⟨owner, t₆, hparentLabel, hkey⟩ := ends_bind.mp hkey
  obtain ⟨rfl, rfl⟩ := ends_pure.mp hkey
  obtain ⟨parameters, rfl, hparameters⟩ := erased_of_mapM hp htexts
  obtain ⟨hle₁, hbound⟩ := bound_of_labelFor hlabel
  have hle₂ : t₂.Le s' := (asks_ite (asks_scheduleOwner _ _) (.pure ())).grows _ _ _ howner
  have hle₃ := (hπ.asksParent d.parent).grows _ _ _ hparentLabel
  have hle₄ := (asks_hostLabel hπ.toStable _).grows _ _ _ hresult
  refine ⟨owner, result, parameters, fun u hu ht => ?_⟩
  have hu₂ := hle₂.trans hu
  have hu₅ := hle₃.trans (hle₁.trans hu₂)
  obtain ⟨herased, hnumber⟩ := erased_of_hostLabel hp hresult u hu₅ ht
  obtain ⟨hall, hnumbers⟩ := hparameters u (hle₄.trans hu₅) ht
  exact ⟨(hπ.owner hparentLabel u (hle₁.trans hu₂) ht).1, .cons herased hall,
    List.forall_mem_cons.mpr ⟨hnumber, hnumbers⟩, hu₂.find? _ _ hbound⟩

/-- In the session the labels of two functions tell whether their names and the
labels of their erased types agree. -/
structure Overloads (u : Session) (p : Program) (f g : FunctionDecl) (l m : Label) : Prop where
  signed : (∃ ls, u.Signs p f ls) ∧ ∃ ms, u.Signs p g ms
  label : ∀ ls ms, u.Signs p f ls → u.Signs p g ms → (l = m ↔ f.name = g.name ∧ ls = ms)

theorem Keyed.overloads (hu : u.table.Faithful) {parent : DeclParent} {f g : FunctionDecl}
    {l m owner other result result' : Label} {parameters others : List Label}
    (hname : '(' ∉ f.name.toList) (hother : '(' ∉ g.name.toList)
    (hf : u.Keyed p parent f l owner result parameters)
    (hg : u.Keyed p parent g m other result' others) : u.Overloads p f g l m where
  signed := ⟨⟨_, hf.signs⟩, _, hg.signs⟩
  label ls ms hls hms := by
    obtain rfl := owner_unique u p hf.inParent hg.inParent
    obtain rfl := signs_unique hls hf.signs
    obtain rfl := signs_unique hms hg.signs
    obtain ⟨hresult, hparameters⟩ := List.forall_mem_cons.mp hf.numbers
    obtain ⟨hresult', hothers⟩ := List.forall_mem_cons.mp hg.numbers
    constructor
    · rintro rfl
      obtain ⟨hnames, rfl, rfl⟩ := callableText_inj hname hother hparameters hothers hresult
        hresult' (hu.distinct _ _ _ hf.bound hg.bound)
      exact ⟨hnames, rfl⟩
    · rintro ⟨hnames, hlabels⟩
      obtain ⟨rfl, rfl⟩ := List.cons.inj hlabels
      exact Option.some.inj (hf.bound.symm.trans (hnames ▸ hg.bound))

end Session

/-! ## The result -/

namespace Extract

variable {p : Program}

theorem function_returns {d : Document} (hd : Program.ofDocument d = .ok p) (hn : p.Numbered)
    (hnest : p.FunctionsNest) (hlines : HasLines p) (s : Session) (id : DeclId) :
    ∃ l s' least, ∀ fuel ≥ least, Ends p s ((projection fuel).function id) l s' := by
  have hplain := Program.builtinsPlain_of_index (Program.indexNames_ofDocument hd hn)
  have hs : Setting p (p.family (.error "")) :=
    ⟨hlines, hnest, hplain, Program.family_family hplain _⟩
  have hsignatures (t : Session) : SignaturesAnswer p t :=
    signaturesAnswer_of_deeper hs fun u _ _ => familyAnswers hs u
  obtain ⟨l, s', hends, -⟩ := answers_function hnest (hsignatures s id) fun parent _ =>
    answersOn_parent hnest (hsignatures s) parent
  exact ⟨l, s', hends⟩

end Extract

namespace Request

variable {p : Program} {f g : FunctionDecl}

/-- In any store, with any requests between them, two functions in one parent share a
label just when they share their name and the labels of the erased types of their
value parameters and results. Both get a label where functions nest. -/
theorem overloads_apart {a b : DeclId} (hp : p.PlainNames) (hf : p.function? a = some f)
    (hg : p.function? b = some g) (hparent : p.parent? a = p.parent? b) :
    (∀ {s s₁ s₂ s₃ : Session} {fuel₁ fuel₂ typeFuel walkFuel : Nat} {requests : List Request}
      {l m : Label}, s.Reachable → Ends p s ((projection fuel₁).function a) l s₁ →
        Ends p s₁ (run (walk (projection typeFuel) walkFuel) requests) () s₂ →
        Ends p s₂ ((projection fuel₂).function b) m s₃ → s₃.Overloads p f g l m) ∧
    ∀ {d : Document}, Program.ofDocument d = .ok p → p.Numbered → p.FunctionsNest → HasLines p →
      ∀ s, ∀ id ∈ [a, b], ∃ l s' least, ∀ fuel ≥ least,
        Ends p s ((projection fuel).function id) l s' := by
  constructor
  case right => exact fun hd hn hnest hlines s id _ => function_returns hd hn hnest hlines s id
  case left =>
    intro s s₁ s₂ s₃ fuel₁ fuel₂ typeFuel walkFuel requests l m hs h₁ hbetween h₂
    obtain ⟨d, hd, hfd⟩ := Program.decl_of_function? hf
    obtain ⟨e, he, hge⟩ := Program.decl_of_function? hg
    have hpa : p.parent? a = some d.parent := by simp [Program.parent?, hd]
    obtain ⟨owner, result, parameters, hkey⟩ :=
      Session.keyed_of_function hp.toPlainClassNames hf hpa h₁
    obtain ⟨other, result', others, hkey'⟩ :=
      Session.keyed_of_function hp.toPlainClassNames hg (hparent ▸ hpa) h₂
    have hle : s₁.Le s₃ := (grows_run typeFuel walkFuel requests _ _ _ hbetween).trans
      ((asks_function (stable_projection p fuel₂) b).grows _ _ _ h₂)
    have htable : s₃.table.Faithful :=
      (((hs.of_ends (asks_function (stable_projection p fuel₁) a).plain h₁).of_ends
        (plain_run typeFuel walkFuel requests) hbetween).of_ends
        (asks_function (stable_projection p fuel₂) b).plain h₂).faithful
    exact Session.Keyed.overloads htable (hp.ofFunction d (Array.mem_of_getElem? hd) f hfd)
      (hp.ofFunction e (Array.mem_of_getElem? he) g hge) (hkey s₃ hle htable)
      (hkey' s₃ (.refl s₃) htable)

/-- `fun f(a: A): A`, `fun f(b: B): A`, `fun A.g(): A` and `fun B.g(): A`. -/
def overloaded : Document :=
  let a : IrType := .ofClass ⟨0⟩ []
  let b : IrType := .ofClass ⟨1⟩ []
  let parameter (function : UInt32) (index : Int32) (type : IrType) : Declaration :=
    { parent := .decl ⟨function⟩, kind := .valueParameter { name := "it", index, type } }
  let inFile (kind : DeclKind) : Declaration := { parent := .file ⟨0⟩, kind }
  { files := [{ path := "a.kt", declarations := [⟨0⟩, ⟨1⟩, ⟨2⟩, ⟨3⟩, ⟨4⟩, ⟨5⟩] }]
    declarations :=
      [inFile (.class { name := "A" }), inFile (.class { name := "B" }),
        inFile (.function { name := "f", valueParameters := [⟨6⟩], returnType := a }),
        inFile (.function { name := "f", valueParameters := [⟨7⟩], returnType := a }),
        inFile (.function { name := "g", extensionReceiver := some ⟨8⟩, returnType := a }),
        inFile (.function { name := "g", extensionReceiver := some ⟨9⟩, returnType := a }),
        parameter 2 0 a, parameter 3 0 b, parameter 4 (-1) a, parameter 5 (-1) b] }

def overloads : Program := (Program.ofDocument overloaded).toOption.getD default

theorem ofDocument_overloaded : Program.ofDocument overloaded = .ok overloads := by
  have hok : (Program.ofDocument overloaded).isOk = true := by decide +kernel
  unfold overloads
  cases hd : Program.ofDocument overloaded with
  | error e =>
    rw [hd] at hok
    cases hok
  | ok p => rfl

/-- Both are asked for, one after the other. -/
theorem overloads_apart_parameters :
    let new : Session :=
      { file := .source (.ofSink .unbounded) "a.kt" .single, counter := {}, queue := {} }
    ∃ f g l m s₁ s₂ s₃, overloads.function? ⟨2⟩ = some f ∧ overloads.function? ⟨3⟩ = some g ∧
      Ends overloads new ((projection 9).function ⟨2⟩) l s₁ ∧
      Ends overloads s₁ (run (walk (projection 9) 9) [.modifier "final"]) () s₂ ∧
      Ends overloads s₂ ((projection 9).function ⟨3⟩) m s₃ ∧
      s₃.Overloads overloads f g l m ∧
      ∀ s, ∀ id ∈ [(⟨2⟩ : DeclId), ⟨3⟩], ∃ l s' least, ∀ fuel ≥ least,
        Ends overloads s ((projection fuel).function id) l s' := by
  intro new
  have hall : (overloads.hasPlainNames && (overloads.function? ⟨2⟩).isSome &&
      (overloads.function? ⟨3⟩).isSome && overloads.parent? ⟨2⟩ = overloads.parent? ⟨3⟩ &&
      overloads.declarations.size ≤ UInt32.size && overloads.parentsFirst &&
      overloads.files.toList.all fun entry => entry.lines.starts ≠ #[]) = true := by
    decide +kernel
  simp only [Bool.and_eq_true, decide_eq_true_eq] at hall
  obtain ⟨⟨⟨⟨⟨⟨hnames, hfirst⟩, hsecond⟩, hparent⟩, hnumbered⟩, hparents⟩, hfiles⟩ := hall
  obtain ⟨f, hf⟩ := Option.isSome_iff_exists.mp hfirst
  obtain ⟨g, hg⟩ := Option.isSome_iff_exists.mp hsecond
  have hp := Program.plainNames_of_check hnames
  have hlines : HasLines overloads := fun entry hentry =>
    of_decide_eq_true (List.all_eq_true.mp hfiles entry (Array.mem_toList_iff.mpr hentry))
  obtain ⟨hapart, hreturns⟩ := overloads_apart hp hf hg hparent
  obtain ⟨_, s₃, h⟩ := ends_of_isOk (p := overloads) (s := new)
    (m := (projection 9).function ⟨2⟩ >>= fun l =>
      run (walk (projection 9) 9) [.modifier "final"] >>= fun _ =>
        (projection 9).function ⟨3⟩ >>= fun m => pure (l, m)) (by decide +kernel)
  obtain ⟨l, s₁, h₁, h⟩ := ends_bind.mp h
  obtain ⟨_, s₂, hbetween, h⟩ := ends_bind.mp h
  obtain ⟨m, _, h₂, h⟩ := ends_bind.mp h
  obtain ⟨rfl, rfl⟩ := ends_pure.mp h
  have hnew : new.Reachable := ⟨new, .unbounded, "a.kt", some .single, [], rfl, rfl⟩
  refine ⟨f, g, l, m, s₁, s₂, _, hf, hg, h₁, hbetween, h₂, hapart hnew h₁ hbetween h₂, ?_⟩
  exact hreturns ofDocument_overloaded hnumbered (Program.functionsNest_of_parentsFirst hparents)
    hlines

/-- What is extended does not tell two functions apart: `A.g()` and `B.g()` share a label,
although `A` and `B` do not. -/
theorem extensions_share_label :
    let new : Session :=
      { file := .source (.ofSink .unbounded) "a.kt" .single, counter := {}, queue := {} }
    overloads.PlainNames ∧ overloads.parent? ⟨4⟩ = overloads.parent? ⟨5⟩ ∧
      (overloads.function? ⟨4⟩).bind (·.extensionReceiver) = some ⟨8⟩ ∧
      (overloads.function? ⟨5⟩).bind (·.extensionReceiver) = some ⟨9⟩ ∧
      ∃ l s₁ s₂ r q, new.Reachable ∧
        Ends overloads new ((projection 9).function ⟨4⟩) l s₁ ∧
        Ends overloads s₁ ((projection 9).function ⟨5⟩) l s₂ ∧
        s₂.Erased overloads (Projection.valueType overloads ⟨8⟩) r ∧
        s₂.Erased overloads (Projection.valueType overloads ⟨9⟩) q ∧ r ≠ q := by
  intro new
  have hall : (overloads.hasPlainNames && overloads.parent? ⟨4⟩ = overloads.parent? ⟨5⟩ &&
      (overloads.function? ⟨4⟩).bind (·.extensionReceiver) = some ⟨8⟩ &&
      (overloads.function? ⟨5⟩).bind (·.extensionReceiver) = some ⟨9⟩) = true := by
    decide +kernel
  simp only [Bool.and_eq_true, decide_eq_true_eq] at hall
  obtain ⟨⟨⟨hnames, hparent⟩, hreceiver⟩, hreceiver'⟩ := hall
  refine ⟨Program.plainNames_of_check hnames, hparent, hreceiver, hreceiver', ?_⟩
  let hostLabel (id : UInt32) : Extract Label :=
    (projection 9).hostLabel (overloads.erase (Projection.valueType overloads ⟨id⟩))
  obtain ⟨⟨l, m, r, q⟩, _, h, hsame⟩ := ends_of_map (p := overloads) (s := new)
    (m := (projection 9).function ⟨4⟩ >>= fun l => (projection 9).function ⟨5⟩ >>= fun m =>
      get >>= fun s => hostLabel 8 >>= fun r => modify (fun _ => s) >>= fun _ =>
        hostLabel 9 >>= fun q => pure (l, m, r, q))
    (f := fun r => decide (r.1.1 = r.1.2.1 ∧ r.1.2.2.1 ≠ r.1.2.2.2)) (b := true)
    (by decide +kernel)
  obtain ⟨l, s₁, hl, h⟩ := ends_bind.mp h
  obtain ⟨m, s₂, hm, h⟩ := ends_bind.mp h
  obtain ⟨r, s₃, hr, h⟩ := ends_bind.mp (ends_get_bind.mp h)
  obtain ⟨_, s₄, hback, h⟩ := ends_bind.mp h
  obtain ⟨q, s₅, hq, hend⟩ := ends_bind.mp h
  obtain rfl := ends_modify.mp hback
  cases (ends_pure.mp hend).1
  obtain ⟨rfl, hne⟩ : l = m ∧ r ≠ q := of_decide_eq_true hsame
  have hnew : new.Reachable := ⟨new, .unbounded, "a.kt", some .single, [], rfl, rfl⟩
  exact ⟨_, s₁, _, _, _, hnew, hl, hm, ⟨9, s₃, hr⟩, ⟨9, s₅, hq⟩, hne⟩

end Request

end IrFacts
