import IrFacts.Ir.Decode
import IrFacts.Ir.Encode
import IrFacts.Proofs.Json.DecodeBack

/-!
# Encoded programs are decoded

Decoding undoes encoding, for every part of a program: each record is given back
with its members, each variant under its tag. Types and expressions nest without
end while a decoder opens a bounded number of brackets, so the lemmas on them are
about a decoder for any number of levels, and go by recursion on what is encoded.
-/

set_option autoImplicit false

namespace IrFacts

open Json

/-! ## Programs without floating point -/

def ConstValue.FloatFree : ConstValue → Prop
  | .float _ => False
  | .double _ => False
  | _ => True

mutual

def Statement.FloatFree : Statement → Prop
  | .expr e => e.FloatFree
  | .variable _ => True
  | .declaration _ => True

/-- No constant in the expression is a floating-point number. -/
def Expr.FloatFree : Expr → Prop
  | ⟨_, _, kind⟩ => kind.FloatFree

def Call.FloatFree : Call → Prop
  | ⟨_, receiver, _, values, _⟩ => Expr.FloatFreeOption receiver ∧ Expr.FloatFreeOptions values

def Loop.FloatFree : Loop → Prop
  | ⟨_, _, condition, body⟩ => condition.FloatFree ∧ Expr.FloatFreeOption body

def Catch.FloatFree : Catch → Prop
  | ⟨_, result⟩ => result.FloatFree

def Branch.FloatFree : Branch → Prop
  | ⟨_, condition, result, _⟩ => condition.FloatFree ∧ result.FloatFree

def VarargElement.FloatFree : VarargElement → Prop
  | .expr e => e.FloatFree
  | .spread e => e.FloatFree

def ExprKind.FloatFree : ExprKind → Prop
  | .delegatingConstructorCall call => call.FloatFree
  | .constructorCall call => call.FloatFree
  | .enumConstructorCall call => call.FloatFree
  | .call call => call.FloatFree
  | .throwExpr value => value.FloatFree
  | .returnExpr value => value.FloatFree
  | .tryExpr result catches finish =>
    result.FloatFree ∧ Catch.FloatFreeAll catches ∧ Expr.FloatFreeOption finish
  | .block statements => Statement.FloatFreeAll statements
  | .whileLoop loop => loop.FloatFree
  | .doWhileLoop loop => loop.FloatFree
  | .stringConcatenation arguments => Expr.FloatFreeAll arguments
  | .const value => value.FloatFree
  | .setValue _ value => value.FloatFree
  | .setField _ value => value.FloatFree
  | .when _ branches => Branch.FloatFreeAll branches
  | .getClass argument => argument.FloatFree
  | .typeOperator _ _ argument => argument.FloatFree
  | .vararg elements => VarargElement.FloatFreeAll elements
  | .instanceInitializerCall _ => True
  | .breakExpr _ => True
  | .continueExpr _ => True
  | .getValue _ => True
  | .getField _ => True
  | .getEnumValue _ => True
  | .getObjectValue _ => True
  | .unsupported _ => True

def Expr.FloatFreeOption : Option Expr → Prop
  | none => True
  | some e => e.FloatFree

def Expr.FloatFreeOptions : List (Option Expr) → Prop
  | [] => True
  | e :: rest => Expr.FloatFreeOption e ∧ Expr.FloatFreeOptions rest

def Expr.FloatFreeAll : List Expr → Prop
  | [] => True
  | e :: rest => e.FloatFree ∧ Expr.FloatFreeAll rest

def Statement.FloatFreeAll : List Statement → Prop
  | [] => True
  | s :: rest => s.FloatFree ∧ Statement.FloatFreeAll rest

def Catch.FloatFreeAll : List Catch → Prop
  | [] => True
  | c :: rest => c.FloatFree ∧ Catch.FloatFreeAll rest

def Branch.FloatFreeAll : List Branch → Prop
  | [] => True
  | b :: rest => b.FloatFree ∧ Branch.FloatFreeAll rest

def VarargElement.FloatFreeAll : List VarargElement → Prop
  | [] => True
  | e :: rest => e.FloatFree ∧ VarargElement.FloatFreeAll rest

end

/-- No constant in the bodies and initializers of the declaration is a floating-point
number. -/
def DeclKind.FloatFree : DeclKind → Prop
  | .function f => ∀ body ∈ f.body, Statement.FloatFreeAll body.statements
  | .field f => Expr.FloatFreeOption f.initializer
  | .initializer i => Statement.FloatFreeAll i.statements
  | .variable v => Expr.FloatFreeOption v.initializer
  | .class _ => True
  | .property _ => True
  | .enumEntry _ => True
  | .typeAlias _ => True
  | .typeParameter _ => True
  | .valueParameter _ => True

def Declaration.FloatFree (d : Declaration) : Prop := d.kind.FloatFree

/-! ## Ways of decoding -/

variable {levels : Nat}

namespace Json.Within

variable {α : Type} {decode : Decoder α} {encode : α → Value}

theorem weaken {v : Value} {a : α} (h : Within (levels + 1) decode v a) :
    Within levels decode v a :=
  h.mono (Nat.le_succ levels)

theorem optionOf (h : ∀ a, Within levels decode (encode a) a) (hnull : ∀ a, encode a ≠ .null) :
    ∀ a : Option α, Within levels (Decoder.optionOf decode) (Value.optional encode a) a
  | none => .absent
  | some a => .present (h a) (hnull a)

theorem listOf (h : ∀ a, Within levels decode (encode a) a) (as : List α) :
    Within (levels + 1) (Decoder.list decode) (.array (as.map encode)) as :=
  .list (List.forall₂_map_left_iff.mpr (List.forall₂_same.mpr fun a _ => h a))

theorem single {name : String} {v : Value} {a : α} (h : Within levels decode v a) :
    Within levels (IrFacts.single name decode) (.object [(name, v)]) a :=
  .weaken (.record (by simp) (.refl _) ⟨h.fits, trivial⟩ fun depth hdepth hle => by
    simp [h.required hdepth hle])

theorem variant {β : Type} {variant? : String → Option (Variant β)} {tag : String} {v : Value}
    {a : α} {f : α → β}
    (htag : variant? tag = some (.holding fun depth node => (decode depth node).map f))
    (h : Within levels decode v a) :
    Within levels (Decoder.tagged variant?) (.object [(tag, v)]) (f a) :=
  .weaken (.holding htag (h.map f))

end Json.Within

/-! ## Numbers, places and words -/

theorem DeclId.within (levels : Nat) (id : DeclId) : Within levels DeclId.decode id.encode id :=
  (Within.uint32 levels id.index).map DeclId.mk

theorem FileId.within (levels : Nat) (id : FileId) : Within levels FileId.decode id.encode id :=
  (Within.uint32 levels id.index).map FileId.mk

theorem LoopId.within (levels : Nat) (id : LoopId) : Within levels LoopId.decode id.encode id :=
  (Within.uint32 levels id.index).map LoopId.mk

theorem DeclId.within_option (levels : Nat) (id : Option DeclId) :
    Within levels (Decoder.optionOf DeclId.decode) (Value.optional DeclId.encode id) id :=
  .optionOf (DeclId.within levels) nofun id

theorem DeclId.within_list (levels : Nat) (ids : List DeclId) :
    Within levels (Decoder.list DeclId.decode) (DeclId.encodeList ids) ids :=
  (Within.listOf (DeclId.within levels) ids).weaken

theorem Json.Within.stringOption (levels : Nat) (s : Option String) :
    Within levels (Decoder.optionOf Decoder.string) (Value.optional .string s) s :=
  .optionOf (Within.string levels) nofun s

theorem Span.within (levels : Nat) (s : Span) : Within levels Span.decode s.encode s := by
  have hstart := Within.int32 levels s.start
  have hstop := Within.int32 levels s.stop
  refine .weaken (.record (by simp) (.refl _) ⟨hstart.fits, hstop.fits, trivial⟩
    fun depth hdepth hle => ?_)
  simp [hstart.required hdepth hle, hstop.required hdepth hle, List.lookup_cons]

theorem Classifier.within (levels : Nat) :
    ∀ c : Classifier, Within levels Classifier.decode c.encode c
  | .ofClass id => .variant rfl (id.within levels)
  | .ofTypeParameter id => .variant rfl (id.within levels)

theorem Variance.within (levels : Nat) (v : Variance) :
    Within levels Variance.decode v.encode v := by
  cases v <;> exact .bare rfl

theorem StatementOrigin.within (levels : Nat) (o : StatementOrigin) :
    Within levels StatementOrigin.decode o.encode o := by
  cases o <;> exact .bare rfl

theorem TypeOperator.within (levels : Nat) (o : TypeOperator) :
    Within levels TypeOperator.decode o.encode o := by
  cases o <;> exact .bare rfl

theorem Jump.within (levels : Nat) (j : Jump) : Within levels Jump.decode j.encode j := by
  have hloop := LoopId.within levels j.loopId
  have hlabel := Within.stringOption levels j.label
  refine .weaken (.record (by simp) (.refl _) ⟨hloop.fits, hlabel.fits, trivial⟩
    fun depth hdepth hle => ?_)
  simp [hloop.required hdepth hle, hlabel.optional hdepth hle, List.lookup_cons]

/-! ## Types -/

/-- It is enough to decode types with one more level than the types in them. -/
theorem IrType.within_of_step {v : Value} {t : IrType}
    (h : ∀ levels, Within (levels + 1) (IrType.decodeWith (IrType.decodeWithin levels)) v t) :
    ∀ levels, Within levels (IrType.decodeWithin levels) v t
  | 0 => (h 0).weaken.zero _
  | levels + 1 => h levels

mutual

theorem IrType.within_levels : ∀ (t : IrType) (levels : Nat),
    Within levels (IrType.decodeWithin levels) t.encode t
  | .simple s => IrType.within_of_step fun levels =>
    .variant rfl (SimpleType.within_levels s levels)
  | .error description => IrType.within_of_step fun levels => by
    have hdescription := Within.string levels description
    refine .weaken (.holding rfl (.record (by simp) (.refl _) ⟨hdescription.fits, trivial⟩
      fun depth hdepth hle => ?_))
    simp [hdescription.required hdepth hle]

theorem SimpleType.within_levels : ∀ (s : SimpleType) (levels : Nat),
    Within (levels + 1) (SimpleType.decodeWith (IrType.decodeWithin levels)) s.encode s
  | ⟨classifier, nullable, arguments, abbreviation⟩, levels => by
    have hclassifier := Classifier.within levels classifier
    have hnullable := Within.bool levels nullable
    have harguments := (Within.list (TypeArgument.within_all arguments levels)).weaken
    cases abbreviation with
    | none =>
      have habsent : [("classifier", classifier.encode), ("nullable", .bool nullable),
          ("arguments", .array (TypeArgument.encodeAll arguments))].lookup "abbreviation" = none :=
        rfl
      change Within _ _ (.object [("classifier", _), ("nullable", _), ("arguments", _)]) _
      refine .record (by simp) (by simp)
        ⟨hclassifier.fits, hnullable.fits, harguments.fits, trivial⟩
        fun depth hdepth hle => ?_
      simp [hclassifier.required hdepth hle, hnullable.optional hdepth hle,
        harguments.optional hdepth hle, Reading.optional_written _ _ habsent, List.lookup_cons]
    | some id =>
      have hid := DeclId.within_option levels (some id)
      change Within _ _ (.object [("classifier", _), ("nullable", _), ("arguments", _),
        ("abbreviation", Value.optional DeclId.encode (some id))]) _
      refine .record (by simp) (.refl _)
        ⟨hclassifier.fits, hnullable.fits, harguments.fits, hid.fits, trivial⟩
        fun depth hdepth hle => ?_
      simp [hclassifier.required hdepth hle, hnullable.optional hdepth hle,
        harguments.optional hdepth hle, hid.optional hdepth hle, List.lookup_cons]

theorem TypeArgument.within_levels : ∀ (a : TypeArgument) (levels : Nat),
    Within levels (TypeArgument.decodeWith (IrType.decodeWithin levels)) a.encode a
  | .star, _ => .bare rfl
  | .projection variance type, levels => by
    have hvariance := Variance.within levels variance
    have htype := IrType.within_levels type levels
    refine .weaken (.holding rfl (.weaken (.record (by simp) (.refl _)
      ⟨hvariance.fits, htype.fits, trivial⟩ fun depth hdepth hle => ?_)))
    simp [hvariance.optional hdepth hle, htype.required hdepth hle, List.lookup_cons]

theorem TypeArgument.within_all : ∀ (arguments : List TypeArgument) (levels : Nat),
    List.Forall₂ (Within levels (TypeArgument.decodeWith (IrType.decodeWithin levels)))
      (TypeArgument.encodeAll arguments) arguments
  | [], _ => .nil
  | a :: rest, levels => .cons (TypeArgument.within_levels a levels)
      (TypeArgument.within_all rest levels)

end

theorem IrType.within (hlevels : levels ≤ Decoder.maxDepth + 1) (t : IrType) :
    Within levels IrType.decode t.encode t :=
  (t.within_levels (Decoder.maxDepth + 1)).mono hlevels

theorem IrType.within_list (hlevels : levels ≤ Decoder.maxDepth + 1) (types : List IrType) :
    Within levels (Decoder.list IrType.decode) (IrType.encodeList types) types :=
  .weaken (.listOf (IrType.within hlevels) types)

/-! ## Expressions -/

theorem ConstValue.within (levels : Nat) : ∀ c : ConstValue, c.FloatFree →
    Within levels ConstValue.decode c.encode c
  | .int n, _ => .variant rfl (Within.int32 levels n)
  | .short n, _ => .variant rfl (Within.int16 levels n)
  | .byte n, _ => .variant rfl (Within.int8 levels n)
  | .long n, _ => .variant rfl (Within.int64 levels n)
  | .boolean b, _ => .variant rfl (Within.bool levels b)
  | .char c, _ => .variant rfl (Within.char levels c)
  | .string s, _ => .variant rfl (Within.string levels s)
  | .null, _ => .bare rfl

theorem StatementOrigin.within_option (levels : Nat) (o : Option StatementOrigin) :
    Within levels (Decoder.optionOf StatementOrigin.decode)
      (Value.optional StatementOrigin.encode o) o :=
  .optionOf (StatementOrigin.within levels) (fun o => by cases o <;> nofun) o

theorem Json.Within.assignment {name : String} {e : Expr} (id : DeclId) (hname : name ≠ "value")
    (h : Within levels (Expr.decodeWithin levels) e.encode e) :
    Within levels (IrFacts.assignment (Expr.decodeWithin levels) name)
      (.object [(name, id.encode), ("value", e.encode)]) (id, e) := by
  have hid := DeclId.within levels id
  refine .weaken (.record (by simp [hname]) (.refl _) ⟨hid.fits, h.fits, trivial⟩
    fun depth hdepth hle => ?_)
  have hother : ("value" == name) = false := beq_false_of_ne hname.symm
  simp [hid.required hdepth hle, h.required hdepth hle, List.lookup_cons, hother]

theorem Expr.encode_ne_null : ∀ e : Expr, e.encode ≠ .null
  | ⟨_, _, _⟩ => nofun

mutual

theorem Statement.within : ∀ s : Statement, s.FloatFree → ∀ levels ≤ Decoder.maxDepth + 1,
    Within levels (Statement.decodeWith (Expr.decodeWithin levels)) s.encode s
  | .expr e, h, levels, hlevels =>
    .variant rfl (Expr.within_levels e h levels hlevels)
  | .variable id, _, levels, _ => .variant rfl (id.within levels)
  | .declaration id, _, levels, _ => .variant rfl (id.within levels)

theorem Expr.within_levels : ∀ e : Expr, e.FloatFree → ∀ levels ≤ Decoder.maxDepth + 1,
    Within levels (Expr.decodeWithin levels) e.encode e
  | ⟨span, type, kind⟩, h, levels, hlevels => by
    have hstep (levels : Nat) (hlevels : levels ≤ Decoder.maxDepth + 1) :
        Within (levels + 1) (Expr.decodeWithin (levels + 1)) (Expr.encode ⟨span, type, kind⟩)
          ⟨span, type, kind⟩ := by
      have hspan := Span.within levels span
      have htype := type.within hlevels
      have hkind := ExprKind.within kind h levels hlevels
      refine .record (by simp) (.refl _) ⟨hspan.fits, htype.fits, hkind.fits, trivial⟩
        fun depth hdepth hle => ?_
      simp [hspan.optional hdepth hle, htype.required hdepth hle, hkind.required hdepth hle,
        List.lookup_cons]
    cases levels with
    | zero => exact (hstep 0 hlevels).weaken.zero _
    | succ levels => exact hstep levels (Nat.le_of_succ_le hlevels)

theorem Call.within : ∀ c : Call, c.FloatFree → ∀ levels ≤ Decoder.maxDepth + 1,
    Within levels (Call.decodeWith (Expr.decodeWithin levels)) c.encode c
  | ⟨callee, receiver, types, values, origin⟩, h, levels, hlevels => by
    have hcallee := DeclId.within levels callee
    have hreceiver := Expr.within_option receiver h.1 levels hlevels
    have htypes := IrType.within_list hlevels types
    have hvalues := (Within.list (Expr.within_options values h.2 levels hlevels)).weaken
    have horigin := StatementOrigin.within_option levels origin
    refine .weaken (.record (by simp) (.refl _) ⟨hcallee.fits, hreceiver.fits, htypes.fits,
      hvalues.fits, horigin.fits, trivial⟩ fun depth hdepth hle => ?_)
    simp [hcallee.required hdepth hle, hreceiver.optional hdepth hle, htypes.optional hdepth hle,
      hvalues.optional hdepth hle, horigin.optional hdepth hle, List.lookup_cons]

theorem Loop.within : ∀ l : Loop, l.FloatFree → ∀ levels ≤ Decoder.maxDepth + 1,
    Within levels (Loop.decodeWith (Expr.decodeWithin levels)) l.encode l
  | ⟨id, label, condition, body⟩, h, levels, hlevels => by
    have hid := LoopId.within levels id
    have hlabel := Within.stringOption levels label
    have hcondition := Expr.within_levels condition h.1 levels hlevels
    have hbody := Expr.within_option body h.2 levels hlevels
    refine .weaken (.record (by simp) (.refl _) ⟨hid.fits, hlabel.fits, hcondition.fits,
      hbody.fits, trivial⟩ fun depth hdepth hle => ?_)
    simp [hid.required hdepth hle, hlabel.optional hdepth hle, hcondition.required hdepth hle,
      hbody.optional hdepth hle, List.lookup_cons]

theorem Catch.within : ∀ c : Catch, c.FloatFree → ∀ levels ≤ Decoder.maxDepth + 1,
    Within levels (Catch.decodeWith (Expr.decodeWithin levels)) c.encode c
  | ⟨parameter, result⟩, h, levels, hlevels => by
    have hparameter := DeclId.within levels parameter
    have hresult := Expr.within_levels result h levels hlevels
    refine .weaken (.record (by simp) (.refl _) ⟨hparameter.fits, hresult.fits, trivial⟩
      fun depth hdepth hle => ?_)
    simp [hparameter.required hdepth hle, hresult.required hdepth hle, List.lookup_cons]

theorem Branch.within : ∀ b : Branch, b.FloatFree → ∀ levels ≤ Decoder.maxDepth + 1,
    Within levels (Branch.decodeWith (Expr.decodeWithin levels)) b.encode b
  | ⟨span, condition, result, isElse⟩, h, levels, hlevels => by
    have hspan := Span.within levels span
    have hcondition := Expr.within_levels condition h.1 levels hlevels
    have hresult := Expr.within_levels result h.2 levels hlevels
    have hisElse := Within.bool levels isElse
    refine .weaken (.record (by simp) (.refl _) ⟨hspan.fits, hcondition.fits, hresult.fits,
      hisElse.fits, trivial⟩ fun depth hdepth hle => ?_)
    simp [hspan.optional hdepth hle, hcondition.required hdepth hle, hresult.required hdepth hle,
      hisElse.optional hdepth hle, List.lookup_cons]

theorem VarargElement.within : ∀ v : VarargElement, v.FloatFree →
    ∀ levels ≤ Decoder.maxDepth + 1,
    Within levels (VarargElement.decodeWith (Expr.decodeWithin levels)) v.encode v
  | .expr e, h, levels, hlevels =>
    .variant rfl (Expr.within_levels e h levels hlevels)
  | .spread e, h, levels, hlevels =>
    .variant rfl (Expr.within_levels e h levels hlevels)

theorem ExprKind.within : ∀ k : ExprKind, k.FloatFree → ∀ levels ≤ Decoder.maxDepth + 1,
    Within levels (ExprKind.decodeWith (Expr.decodeWithin levels)) k.encode k
  | .delegatingConstructorCall call, h, levels, hlevels =>
    .variant rfl (Call.within call h levels hlevels)
  | .constructorCall call, h, levels, hlevels =>
    .variant rfl (Call.within call h levels hlevels)
  | .enumConstructorCall call, h, levels, hlevels =>
    .variant rfl (Call.within call h levels hlevels)
  | .call call, h, levels, hlevels =>
    .variant rfl (Call.within call h levels hlevels)
  | .instanceInitializerCall id, _, levels, _ =>
    .variant rfl (id.within levels).single
  | .throwExpr value, h, levels, hlevels =>
    .variant rfl (Expr.within_levels value h levels hlevels).single
  | .breakExpr jump, _, levels, _ => .variant rfl (jump.within levels)
  | .continueExpr jump, _, levels, _ => .variant rfl (jump.within levels)
  | .returnExpr value, h, levels, hlevels =>
    .variant rfl (Expr.within_levels value h levels hlevels).single
  | .tryExpr result catches finish, h, levels, hlevels => by
    have hresult := Expr.within_levels result h.1 levels hlevels
    have hcatches := (Within.list (Catch.within_all catches h.2.1 levels hlevels)).weaken
    have hfinish := Expr.within_option finish h.2.2 levels hlevels
    refine .weaken (.holding rfl (.weaken (.record (by simp) (.refl _) ⟨hresult.fits,
      hcatches.fits, hfinish.fits, trivial⟩ fun depth hdepth hle => ?_)))
    simp [hresult.required hdepth hle, hcatches.optional hdepth hle, hfinish.optional hdepth hle,
      List.lookup_cons]
  | .block statements, h, levels, hlevels =>
    have hstatements := (Within.list (Statement.within_all statements h levels hlevels)).weaken
    .variant rfl hstatements.single
  | .whileLoop loop, h, levels, hlevels =>
    .variant rfl (Loop.within loop h levels hlevels)
  | .doWhileLoop loop, h, levels, hlevels =>
    .variant rfl (Loop.within loop h levels hlevels)
  | .stringConcatenation arguments, h, levels, hlevels =>
    have harguments := (Within.list (Expr.within_all arguments h levels hlevels)).weaken
    .variant rfl harguments.single
  | .const value, h, levels, _ => .variant rfl (ConstValue.within levels value h)
  | .getValue id, _, levels, _ => .variant rfl (id.within levels).single
  | .getField id, _, levels, _ => .variant rfl (id.within levels).single
  | .getEnumValue id, _, levels, _ => .variant rfl (id.within levels).single
  | .setValue id value, h, levels, hlevels =>
    have hvalue := Expr.within_levels value h levels hlevels
    .weaken (.holding rfl ((Within.assignment id (by simp) hvalue).map _))
  | .setField id value, h, levels, hlevels =>
    have hvalue := Expr.within_levels value h levels hlevels
    .weaken (.holding rfl ((Within.assignment id (by simp) hvalue).map _))
  | .when origin branches, h, levels, hlevels => by
    have horigin := StatementOrigin.within_option levels origin
    have hbranches := (Within.list (Branch.within_all branches h levels hlevels)).weaken
    refine .weaken (.holding rfl (.weaken (.record (by simp) (.refl _) ⟨horigin.fits,
      hbranches.fits, trivial⟩ fun depth hdepth hle => ?_)))
    simp [horigin.optional hdepth hle, hbranches.required hdepth hle, List.lookup_cons]
  | .getClass argument, h, levels, hlevels =>
    .variant rfl (Expr.within_levels argument h levels hlevels).single
  | .typeOperator operator operand argument, h, levels, hlevels => by
    have hoperator := TypeOperator.within levels operator
    have hoperand := operand.within hlevels
    have hargument := Expr.within_levels argument h levels hlevels
    refine .weaken (.holding rfl (.weaken (.record (by simp) (.refl _) ⟨hoperator.fits,
      hoperand.fits, hargument.fits, trivial⟩ fun depth hdepth hle => ?_)))
    simp [hoperator.required hdepth hle, hoperand.required hdepth hle,
      hargument.required hdepth hle, List.lookup_cons]
  | .vararg elements, h, levels, hlevels =>
    have helements := (Within.list (VarargElement.within_all elements h levels hlevels)).weaken
    .variant rfl helements.single
  | .getObjectValue id, _, levels, _ => .variant rfl (id.within levels).single
  | .unsupported description, _, levels, _ =>
    .variant rfl (Within.string levels description).single

theorem Expr.within_option : ∀ e : Option Expr, Expr.FloatFreeOption e →
    ∀ levels ≤ Decoder.maxDepth + 1,
    Within levels (Decoder.optionOf (Expr.decodeWithin levels)) (Expr.encodeOption e) e
  | none, _, _, _ => .absent
  | some e, h, levels, hlevels => .present (Expr.within_levels e h levels hlevels) e.encode_ne_null

theorem Expr.within_options : ∀ es : List (Option Expr), Expr.FloatFreeOptions es →
    ∀ levels ≤ Decoder.maxDepth + 1,
    List.Forall₂ (Within levels (Decoder.optionOf (Expr.decodeWithin levels)))
      (Expr.encodeOptions es) es
  | [], _, _, _ => .nil
  | e :: rest, h, levels, hlevels => .cons (Expr.within_option e h.1 levels hlevels)
      (Expr.within_options rest h.2 levels hlevels)

theorem Expr.within_all : ∀ es : List Expr, Expr.FloatFreeAll es →
    ∀ levels ≤ Decoder.maxDepth + 1,
    List.Forall₂ (Within levels (Expr.decodeWithin levels)) (Expr.encodeAll es) es
  | [], _, _, _ => .nil
  | e :: rest, h, levels, hlevels => .cons (Expr.within_levels e h.1 levels hlevels)
      (Expr.within_all rest h.2 levels hlevels)

theorem Statement.within_all : ∀ ss : List Statement, Statement.FloatFreeAll ss →
    ∀ levels ≤ Decoder.maxDepth + 1,
    List.Forall₂ (Within levels (Statement.decodeWith (Expr.decodeWithin levels)))
      (Statement.encodeAll ss) ss
  | [], _, _, _ => .nil
  | s :: rest, h, levels, hlevels => .cons (Statement.within s h.1 levels hlevels)
      (Statement.within_all rest h.2 levels hlevels)

theorem Catch.within_all : ∀ cs : List Catch, Catch.FloatFreeAll cs →
    ∀ levels ≤ Decoder.maxDepth + 1,
    List.Forall₂ (Within levels (Catch.decodeWith (Expr.decodeWithin levels)))
      (Catch.encodeAll cs) cs
  | [], _, _, _ => .nil
  | c :: rest, h, levels, hlevels => .cons (Catch.within c h.1 levels hlevels)
      (Catch.within_all rest h.2 levels hlevels)

theorem Branch.within_all : ∀ bs : List Branch, Branch.FloatFreeAll bs →
    ∀ levels ≤ Decoder.maxDepth + 1,
    List.Forall₂ (Within levels (Branch.decodeWith (Expr.decodeWithin levels)))
      (Branch.encodeAll bs) bs
  | [], _, _, _ => .nil
  | b :: rest, h, levels, hlevels => .cons (Branch.within b h.1 levels hlevels)
      (Branch.within_all rest h.2 levels hlevels)

theorem VarargElement.within_all : ∀ vs : List VarargElement, VarargElement.FloatFreeAll vs →
    ∀ levels ≤ Decoder.maxDepth + 1,
    List.Forall₂ (Within levels (VarargElement.decodeWith (Expr.decodeWithin levels)))
      (VarargElement.encodeAll vs) vs
  | [], _, _, _ => .nil
  | v :: rest, h, levels, hlevels => .cons (VarargElement.within v h.1 levels hlevels)
      (VarargElement.within_all rest h.2 levels hlevels)

end

/-! ## Declarations -/

section
variable (hlevels : levels ≤ Decoder.maxDepth + 1)
include hlevels

theorem Expr.within_initializer {e : Option Expr} (h : Expr.FloatFreeOption e) :
    Within levels (Decoder.optionOf Expr.decode) (Expr.encodeOption e) e :=
  (Expr.within_option e h (Decoder.maxDepth + 1) (Nat.le_refl _)).mono hlevels

theorem Statement.within_list {statements : List Statement}
    (h : Statement.FloatFreeAll statements) :
    Within levels (Decoder.list Statement.decode) (.array (Statement.encodeAll statements))
      statements :=
  (Within.list (Statement.within_all statements h (Decoder.maxDepth + 1) (Nat.le_refl _))).mono
    (Nat.le_succ_of_le hlevels)

end

theorem DeclParent.within (levels : Nat) :
    ∀ p : DeclParent, Within levels DeclParent.decode p.encode p
  | .file id => .variant rfl (id.within levels)
  | .decl id => .variant rfl (id.within levels)
  | .package name => .variant rfl (Within.string levels name)

theorem DeclOrigin.within (levels : Nat) (o : DeclOrigin) :
    Within levels DeclOrigin.decode o.encode o := by
  cases o <;> exact .bare rfl

theorem ClassKind.within (levels : Nat) (k : ClassKind) :
    Within levels ClassKind.decode k.encode k := by
  cases k <;> exact .bare rfl

theorem Modality.within (levels : Nat) (m : Modality) :
    Within levels Modality.decode m.encode m := by
  cases m <;> exact .bare rfl

section
variable (hlevels : levels ≤ Decoder.maxDepth + 1)
include hlevels

theorem ClassDecl.within (c : ClassDecl) : Within levels ClassDecl.decode c.encode c := by
  have hname := Within.string levels c.name
  have hkind := ClassKind.within levels c.kind
  have hmodality := Modality.within levels c.modality
  have hisCompanion := Within.bool levels c.isCompanion
  have htypeParameters := DeclId.within_list levels c.typeParameters
  have hsuperTypes := IrType.within_list hlevels c.superTypes
  have hmembers := DeclId.within_list levels c.members
  have hthisReceiver := DeclId.within_option levels c.thisReceiver
  have hbinaryPath := Within.stringOption levels c.binaryPath
  refine .weaken (.record (by simp) (.refl _) ⟨hname.fits, hkind.fits, hmodality.fits,
    hisCompanion.fits, htypeParameters.fits, hsuperTypes.fits, hmembers.fits, hthisReceiver.fits,
    hbinaryPath.fits, trivial⟩ fun depth hdepth hle => ?_)
  simp [hname.required hdepth hle, hkind.optional hdepth hle, hmodality.optional hdepth hle,
    hisCompanion.optional hdepth hle, htypeParameters.optional hdepth hle,
    hsuperTypes.optional hdepth hle, hmembers.optional hdepth hle,
    hthisReceiver.optional hdepth hle, hbinaryPath.optional hdepth hle, List.lookup_cons]

theorem Body.within (b : Body) (h : Statement.FloatFreeAll b.statements) :
    Within levels Body.decode b.encode b := by
  have hspan := Span.within levels b.span
  have hstatements := Statement.within_list hlevels h
  refine .weaken (.record (by simp) (.refl _) ⟨hspan.fits, hstatements.fits, trivial⟩
    fun depth hdepth hle => ?_)
  simp [hspan.optional hdepth hle, hstatements.required hdepth hle, List.lookup_cons]

theorem FunctionDecl.within (f : FunctionDecl) (h : (DeclKind.function f).FloatFree) :
    Within levels FunctionDecl.decode f.encode f := by
  have hname := Within.string levels f.name
  have hisConstructor := Within.bool levels f.isConstructor
  have hisPrimary := Within.bool levels f.isPrimary
  have htypeParameters := DeclId.within_list levels f.typeParameters
  have hvalueParameters := DeclId.within_list levels f.valueParameters
  have hdispatch := DeclId.within_option levels f.dispatchReceiver
  have hextension := DeclId.within_option levels f.extensionReceiver
  have hreturnType := f.returnType.within hlevels
  have hbody : Within levels (Decoder.optionOf Body.decode) (Value.optional Body.encode f.body)
      f.body := by
    cases hbody : f.body with
    | none => exact .absent
    | some body => exact .present (body.within hlevels (h body hbody)) nofun
  refine .weaken (.record (by simp) (.refl _) ⟨hname.fits, hisConstructor.fits, hisPrimary.fits,
    htypeParameters.fits, hvalueParameters.fits, hdispatch.fits, hextension.fits,
    hreturnType.fits, hbody.fits, trivial⟩ fun depth hdepth hle => ?_)
  simp [hname.required hdepth hle, hisConstructor.optional hdepth hle,
    hisPrimary.optional hdepth hle, htypeParameters.optional hdepth hle,
    hvalueParameters.optional hdepth hle, hdispatch.optional hdepth hle,
    hextension.optional hdepth hle, hreturnType.required hdepth hle, hbody.optional hdepth hle,
    List.lookup_cons]

omit hlevels in
theorem PropertyDecl.within (levels : Nat) (p : PropertyDecl) :
    Within levels PropertyDecl.decode p.encode p := by
  have hname := Within.string levels p.name
  have hisVar := Within.bool levels p.isVar
  have hmodality := Modality.within levels p.modality
  have hgetter := DeclId.within_option levels p.getter
  have hsetter := DeclId.within_option levels p.setter
  have hbackingField := DeclId.within_option levels p.backingField
  refine .weaken (.record (by simp) (.refl _) ⟨hname.fits, hisVar.fits, hmodality.fits,
    hgetter.fits, hsetter.fits, hbackingField.fits, trivial⟩ fun depth hdepth hle => ?_)
  simp [hname.required hdepth hle, hisVar.optional hdepth hle, hmodality.optional hdepth hle,
    hgetter.optional hdepth hle, hsetter.optional hdepth hle,
    hbackingField.optional hdepth hle, List.lookup_cons]

theorem FieldDecl.within (f : FieldDecl) (h : (DeclKind.field f).FloatFree) :
    Within levels FieldDecl.decode f.encode f := by
  have hname := Within.string levels f.name
  have htype := f.type.within hlevels
  have hisStatic := Within.bool levels f.isStatic
  have hinitializer := Expr.within_initializer hlevels h
  refine .weaken (.record (by simp) (.refl _) ⟨hname.fits, htype.fits, hisStatic.fits,
    hinitializer.fits, trivial⟩ fun depth hdepth hle => ?_)
  simp [hname.required hdepth hle, htype.required hdepth hle, hisStatic.optional hdepth hle,
    hinitializer.optional hdepth hle, List.lookup_cons]

theorem TypeAliasDecl.within (a : TypeAliasDecl) :
    Within levels TypeAliasDecl.decode a.encode a := by
  have hname := Within.string levels a.name
  have htypeParameters := DeclId.within_list levels a.typeParameters
  have hexpandedType := a.expandedType.within hlevels
  refine .weaken (.record (by simp) (.refl _) ⟨hname.fits, htypeParameters.fits,
    hexpandedType.fits, trivial⟩ fun depth hdepth hle => ?_)
  simp [hname.required hdepth hle, htypeParameters.optional hdepth hle,
    hexpandedType.required hdepth hle, List.lookup_cons]

theorem InitializerDecl.within (i : InitializerDecl) (h : (DeclKind.initializer i).FloatFree) :
    Within levels InitializerDecl.decode i.encode i := by
  have hisStatic := Within.bool levels i.isStatic
  have hstatements := Statement.within_list hlevels h
  refine .weaken (.record (by simp) (.refl _) ⟨hisStatic.fits, hstatements.fits, trivial⟩
    fun depth hdepth hle => ?_)
  simp [hisStatic.optional hdepth hle, hstatements.required hdepth hle, List.lookup_cons]

theorem TypeParameterDecl.within (p : TypeParameterDecl) :
    Within levels TypeParameterDecl.decode p.encode p := by
  have hname := Within.string levels p.name
  have hindex := Within.uint64 levels p.index
  have hsuperTypes := IrType.within_list hlevels p.superTypes
  refine .weaken (.record (by simp) (.refl _) ⟨hname.fits, hindex.fits, hsuperTypes.fits,
    trivial⟩ fun depth hdepth hle => ?_)
  simp [hname.required hdepth hle, hindex.required hdepth hle, hsuperTypes.optional hdepth hle,
    List.lookup_cons]

theorem ValueParameterDecl.within (p : ValueParameterDecl) :
    Within levels ValueParameterDecl.decode p.encode p := by
  have hname := Within.string levels p.name
  have hindex := Within.int32 levels p.index
  have htype := p.type.within hlevels
  refine .weaken (.record (by simp) (.refl _) ⟨hname.fits, hindex.fits, htype.fits, trivial⟩
    fun depth hdepth hle => ?_)
  simp [hname.required hdepth hle, hindex.required hdepth hle, htype.required hdepth hle,
    List.lookup_cons]

theorem VariableDecl.within (v : VariableDecl) (h : (DeclKind.variable v).FloatFree) :
    Within levels VariableDecl.decode v.encode v := by
  have hname := Within.string levels v.name
  have htype := v.type.within hlevels
  have hinitializer := Expr.within_initializer hlevels h
  refine .weaken (.record (by simp) (.refl _) ⟨hname.fits, htype.fits, hinitializer.fits,
    trivial⟩ fun depth hdepth hle => ?_)
  simp [hname.required hdepth hle, htype.required hdepth hle, hinitializer.optional hdepth hle,
    List.lookup_cons]

theorem DeclKind.within : ∀ k : DeclKind, k.FloatFree → Within levels DeclKind.decode k.encode k
  | .class c, _ => .variant rfl (c.within hlevels)
  | .function f, h => .variant rfl (f.within hlevels h)
  | .property p, _ => .variant rfl (p.within levels)
  | .field f, h => .variant rfl (f.within hlevels h)
  | .enumEntry name, _ => .variant rfl (Within.string levels name).single
  | .typeAlias a, _ => .variant rfl (a.within hlevels)
  | .initializer i, h => .variant rfl (i.within hlevels h)
  | .typeParameter p, _ => .variant rfl (p.within hlevels)
  | .valueParameter p, _ => .variant rfl (p.within hlevels)
  | .variable v, h => .variant rfl (v.within hlevels h)

theorem Declaration.within (d : Declaration) (h : d.FloatFree) :
    Within levels Declaration.decode d.encode d := by
  have hparent := DeclParent.within levels d.parent
  have horigin := DeclOrigin.within levels d.origin
  have hspan := Span.within levels d.span
  have hkind := d.kind.within hlevels h
  refine .weaken (.record (by simp) (.refl _) ⟨hparent.fits, horigin.fits, hspan.fits,
    hkind.fits, trivial⟩ fun depth hdepth hle => ?_)
  simp [hparent.required hdepth hle, horigin.optional hdepth hle, hspan.optional hdepth hle,
    hkind.required hdepth hle, List.lookup_cons]

end

/-! ## Whole texts -/

/-- Of the values that are `Sound` and written with no more brackets than a text may open at
once, each is decoded from its text, and no two have the same text. -/
structure RoundTrips {α : Type} (decode : Decoder α) (encode : α → Value) (Sound : α → Prop) :
    Prop where
  decodeText_encode : ∀ a, Sound a → (encode a).depth ≤ Decoder.maxDepth →
    decodeText decode (encode a).render = .ok a
  encode_injective : ∀ a b, Sound a → Sound b → (encode a).depth ≤ Decoder.maxDepth →
    (encode b).depth ≤ Decoder.maxDepth → (encode a).render = (encode b).render → a = b

theorem RoundTrips.of_within {α : Type} {decode : Decoder α} {encode : α → Value}
    {Sound : α → Prop}
    (h : ∀ a, Sound a → Within (Decoder.maxDepth + 1) decode (encode a) a) :
    RoundTrips decode encode Sound := by
  have hdecode (a : α) (ha : Sound a) (hdepth : (encode a).depth ≤ Decoder.maxDepth) :
      decodeText decode (encode a).render = .ok a := by
    have hnode := (h a ha).decode Decoder.maxDepth (Nat.lt_succ_self _) hdepth
    rw [decodeText, parse_render (h a ha).fits, hnode]
    rfl
  refine ⟨hdecode, fun a b ha hb hdeptha hdepthb htexts => ?_⟩
  have hsame := hdecode b hb hdepthb
  rw [← htexts, hdecode a ha hdeptha] at hsame
  exact Except.ok.inj hsame

/-- Declarations, expressions and types without floating-point constants come back from their
texts. -/
theorem encode_roundTrips :
    RoundTrips Declaration.decode Declaration.encode Declaration.FloatFree ∧
    RoundTrips Expr.decode Expr.encode Expr.FloatFree ∧
    RoundTrips IrType.decode IrType.encode fun _ => True :=
  ⟨.of_within fun d h => d.within (Nat.le_refl _) h,
    .of_within fun e h => e.within_levels h (Decoder.maxDepth + 1) (Nat.le_refl _),
    .of_within fun t _ => t.within (Nat.le_refl _)⟩

/-- A variable whose names and text need escapes. -/
def escapedVariable : Declaration :=
  { parent := .package "a\"b\\c"
    kind := .variable
      { name := "é\u0001\n"
        type := IrType.ofClass ⟨3⟩ [.projection .covariant (.error "?"), .star]
        initializer := some ⟨.undefined, .error "", .const (.string "\t/")⟩ } }

theorem encode_roundTrips_escaped :
    decodeText Declaration.decode escapedVariable.encode.render = .ok escapedVariable :=
  encode_roundTrips.1.decodeText_encode _ trivial (by decide)

end IrFacts
