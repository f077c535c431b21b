import IrFacts.Proofs.Types.ArrayLabels
import IrFacts.Proofs.Types.InstanceFacts
import IrFacts.Proofs.Types.Returns

/-!
# The facts of arrays

The fact of an array is written when its label is made, for the type that asked for it
first. Types that share the label agree on the levels and on the element, and on what
the first level holds as well, as long as `kotlin.Array` is not without an argument where
it stands for a level.
-/

set_option autoImplicit false

namespace IrFacts

open Extract Event

/-! ## The account -/

/-- Every array that gets its label between the events is told of, with what its first level
holds. -/
def Event.ArraysTold (p : Program) (s : Session) (es : List Event) : Prop :=
  ∀ levels n l, s.table.find? (arrayKey levels (.number n)) = none →
    (run es s).table.find? (arrayKey levels (.number n)) = some l →
    ∃ name component, .fact (.arrays l name (.number n) levels component) ∈ linesOf es s ∧
      IsComponent p (run es s).table levels (.number n) component

def IsArrayKey (key : String) : Prop := ∃ levels element, key = arrayKey levels element

theorem not_isArrayKey_class (text : String) : ¬IsArrayKey ("class;" ++ text) := by
  rintro ⟨levels, element, hkey⟩
  rw [arrayKey, String.append_assoc, String.append_assoc] at hkey
  exact absurd (start_inj (by decide) (by decide) hkey).1 (by decide)

namespace Event

variable {p : Program} {s : Session} {es fs : List Event}

theorem ArraysTold.append (h : ArraysTold p s es) (k : ArraysTold p (run es s) fs) :
    ArraysTold p s (es ++ fs) := by
  intro levels n l hnone hbound
  rw [run_append] at hbound ⊢
  rw [linesOf_append]
  cases hmiddle : (run es s).table.find? (arrayKey levels (.number n)) with
  | none =>
    obtain ⟨name, component, hfact, hcomponent⟩ := k levels n l hmiddle hbound
    exact ⟨name, component, List.mem_append_right _ hfact, hcomponent⟩
  | some m =>
    obtain rfl : m = l := Option.some.inj ((run_find? fs hmiddle).symm.trans hbound)
    obtain ⟨name, component, hfact, hcomponent⟩ := h levels n m hnone hmiddle
    exact ⟨name, component, List.mem_append_left _ hfact, hcomponent.mono (run_table_le fs _)⟩

theorem arraysTold_silent (h : ∀ key, IsArrayKey key →
    (run es s).table.find? key = s.table.find? key) : ArraysTold p s es := by
  intro levels n l hnone hbound
  rw [h _ ⟨levels, .number n, rfl⟩, hnone] at hbound
  cases hbound

theorem arraysTold_fact (f : Trap.Fact) : ArraysTold p s [.fact f] :=
  arraysTold_silent fun _ _ => by rw [run, run, step_table]; rfl

theorem arraysTold_introduce {levels n : Nat} {name : String} {component : Label}
    (hnew : s.table.find? (arrayKey levels (.number n)) = none)
    (hcomponent : IsComponent p s.table levels (.number n) component) :
    ArraysTold p s [.lookup (arrayKey levels (.number n)) none,
      .fact (.arrays (.number s.table.next) name (.number n) levels component)] := by
  have hfind (key : String) : (run [.lookup (arrayKey levels (.number n)) none,
      .fact (.arrays (.number s.table.next) name (.number n) levels component)] s).table.find? key =
      if key = arrayKey levels (.number n) then some (.number s.table.next)
      else s.table.find? key := by
    rw [run, run, run, step_table (.fact _)]
    exact Session.find?_step_lookup hnew
  intro levels' m l hnone hbound
  rw [hfind] at hbound
  split at hbound
  · next hkey =>
    obtain ⟨rfl, hn⟩ := arrayKey_inj ⟨m, rfl⟩ ⟨n, rfl⟩ hkey
    cases hn
    cases hbound
    refine ⟨name, component, ?_, hcomponent.mono (run_table_le _ s)⟩
    simp [linesOf, lines, hnew]
  · cases hnone.symm.trans hbound

end Event

def Account.arrays (p : Program) : Account p where
  kept := IsArrayKey
  hidden _ := False
  grave _ := False
  Holds s es _ := ArraysTold p s es
  hidden_kept _ := False.elim
  kept_start := by
    rintro _ ⟨levels, element, rfl⟩
    exact .inr (arrayKey_start levels element)
  kept_end := by
    rintro _ ⟨levels, element, rfl⟩
    rw [arrayKey, Label.braced, ← String.append_assoc, ← String.append_assoc, String.toList_append]
    exact List.getLast?_concat
  kept_class id := not_isArrayKey_class _
  kept_file _ _ _ := not_isArrayKey_class _
  grave_missing := missing_of_none
  nil _ := arraysTold_silent fun _ _ => rfl
  append := ArraysTold.append
  fact _ _ := arraysTold_fact _
  lookup hkey := arraysTold_silent fun other hother => by
    rw [run, run, step_table]
    exact LabelTable.find?_lookup_of_ne _ fun he => hkey (he ▸ hother)
  report _ := arraysTold_silent fun _ _ => by rw [run, run, step_table]; rfl
  other {s e} _ hlookup _ := arraysTold_silent fun _ _ => by
    rw [run, run, step_table]
    cases e with
    | lookup key asker => exact absurd rfl (hlookup key asker)
    | _ => rfl
  row _ := arraysTold_fact _
  reach _ _ := arraysTold_silent fun _ _ => rfl
  mention _ _ _ := arraysTold_silent fun _ _ => rfl
  borrow _ _ := arraysTold_silent fun _ _ => rfl

namespace Account

variable {p : Program} {s t : Session} {fuel : Nat} {array : SimpleType}

theorem passes_arrayDefinition (hπ : (arrays p).Keeps (.whole p) (projection fuel))
    (harray : p.isArray array = true) {name : String} {levels n : Nat} {component : Label}
    (hs : s.Tidy fun _ => False)
    (hnew : s.table.find? (arrayKey levels (.number n)) = none)
    (hcomponent : IsComponent p s.table levels (.number n) component)
    (h : Ends p ((Event.lookup (arrayKey levels (.number n)) none).step s)
      ((projection fuel).extractArray array name levels (.number n) component
        (.number s.table.next)) () t) : (arrays p).Passes s [] t := by
  have hlabel : (arrays p).Told (.number s.table.next)
      ((Event.lookup (arrayKey levels (.number n)) none).step s) := by
    intro m hm
    cases hm
    refine ⟨?_, fun _ => False.elim⟩
    rw [step_table, onTable, LabelTable.next_lookup_of_none hnew]
    exact Nat.lt_succ_self _
  have hbound : ((Event.lookup (arrayKey levels (.number n)) none).step s).Tidy fun _ => False :=
    hs.step (by rintro _ ⟨⟩) (by rintro _ _ ⟨⟩)
  have htidy : ((Event.fact (.arrays (.number s.table.next) name (.number n) levels component)).step
      ((Event.lookup (arrayKey levels (.number n)) none).step s)).Tidy fun _ => False :=
    hbound.step (by rintro _ ⟨⟩) (by rintro _ _ ⟨⟩)
  have hrest := passes_extractArray hπ (fun _ => arraysTold_fact _) trivial harray htidy
    (hlabel.run [_]) h
  obtain ⟨⟨es, ms, hrun, hms, hes⟩, htidy, hfunction⟩ := hrest
  exact ⟨⟨.lookup _ none :: .fact _ :: es, ms, hrun, hms,
    (arraysTold_introduce hnew hcomponent).append hes⟩, htidy, hfunction⟩

/-- The component and the element have their labels before the array gets its own. -/
theorem quiet_arrays_arrayType (hπ : (arrays p).Keeps (.whole p) (projection fuel))
    (harray : p.isArray array = true) :
    (arrays p).Quiet s ((projection fuel).arrayType array) Any := by
  intro hs v t h
  obtain ⟨component, s₁, hcomponent, h⟩ := ends_bind.mp (ends_read_bind.mp h)
  obtain ⟨element, s₂, helement, h⟩ := ends_bind.mp h
  obtain ⟨label, s₃, hlabel, hrich⟩ := ends_bind.mp h
  have h₁ := (quiet_hostLabel hπ trivial hs _ _ hcomponent).1
  have h₂ := h₁.trans (quiet_hostLabel hπ trivial h₁.tidy _ _ helement).1
  obtain ⟨n, rfl⟩ := (HostLabelled.of_hostLabel helement).number h₂.tidy.faithful
  have hparts := isComponent_of_ends harray hcomponent helement
  have h₃ : (arrays p).Passes s₂ [] s₃ := by
    rcases (ends_labelWith none).mp hlabel with ⟨-, rfl⟩ | ⟨hnew, rfl, hdefine⟩
    · exact .refl h₂.tidy
    · exact passes_arrayDefinition hπ harray h₂.tidy hnew hparts hdefine
  have hbefore := h₂.trans h₃
  refine ⟨hbefore.after ?_, trivial⟩
  dsimp only at hrich
  split at hrich
  · obtain ⟨rich, _, hclass, hpure⟩ := ends_bind.mp hrich
    obtain ⟨-, rfl⟩ := ends_pure.mp hpure
    exact (quiet_classType hπ _ trivial hbefore.tidy _ _ hclass).1
  · obtain ⟨-, rfl⟩ := ends_pure.mp hrich
    exact .refl hbefore.tidy

theorem copes_arrays (p : Program) : (arrays p).Copes (.whole p) where
  classInstance hπ _ _ h s := by
    refine quiet_classInstanceStep hπ (fun _ => not_isArrayKey_class _) (fun _ => ?_) h
    exact arraysTold_fact _
  array hπ _ _ harray _ := quiet_arrays_arrayType hπ harray
  typeParameter hπ id _ s := quiet_typeParameterUse hπ (fun _ => nofun) id

end Account

/-! ## A whole run -/

/-- What the lines of a trap tell of an array: one fact with its levels, its element and what
its first level holds. -/
structure Program.ArrayTold (p : Program) (t : LabelTable) (lines : List Trap.Line) (levels : Nat)
    (element label : Label) : Prop where
  key : t.find? (arrayKey levels element) = some label
  once : lines.countP (·.tells "arrays" label) = 1
  fact : ∃ name component, .fact (.arrays label name element levels component) ∈ lines ∧
    IsComponent p t levels element component

namespace Request

variable {p : Program} {s s' : Session} {α : Type}

def amid (w : Walk) (before : List Request) (m : Extract α) (after : List Request) :
    Extract α := do
  run w before
  let a ← m
  run w after
  return a

theorem plain_amid (typeFuel walkFuel : Nat) (before : List Request) {m : Extract α}
    (hm : Plain p m) (after : List Request) :
    Plain p (amid (walk (projection typeFuel) walkFuel) before m after) :=
  scripted_bind (plain_run typeFuel walkFuel before) fun _ => scripted_bind hm fun _ =>
    scripted_bind (plain_run typeFuel walkFuel after) fun _ => .pure _

theorem walks_amid {a : Account p} (ha : a.Copes (.whole p))
    (hdeclare : ∀ s id, a.Holds s [] [.declare id]) (hgrave : ∀ problem, ¬a.grave problem)
    (typeFuel walkFuel : Nat) (before : List Request) {m : Extract α}
    (hm : ∀ s, a.Quiet s m Account.Any) (after : List Request) (s : Session) :
    ∃ items, a.Walks s (amid (walk (projection typeFuel) walkFuel) before m after) items
      Account.Any := by
  have hfollows := (Account.keeps_projection ha typeFuel).follows hdeclare
  have hwalk := Account.treads_walk hfollows walkFuel
  let c : Context := ⟨s.currentFunction.isSome, []⟩
  obtain ⟨items, hitems⟩ := Account.exists_walks_run hwalk hgrave c before
  obtain ⟨others, hothers⟩ := Account.exists_walks_run hwalk hgrave c after
  refine ⟨items ++ others, Account.walks_bind (hitems s rfl) fun _ t hst _ => ?_⟩
  refine Account.quiet_bind (hm t) fun _ u htu _ => ?_
  exact Account.bind_quiet (hothers u (htu.suits (hst.suits rfl))) fun _ _ _ _ =>
    Account.quiet_pure trivial

section Arrays

variable {path : String} {lines : Option LineTable} {sink : Trap.Sink} {typeFuel walkFuel : Nat}
  {before after : List Request} {fuel : Nat} {primitives : Bool} {array : SimpleType}
  {v : TypeViews}

theorem arrayTold_of_amid (hsink : sink.NeverRefuses) (hnew : sink.taken = [])
    (hs : s.file = .ofPath (.ofSink sink) path lines) (hlocals : s.locals = [])
    (harray : p.isArray array = true)
    (h : Ends p s (amid (walk (projection typeFuel) walkFuel) before
      ((projection fuel).type primitives (.simple array)) after) v s') :
    s'.table.Faithful ∧ ∃ element, HostLabelled p s'.table (coreElement p array) element ∧
      p.ArrayTold s'.table s'.file.writer.sink.lines (p.arrayCore (.simple array)).levels element
        v.host.label := by
  let a := Account.arrays p
  have hkeeps := Account.keeps_projection (Account.copes_arrays p) fuel
  obtain ⟨start, hwriter, -, hstart⟩ :=
    a.passes_ofPath LabelTable.faithful_empty hs hlocals
  obtain ⟨items, hitems⟩ := walks_amid (Account.copes_arrays p)
    (fun s _ => arraysTold_silent fun _ _ => rfl) (fun _ => nofun) typeFuel walkFuel before
    (fun s => hkeeps.type trivial primitives s) after s
  have hend := hstart.trans (hitems hstart.tidy v s' h).1
  have hfaithful := hend.tidy.faithful
  have honce := introducedOnce_of_plain hsink hnew hs
    (plain_amid typeFuel walkFuel before ((stable_projection p fuel).asksType primitives _).plain
      after) h
  -- The label has been bound where the array was asked for.
  obtain ⟨_, s₁, -, h⟩ := ends_bind.mp h
  obtain ⟨w, s₂, harrayType, h⟩ := ends_bind.mp h
  obtain ⟨_, s₃, hafter, h⟩ := ends_bind.mp h
  obtain ⟨rfl, rfl⟩ := ends_pure.mp h
  have hle := (grows_run typeFuel walkFuel after _ _ _ hafter).table
  obtain ⟨element, helement, hkey⟩ := bound_of_array harray harrayType
  have hkey := hle _ _ hkey
  obtain ⟨n, rfl⟩ := (helement.mono hle).number hfaithful
  refine ⟨hfaithful, .number n, helement.mono hle, hkey, ?_, ?_⟩
  · refine honce.once _ _ "arrays" hkey ?_ ?_
    · rw [arrayKey, String.append_assoc, String.append_assoc]
      exact Trap.introducedBy?_append ("array;", "arrays") (by simp [Trap.introductions]) _
    · rintro ⟨text, -, hfile⟩
      exact a.not_kept_fileKey _ hfile ⟨_, _, rfl⟩
  · obtain ⟨⟨es, ms, hrun, -, htold⟩, -⟩ := hend
    have hwrote := run_wrote es start
    rw [hrun] at hwrote
    rw [(hwrote.lines (hwriter ▸ hsink) (hwriter ▸ rfl) (hwriter ▸ hnew)).1]
    have hempty : start.table = .empty := by rw [Session.table, hwriter]; rfl
    have hall := htold (p.arrayCore (.simple array)).levels n v.host.label
    rw [hrun, hempty] at hall
    exact hall rfl hkey

theorem exists_views {d : Document} (hd : Program.ofDocument d = .ok p) (hn : p.Numbered)
    (hnest : p.FunctionsNest) (hlines : HasLines p) (s : Session) (primitives : Bool)
    (type : SimpleType) : ∃ v s' least, ∀ fuel ≥ least,
      Ends p s ((projection fuel).type primitives (.simple type)) v s' := by
  have hplain := Program.builtinsPlain_of_index (Program.indexNames_ofDocument hd hn)
  have hsetting : Setting p (p.family (.simple type)) :=
    ⟨hlines, hnest, hplain, Program.family_family hplain _⟩
  have hanswers := familyAnswers hsetting s type (Program.parts_mem_family type.self_mem_parts)
  obtain ⟨v, s', hends, -⟩ := (hanswers.type primitives).here
  exact ⟨v, s', hends⟩

/-- An array is projected with the label of its levels and its element. Whatever else is asked
before and after, the one fact of that label has these levels and this element, and what it has
for the first level is the element or the array of one level less. -/
theorem arrayTold_of_levels (hsink : sink.NeverRefuses) (hnew : sink.taken = [])
    (hs : s.file = .ofPath (.ofSink sink) path lines) (hlocals : s.locals = [])
    {levels : Nat} {isPrimitive : Bool} {element : IrType}
    (hlevels : p.Levels (.simple array) levels isPrimitive element) (hpos : 0 < levels) :
    (∀ d, Program.ofDocument d = .ok p → p.Numbered → p.FunctionsNest → HasLines p →
      ∀ (t : Session) (primitives : Bool), ∃ v t' least, ∀ fuel ≥ least,
        Ends p t ((projection fuel).type primitives (.simple array)) v t') ∧
    ∀ typeFuel walkFuel before after fuel primitives v s',
      Ends p s (amid (walk (projection typeFuel) walkFuel) before
        ((projection fuel).type primitives (.simple array)) after) v s' →
      ∃ l, HostLabelled p s'.table (Projection.boxed p isPrimitive element) l ∧
        p.ArrayTold s'.table s'.file.writer.sink.lines levels l v.host.label := by
  refine ⟨fun d hd hn hnest hlines t primitives =>
    exists_views hd hn hnest hlines t primitives array, ?_⟩
  intro typeFuel walkFuel before after fuel primitives v s' h
  obtain ⟨-, l, hl, htold⟩ := arrayTold_of_amid hsink hnew hs hlocals (hlevels.isArray hpos) h
  rw [coreElement, hlevels.arrayCore_eq] at hl
  rw [hlevels.arrayCore_eq] at htold
  exact ⟨l, hl, htold⟩

theorem levels_box : shelf.Levels (.ofClass ⟨0⟩ []) 0 false (.ofClass ⟨0⟩ []) := by
  refine .none ?_
  rintro _ ⟨⟩
  decide

/-- Two shelves of boxes, where one shelf has been asked for before. -/
theorem arrayTold_of_levels_shelf : ∃ v s',
    let boxes : SimpleType := { classifier := .ofClass ⟨1⟩
                                arguments := [.projection .covariant (.ofClass ⟨0⟩ [])] }
    let shelves : SimpleType := { classifier := .ofClass ⟨1⟩
                                  arguments := [.projection .invariant (.simple boxes)] }
    Ends shelf { file := .source (.ofSink .unbounded) "a.kt" .single, counter := {}, queue := {} }
      (amid (walk (projection 9) 9) [.operation (.refer (.type (.simple boxes)))]
        ((projection 9).type true (.simple shelves)) [.package "lib"]) v s' ∧
    shelf.Levels (.simple shelves) 2 false (.ofClass ⟨0⟩ []) ∧
    ∃ l, HostLabelled shelf s'.table (Projection.boxed shelf false (.ofClass ⟨0⟩ [])) l ∧
      shelf.ArrayTold s'.table s'.file.writer.sink.lines 2 l v.host.label := by
  obtain ⟨v, s', h⟩ := ends_of_isOk (p := shelf)
    (s := { file := .source (.ofSink .unbounded) "a.kt" .single, counter := {}, queue := {} })
    (m := amid (walk (projection 9) 9)
      [.operation (.refer (.type (.ofClass ⟨1⟩ [.projection .covariant (.ofClass ⟨0⟩ [])])))]
      ((projection 9).type true (.ofClass ⟨1⟩ [.projection .invariant
        (.ofClass ⟨1⟩ [.projection .covariant (.ofClass ⟨0⟩ [])])])) [.package "lib"])
    (by decide +kernel)
  have hlevels : shelf.Levels (.ofClass ⟨1⟩ [.projection .invariant
      (.ofClass ⟨1⟩ [.projection .covariant (.ofClass ⟨0⟩ [])])]) 2 false (.ofClass ⟨0⟩ []) :=
    .projection (by decide) rfl (.projection (by decide) rfl levels_box)
  refine ⟨v, s', h, hlevels, ?_⟩
  exact (arrayTold_of_levels (fun _ _ => rfl) rfl rfl rfl hlevels (by decide)).2
    9 9 _ _ 9 true v s' h

end Arrays

end Request

end IrFacts
