import Mathlib.Data.Set.Insert
import IrFacts.Proofs.Code.Hidden
import IrFacts.Proofs.Code.LaidOut

/-!
# The order of initialization

What initializes the instances of a class is extracted into the slots of one block,
in the order of the members: each item has a slot of its own, and an item that is not
supported leaves its slot empty.
-/

set_option autoImplicit false

namespace IrFacts

namespace Walk

open Extract Session Trap

variable {p : Program} {typeFuel walkFuel : Nat} {hidden : Set Nat} {s t : Session}

/-! ## Rows of field initializers -/

theorem hides_type (hs : s.Hides hidden) {primitives : Bool} {type : IrType} {views : TypeViews}
    (he : Ends p s ((walk (projection typeFuel) walkFuel).type primitives type) views t) :
    t.Hides hidden ∧ s.table.next ≤ t.table.next := by
  obtain ⟨ht, hst, -⟩ := hides_of_does hs
    ((Scope.untold_coversWalk p typeFuel walkFuel).type s primitives type) he
  exact ⟨ht, hst⟩

theorem hides_write (hs : s.Hides hidden) {f : Fact} {u : Unit} (he : Ends p s (write f) u t) :
    t.Hides hidden ∧ s.table.next = t.table.next := by
  obtain rfl := ends_write.mp he
  exact ⟨hs.fact f, (Scope.fact_next f s).symm⟩

theorem hides_writeExpr (hs : s.Hides hidden) {id type richType parent : Label}
    {kind : Trap.ExprKind} {index : Int} {u : Unit}
    (he : Ends p s (writeExpr id kind type richType parent index) u t) :
    t.Hides hidden ∧ s.table.next = t.table.next := by
  obtain ⟨_, t₁, hrow, he⟩ := ends_bind.mp he
  obtain ⟨h₁, hnext₁⟩ := hides_write hs hrow
  obtain ⟨h₂, hnext₂⟩ := hides_write h₁ he
  exact ⟨h₂, hnext₁.trans hnext₂⟩

theorem plays_initializerRow (hs : s.Hides hidden) {obinit place parent id : Label}
    {kind : Trap.ExprKind} {type : IrType} {index : Int}
    (he : Ends p s ((walk (projection typeFuel) walkFuel).initializerRow obinit kind type place
      parent index) id t) :
    id = .number s.table.next ∧ s.table.next < t.table.next ∧
      t.Hides (insert s.table.next hidden) ∧
      s.Plays t [.row ⟨.expr kind, id, parent, index⟩] := by
  obtain ⟨id, t₁, hfresh, he⟩ := ends_bind.mp he
  obtain ⟨views, t₂, htype, he⟩ := ends_bind.mp he
  obtain ⟨_, t₃, hrow, he⟩ := ends_bind.mp he
  obtain ⟨_, t₄, hplace, he⟩ := ends_bind.mp he
  obtain ⟨_, t₅, hcall, he⟩ := ends_bind.mp he
  obtain ⟨rfl, rfl⟩ := ends_pure.mp he
  have hw := keepsPlain_walk p typeFuel walkFuel
  have hviews := shows_aside (hw.asksType true type).aside htype
  have hlast := (shows_aside (aside_write (by decide) (by decide)) hplace).trans
    (shows_aside (aside_write (by decide) (by decide)) hcall)
  have hplays := plays_of_fresh hfresh (hviews.trans ((shows_writeExpr hrow).trans hlast))
  obtain ⟨rfl, rfl⟩ := ends_fresh.mp hfresh
  have hnext : (Event.fresh.step s).table.next = s.table.next + 1 := by
    rw [Event.step_table]
    rfl
  obtain ⟨h₂, hnext₂⟩ := hides_type hs.fresh htype
  obtain ⟨h₃, hnext₃⟩ := hides_writeExpr h₂ hrow
  obtain ⟨h₄, hnext₄⟩ := hides_write h₃ hplace
  obtain ⟨h₅, hnext₅⟩ := hides_write h₄ hcall
  exact ⟨rfl, by omega, h₅, hplays⟩

/-! ## What stands in a slot -/

/-- The lines hold the extraction of an item in its slot of the block: the rows of a
statement, if any, or an assignment to the field of a property. New rows have ids from
`low` on. -/
inductive Initialized (p : Program) (w : Walk) (obinit block : Label) (low : Nat)
    (ls : List Line) (index : Nat) : Initialization → Prop
  | statement {code : Statement} (own : List Line) (v v' : Session)
      (run : Ends p v (w.statement obinit block index code) () v') (wrote : v.Wrote v' own)
      (part : own <:+: ls)
      (slot : childrenAt block index ls = children block own) :
      Initialized p w obinit block low ls index (.statement code)
  | field {id : DeclId} {f : FieldDecl} {value : Expr} {span : Span} (stmt assign left : Nat)
      (target : Label) (own : List Line) (u u' v v' : Session)
      (slot : childrenAt block index ls =
        [⟨.stmt .exprStmt, .number stmt, block, index⟩])
      (assigned : children (.number stmt) ls =
        [⟨.expr .assign, .number assign, .number stmt, 0⟩])
      (sides : children (.number assign) ls =
        ⟨.expr .varAccess, .number left, .number assign, 0⟩ :: children (.number assign) own)
      (label : Ends p u (w.field id) target u')
      (bound : .fact (.variableBinding (.number left) target) ∈ ls)
      (run : Ends p v (w.expressionSlot obinit (.number assign) 1 value) () v')
      (wrote : v.Wrote v' own) (part : own <:+: ls)
      (valued : ∃ seat : Option Row, children (.number assign) own = seat.toList ∧
        ∀ r ∈ seat, r.index = 1)
      (fresh : low ≤ stmt ∧ low ≤ assign) :
      Initialized p w obinit block low ls index (.field id f value span)

variable {w : Walk} {obinit block : Label} {low index b : Nat} {ls ms : List Line}
  {i : Initialization}

/-- Lines from before that put no rows under new labels, and none at the index. -/
theorem Initialized.prepend (h : Initialized p w obinit block low ls index i) {first : Nat}
    (hfirst : first ≤ low) (hnew : ∀ k, low ≤ k → children (.number k) ms = [])
    (hindex : ∀ r ∈ children block ms, r.index ≠ index) :
    Initialized p w obinit block first (ms ++ ls) index i := by
  have hslot : childrenAt block index (ms ++ ls) = childrenAt block index ls := by
    rw [childrenAt_append, childrenAt_eq_nil hindex, List.nil_append]
  cases h with
  | statement own v v' run wrote part slot =>
    exact .statement own v v' run wrote (part.trans (List.suffix_append ms ls).isInfix)
      (hslot.trans slot)
  | field stmt assign left target own u u' v v' slot assigned sides label bound run wrote part
      valued fresh =>
    exact .field stmt assign left target own u u' v v' (hslot.trans slot)
      (by rw [children_append, hnew stmt fresh.1, assigned, List.nil_append])
      (by rw [children_append, hnew assign fresh.2, sides, List.nil_append]) label
      (List.mem_append_right _ bound) run wrote (part.trans (List.suffix_append ms ls).isInfix)
      valued ⟨Nat.le_trans hfirst fresh.1, Nat.le_trans hfirst fresh.2⟩

/-! ## One slot after the other -/

/-- One item is extracted into its slot. What it leaves hidden, nobody after it can mention. -/
structure Stage (p : Program) (w : Walk) (obinit : Label) (hidden : Set Nat) (b index : Nat)
    (i : Initialization) (s t : Session) (own : List Line) (more : Set Nat) : Prop where
  sits : Sits hidden (.statement (.number b) index) s t own
  hidden_subset : hidden ⊆ more
  hides : t.Hides more
  visible : t.Visible more obinit
  initialized : ∀ ms, (∀ k ∈ more, k ≠ b → children (.number k) ms = []) →
    (∀ r ∈ children (.number b) ms, r.index ≠ index) →
      Initialized p w obinit (.number b) s.table.next (own ++ ms) index i

theorem stage_statement (hs : s.Hides hidden) (hb : b ∈ hidden) (hobinit : s.Visible hidden obinit)
    {code : Statement} {u : Unit}
    (he : Ends p s ((walk (projection typeFuel) walkFuel).statement obinit (.number b) index code)
      u t) :
    ∃ own, Stage p (walk (projection typeFuel) walkFuel) obinit hidden b index (.statement code)
      s t own hidden := by
  have hseats := Scope.seats_statement Scope.untold_writesCode (Scope.untold_allows p)
    (Scope.untold_covers p typeFuel) walkFuel (Scope.knows_of_visible hobinit) (.number b) index
    (Scope.untold_readsAll p (code.parts p))
  obtain ⟨own, hsits⟩ := sits_of_seated hb rfl hs (hseats (Scope.sound_of_hides hs) u t he).1
  obtain ⟨seat, hseat, hindex⟩ := hsits.seat
  refine ⟨own, hsits, fun _ hk => hk, hsits.hides, hobinit.of_next hsits.next, fun ms _ hms =>
    .statement own s t he hsits.wrote (List.prefix_append own ms).isInfix ?_⟩
  rw [childrenAt_append, childrenAt_eq_nil hms, List.append_nil]
  exact childrenAt_of_forall fun r hr => hindex r (Option.mem_toList.mp (hseat ▸ hr))

/-- The rows of the assignment to a field, up to the initializer. -/
structure FieldRows (p : Program) (w : Walk) (hidden : Set Nat) (block : Label) (index : Nat)
    (id : DeclId) (s t : Session) (stmt assign left : Nat) (target : Label) (ls : List Line) :
    Prop where
  ids : s.table.next ≤ stmt ∧ stmt < assign ∧ assign < left ∧ left < t.table.next
  hides : t.Hides (insert left (insert assign (insert stmt hidden)))
  wrote : s.Wrote t ls
  rows : ls.filterMap Line.row? = [⟨.stmt .exprStmt, .number stmt, block, index⟩,
    ⟨.expr .assign, .number assign, .number stmt, 0⟩,
    ⟨.expr .varAccess, .number left, .number assign, 0⟩]
  bound : .fact (.variableBinding (.number left) target) ∈ ls
  label : ∃ v v', Ends p v (w.field id) target v'

theorem FieldRows.children_eq {w : Walk} {id : DeclId} {stmt assign left : Nat} {target : Label}
    (h : FieldRows p w hidden (.number b) index id s t stmt assign left target ls) (k : Nat) :
    children (.number k) ls =
      (if b = k then [⟨.stmt .exprStmt, .number stmt, .number b, index⟩] else []) ++
      (if stmt = k then [⟨.expr .assign, .number assign, .number stmt, 0⟩] else []) ++
      (if assign = k then [⟨.expr .varAccess, .number left, .number assign, 0⟩] else []) := by
  rw [children_of_rows h.rows]
  simp only [List.filter_cons, List.filter_nil, Label.number.injEq, decide_eq_true_eq]
  split <;> split <;> split <;> rfl

theorem fieldRows_of_ends (hs : s.Hides hidden) {id : DeclId} {f : FieldDecl} {value : Expr}
    {span : Span} {u : Unit}
    (he : Ends p s ((walk (projection typeFuel) walkFuel).initialization obinit block index
      (.field id f value span)) u t) :
    ∃ stmt assign left target t₈ ls,
      FieldRows p (walk (projection typeFuel) walkFuel) hidden block index id s t₈ stmt assign left
        target ls ∧
      Ends p t₈ ((walk (projection typeFuel) walkFuel).expressionSlot obinit (.number assign) 1
        value) u t := by
  obtain ⟨place, t₁, hplace, he⟩ := ends_bind.mp he
  obtain ⟨stmt, t₂, hfresh, he⟩ := ends_bind.mp he
  obtain ⟨_, t₃, hrow, he⟩ := ends_bind.mp he
  obtain ⟨_, t₄, hlocation, he⟩ := ends_bind.mp he
  obtain ⟨assign, t₅, hassign, he⟩ := ends_bind.mp he
  obtain ⟨left, t₆, hleft, he⟩ := ends_bind.mp he
  obtain ⟨target, t₇, htarget, he⟩ := ends_bind.mp he
  obtain ⟨_, t₈, hbound, he⟩ := ends_bind.mp he
  have hplays₃ := plays_of_fresh hfresh (shows_fact (Fact.row?_stmts ..) rfl hrow)
  obtain ⟨rfl, rfl⟩ := ends_fresh.mp hfresh
  have hnext₂ : (Event.fresh.step t₁).table.next = t₁.table.next + 1 := by
    rw [Event.step_table]
    rfl
  -- The new ids are hidden on the way, one after the other.
  obtain ⟨h₁, hnext₁, -⟩ := hides_of_does hs (Scope.does_location span) hplace
  obtain ⟨h₃, hnext₃⟩ := hides_write h₁.fresh hrow
  obtain ⟨h₄, hnext₄⟩ := hides_write h₃ hlocation
  obtain ⟨rfl, hnext₅, h₅, hplays₅⟩ := plays_initializerRow h₄ hassign
  obtain ⟨rfl, hnext₆, h₆, hplays₆⟩ := plays_initializerRow h₅ hleft
  obtain ⟨h₇, hnext₇, -⟩ := hides_of_does h₆ (Scope.does_field
    (Scope.untold_coversWalk p typeFuel walkFuel).toCovers (Scope.untold_allows p) (.inl rfl))
    htarget
  obtain ⟨h₈, hnext₈⟩ := hides_write h₇ hbound
  have hplays₇ := plays_of_aside
    (asks_member (keepsPlain_walk p typeFuel walkFuel).toStable (by decide) id).aside htarget
  obtain ⟨ls, hwrote, hrows, -⟩ := ((plays_of_aside (scripted_location span) hplace).trans
    (hplays₃.trans ((plays_write (by decide) (by decide) hlocation).trans
      (hplays₅.trans (hplays₆.trans hplays₇))))).lines
  obtain rfl := ends_write.mp hbound
  refine ⟨_, _, _, target, _, ls ++ [_], ⟨by omega, h₈, hwrote.trans (Event.step_wrote _ _), ?_,
    by simp, t₆, t₇, htarget⟩, he⟩
  rw [List.filterMap_append, hrows]
  rfl

section

variable {id : DeclId} {f : FieldDecl} {value : Expr} {span : Span} {stmt assign left : Nat}
  {target : Label} {own : List Line} {u : Session} (hs : s.Hides hidden) (hb : b ∈ hidden)
  (h : FieldRows p w hidden (.number b) index id s t stmt assign left target ls)
  (hsits : Sits (insert left (insert assign (insert stmt hidden))) (.expression (.number assign) 1)
    t u own)

include hs hb h hsits

theorem FieldRows.block_eq :
    children (.number b) (ls ++ own) = [⟨.stmt .exprStmt, .number stmt, .number b, index⟩] := by
  obtain ⟨hstmt, hassign, -⟩ := h.ids
  have hblock := (hs.handedOut b hb).2
  have hown : children (.number b) own = [] :=
    hsits.others b (.inl (.inr (.inr (.inr hb)))) fun heq =>
      absurd (Label.number.inj heq) (by omega)
  rw [children_append, h.children_eq, hown, if_pos rfl, if_neg (by omega), if_neg (by omega)]
  rfl

theorem FieldRows.sits : Sits hidden (.statement (.number b) index) s u (ls ++ own) := by
  obtain ⟨hstmt, hassign, hleft, hlast⟩ := h.ids
  have hnext := hsits.next
  have hsub : hidden ⊆ insert left (insert assign (insert stmt hidden)) :=
    fun k hk => .inr (.inr (.inr hk))
  refine ⟨h.wrote.trans hsits.wrote, by omega, hsits.hides.mono hsub,
    ⟨some _, h.block_eq hs hb hsits, ?_⟩, fun k hk hne => ?_⟩
  · rintro _ ⟨⟩
    rfl
  · -- The new labels are neither hidden before nor left to be handed out.
    have hk' : stmt ≠ k ∧ assign ≠ k := by
      rcases hk with hk | hk
      · have := (hs.handedOut k hk).2
        omega
      · omega
    rw [children_append, h.children_eq, if_neg fun heq => hne (congrArg _ heq.symm), if_neg hk'.1,
      if_neg hk'.2]
    exact hsits.others k (hk.imp_left fun hk => hsub hk) fun heq =>
      hk'.2 (Label.number.inj heq).symm

theorem FieldRows.initialized {ms : List Line}
    (hvalue : Ends p t (w.expressionSlot obinit (.number assign) 1 value) () u)
    (hmore : ∀ k ∈ insert left (insert assign (insert stmt hidden)), k ≠ b →
      children (.number k) ms = [])
    (hms : ∀ r ∈ children (.number b) ms, r.index ≠ index) :
    Initialized p w obinit (.number b) s.table.next (ls ++ own ++ ms) index
      (.field id f value span) := by
  obtain ⟨hstmt, hassign, -⟩ := h.ids
  have hblock := (hs.handedOut b hb).2
  have hstmtRows : children (.number stmt) own = [] :=
    hsits.others stmt (.inl (.inr (.inr (.inl rfl)))) fun heq =>
      absurd (Label.number.inj heq) (by omega)
  have hstmtLater : children (.number stmt) ms = [] :=
    hmore stmt (.inr (.inr (.inl rfl))) (by omega)
  have hassignLater : children (.number assign) ms = [] :=
    hmore assign (.inr (.inl rfl)) (by omega)
  have hslot := h.block_eq hs hb hsits
  obtain ⟨v, v', hlabel⟩ := h.label
  refine .field stmt assign left target own v v' t u ?_ ?_ ?_ hlabel ?_ hvalue hsits.wrote
    ⟨ls, ms, rfl⟩ hsits.seat ⟨hstmt, by omega⟩
  · rw [childrenAt_append, childrenAt_eq_nil hms, List.append_nil, ← hslot]
    exact childrenAt_of_forall fun r hr => List.mem_singleton.mp (hslot ▸ hr) ▸ rfl
  · rw [children_append, children_append, h.children_eq, hstmtRows, hstmtLater,
      if_neg (by omega), if_pos rfl, if_neg (by omega)]
    rfl
  · rw [children_append, children_append, h.children_eq, hassignLater, if_neg (by omega),
      if_neg (by omega), if_pos rfl]
    simp
  · exact List.mem_append_left _ (List.mem_append_left _ h.bound)

end

theorem stage_field {id : DeclId} {f : FieldDecl} {value : Expr} {span : Span}
    (hs : s.Hides hidden) (hb : b ∈ hidden) (hobinit : s.Visible hidden obinit)
    (he : Ends p s ((walk (projection typeFuel) walkFuel).initialization obinit (.number b) index
      (.field id f value span)) () t) :
    ∃ own more, Stage p (walk (projection typeFuel) walkFuel) obinit hidden b index
      (.field id f value span) s t own more := by
  obtain ⟨stmt, assign, left, target, t₈, ls, hrows, hvalue⟩ := fieldRows_of_ends hs he
  obtain ⟨hstmt, hassign, hleft, hlast⟩ := hrows.ids
  have hobinit₈ : t₈.Visible (insert left (insert assign (insert stmt hidden))) obinit := by
    have hstmts := hobinit.insert hstmt
    have hassigns := hstmts.insert (Nat.le_trans hstmt (Nat.le_of_lt hassign))
    exact (hassigns.insert (by omega)).of_next (by omega)
  have hseats : (Scope.untold _ _).Seats p (.expression (.number assign) 1) t₈ _ _ :=
    Scope.seats_expression Scope.untold_writesCode (Scope.untold_allows p)
      (Scope.untold_covers p typeFuel) walkFuel (Scope.knows_of_visible hobinit₈)
      (Scope.untold_reads p value)
  obtain ⟨own, hsits⟩ := sits_of_seated (.inr (.inl rfl)) rfl hrows.hides
    (hseats (Scope.sound_of_hides hrows.hides) () t hvalue).1
  exact ⟨ls ++ own, _, hrows.sits hs hb hsits, fun k hk => .inr (.inr (.inr hk)), hsits.hides,
    hobinit₈.of_next hsits.next, fun ms hmore hms => hrows.initialized hs hb hsits hvalue hmore hms⟩

theorem stage_of_ends (hs : s.Hides hidden) (hb : b ∈ hidden) (hobinit : s.Visible hidden obinit)
    {u : Unit} (he : Ends p s ((walk (projection typeFuel) walkFuel).initialization obinit
      (.number b) index i) u t) :
    ∃ own more, Stage p (walk (projection typeFuel) walkFuel) obinit hidden b index i s t own
      more := by
  cases i with
  | statement code =>
    obtain ⟨own, hstage⟩ := stage_statement hs hb hobinit he
    exact ⟨own, hidden, hstage⟩
  | field id f value span => exact stage_field hs hb hobinit he

/-- The items are extracted in their order, from the slot `first` of the block on. -/
structure Sequence (p : Program) (w : Walk) (obinit : Label) (hidden : Set Nat) (b first : Nat)
    (items : List Initialization) (s t : Session) (ls : List Line) : Prop where
  wrote : s.Wrote t ls
  next : s.table.next ≤ t.table.next
  hides : t.Hides hidden
  others : ∀ k, k ∈ hidden ∨ t.table.next ≤ k → k ≠ b → children (.number k) ls = []
  ascending : (children (.number b) ls).Pairwise fun r r' => r.index < r'.index
  bounds : ∀ r ∈ children (.number b) ls, first ≤ r.index ∧ r.index < first + items.length
  initialized : ∀ (n : Nat) (i : Initialization), items[n]? = some i →
    Initialized p w obinit (.number b) s.table.next ls (first + n) i

theorem Stage.sequence {w : Walk} {u : Session} {own : List Line} {more : Set Nat} {first : Nat}
    {items : List Initialization} (hb : b ∈ hidden)
    (h : Stage p w obinit hidden b first i s t own more)
    (k : Sequence p w obinit more b (first + 1) items t u ms) :
    Sequence p w obinit hidden b first (i :: items) s u (own ++ ms) := by
  obtain ⟨seat, hseat, hindex⟩ := h.sits.seat
  have hown : ∀ r ∈ children (.number b) own, r.index = first :=
    fun r hr => hindex r (Option.mem_toList.mp (hseat ▸ hr))
  have hnext := h.sits.next
  have hbt := (h.sits.hides.handedOut b hb).2
  refine ⟨h.sits.wrote.trans k.wrote, Nat.le_trans hnext k.next, k.hides.mono h.hidden_subset,
    fun n hn hne => ?_, ?_, ?_, ?_⟩
  · have hlast := k.next
    rw [children_append, h.sits.others n (hn.imp_right fun hn => by omega)
      (fun heq => hne (Label.number.inj heq)), k.others n (hn.imp_left fun hn => h.hidden_subset hn)
      hne]
    rfl
  · rw [children_append, List.pairwise_append]
    refine ⟨?_, k.ascending, fun r hr r' hr' => ?_⟩
    · change List.Pairwise _ (children (Slot.statement (.number b) first).parent own)
      rw [hseat]
      cases seat <;> simp
    · have := hown r hr
      have := (k.bounds r' hr').1
      omega
  · intro r hr
    rw [children_append] at hr
    rw [List.length_cons]
    rcases List.mem_append.mp hr with hr | hr
    · have := hown r hr
      omega
    · have := k.bounds r hr
      omega
  · intro n i' hi'
    cases n with
    | zero =>
      obtain rfl := Option.some.inj hi'
      refine h.initialized ms (fun n hn hne => k.others n (.inl hn) hne) fun r hr => ?_
      have := (k.bounds r hr).1
      omega
    | succ n =>
      rw [← Nat.succ_add_eq_add_succ]
      refine (k.initialized n i' hi').prepend hnext
        (fun n hn => h.sits.others n (.inr hn) fun heq => ?_) fun r hr => ?_
      · have := Label.number.inj heq
        omega
      · have := hown r hr
        omega

theorem sequence_of_ends (items : List Initialization) {first : Nat} (hs : s.Hides hidden)
    (hb : b ∈ hidden) (hobinit : s.Visible hidden obinit) {u : Unit}
    (he : Ends p s ((items.zipIdx first).forM fun (i, index) =>
      (walk (projection typeFuel) walkFuel).initialization obinit (.number b) index i) u t) :
    ∃ ls, Sequence p (walk (projection typeFuel) walkFuel) obinit hidden b first items s t ls := by
  induction items generalizing first s hidden with
  | nil =>
    obtain ⟨-, rfl⟩ := ends_pure.mp he
    exact ⟨[], wrote_nil rfl, Nat.le_refl _, hs, fun _ _ _ => rfl, .nil,
      fun r hr => absurd hr List.not_mem_nil, nofun⟩
  | cons i items ih =>
    obtain ⟨_, t₁, hfirst, he⟩ := ends_bind.mp he
    obtain ⟨own, more, hstage⟩ := stage_of_ends hs hb hobinit hfirst
    obtain ⟨ms, hrest⟩ := ih hstage.hides (hstage.hidden_subset hb) hstage.visible he
    exact ⟨own ++ ms, hstage.sequence hb hrest⟩

/-! ## The whole method -/

/-- The method and its block are there, and nobody was told of the block. -/
structure BlockRow (parent obinit : Label) (b : Nat) (s t : Session) (ls : List Line) : Prop where
  wrote : s.Wrote t ls
  new : s.table.next ≤ b
  next : s.table.next ≤ t.table.next
  hides : t.Hides {b}
  visible : t.Visible {b} obinit
  row : ls.filterMap Line.row? = [⟨.stmt .block, .number b, obinit, 0⟩]
  method : ∃ type richType,
    .fact (.methods obinit "<obinit>" "<obinit>()" type richType parent obinit) ∈ ls

theorem blockRow_of_ends (hs : s.Hides ∅) {id : DeclId} {d : Declaration} {c : ClassDecl}
    {parent : Label} {u : Unit} (hsource : p.isExternal id = false)
    (he : Ends p s ((walk (projection typeFuel) walkFuel).extractInitialization id d c parent) u
      t) :
    ∃ obinit b t₉ ls, BlockRow parent obinit b s t₉ ls ∧
      Ends p t₉ ((initializations p c).zipIdx.forM fun (i, index) =>
        (walk (projection typeFuel) walkFuel).initialization obinit (.number b) index i) u t := by
  have hw := (keepsPlain_walk p typeFuel walkFuel).toStable
  have he := ends_read_bind.mp he
  rw [hsource] at he
  obtain ⟨key, t₁, hkey, he⟩ := ends_bind.mp he
  obtain ⟨obinit, t₂, hlabel, he⟩ := ends_bind.mp he
  obtain ⟨result, t₃, hresult, he⟩ := ends_bind.mp he
  obtain ⟨place, t₄, hplace, he⟩ := ends_bind.mp he
  obtain ⟨_, t₅, hmethod, he⟩ := ends_bind.mp he
  obtain ⟨_, t₆, hlocation, he⟩ := ends_bind.mp he
  obtain ⟨block, t₇, hfresh, he⟩ := ends_bind.mp he
  obtain ⟨_, t₈, hrow, he⟩ := ends_bind.mp he
  obtain ⟨_, t₉, hblockLocation, hitems⟩ := ends_bind.mp he
  have hbefore := ((plays_of_aside (asks_callableKey hw _ _ _ _).aside hkey).trans
    ((plays_of_aside (scripted_labelFor (Event.plainKey_of_start (by decide)
      (callableKey_start hkey))) hlabel).trans
        ((plays_of_aside (hw.asksType true _).aside hresult).trans
          (plays_of_aside (scripted_location d.span) hplace)))).lines
  have hafter := ((plays_write (by decide) (by decide) hlocation).trans
    ((plays_of_fresh hfresh (shows_fact (Fact.row?_stmts ..) rfl hrow)).trans
      (plays_write (by decide) (by decide) hblockLocation))).lines
  obtain ⟨ls, hls, hnone, -⟩ := hbefore
  obtain ⟨ms, hms, hsome, -⟩ := hafter
  obtain ⟨h₁, hnext₁, -⟩ := hides_of_does hs (Scope.does_callableKey
    (Scope.untold_coversWalk p typeFuel walkFuel).toCovers (Scope.letters_of_plain (by decide))
    (Scope.allowsParent_decl id) _ _) hkey
  obtain ⟨h₂, hnext₂, hknows⟩ := hides_of_does h₁
    (Scope.does_labelFor (Scope.untold_spells t₁ key)) hlabel
  have hvisible := Scope.visible_of_knows h₁ hnext₂ hknows
  obtain ⟨h₃, hnext₃⟩ := hides_type h₂ hresult
  obtain ⟨h₄, hnext₄, -⟩ := hides_of_does h₃ (Scope.does_location d.span) hplace
  obtain ⟨h₅, hnext₅⟩ := hides_write h₄ hmethod
  obtain ⟨h₆, hnext₆⟩ := hides_write h₅ hlocation
  obtain ⟨rfl, rfl⟩ := ends_fresh.mp hfresh
  obtain ⟨h₈, hnext₈⟩ := hides_write h₆.fresh hrow
  obtain ⟨h₉, hnext₉⟩ := hides_write h₈ hblockLocation
  have hnext₇ : (Event.fresh.step t₆).table.next = t₆.table.next + 1 := by
    rw [Event.step_table]
    rfl
  rw [insert_empty_eq] at h₉
  obtain rfl := ends_write.mp hmethod
  refine ⟨obinit, t₆.table.next, t₉, ls ++ ([_] ++ ms), ⟨hls.trans ((Event.step_wrote _ _).trans
    hms), by omega, by omega, h₉, ?_, ?_, result.host.label, result.rich.label, by simp⟩,
    ends_read_bind.mp (initializeMembers_eq _ _ _ c ▸ hitems)⟩
  · rw [← insert_empty_eq]
    exact ((hvisible.of_next (by omega)).insert (Nat.le_refl _)).of_next (by omega)
  · rw [List.filterMap_append, List.filterMap_append, hnone, hsome]
    rfl

/-- Between `s` and `t` the method that initializes the instances of a class was written, with a
new block. Under the block there are rows in the slots of the items only, one at most in each and
in the order of the members, and each slot holds the extraction of its item. No code that runs
later is told of the block, so nothing is added to it. -/
structure InitializesInOrder (p : Program) (w : Walk) (c : ClassDecl) (parent obinit : Label)
    (b : Nat) (s t : Session) (head body : List Line) : Prop where
  wrote : s.Wrote t (head ++ body)
  method : ∃ type richType,
    .fact (.methods obinit "<obinit>" "<obinit>()" type richType parent obinit) ∈ head
  row : head.filterMap Line.row? = [⟨.stmt .block, .number b, obinit, 0⟩]
  new : s.table.next ≤ b
  hides : t.Hides {b}
  bounds : ∀ r ∈ children (.number b) (head ++ body),
    0 ≤ r.index ∧ r.index < (initializations p c).length
  ascending : (children (.number b) (head ++ body)).Pairwise fun r r' => r.index < r'.index
  initialized : ∀ (index : Nat) (i : Initialization), (initializations p c)[index]? = some i →
    Initialized p w obinit (.number b) s.table.next (head ++ body) index i

def kettleClass : ClassDecl := { name := "Kettle", members := [⟨1⟩, ⟨3⟩, ⟨4⟩, ⟨6⟩, ⟨7⟩] }

def kettleDeclaration : Declaration := { parent := .file ⟨0⟩, kind := .class kettleClass }

def kettleType : IrType := .ofClass ⟨0⟩ []

def kettleNull : Expr := ⟨.undefined, kettleType, .const .null⟩

def kettleOdd : Expr := ⟨.undefined, kettleType, .unsupported "odd"⟩

def kettleField (name : String) (isStatic : Bool) : FieldDecl :=
  { name, type := kettleType, isStatic, initializer := some kettleNull }

/-- A class with two fields of properties, a static one, and two initializer blocks, one of them
static. -/
def kettle : Program :=
  { files := #[{ path := "a.kt", declarations := [⟨0⟩] }]
    declarations :=
      #[kettleDeclaration,
        { parent := .decl ⟨0⟩, kind := .property { name := "lid", backingField := some ⟨2⟩ } },
        { parent := .decl ⟨0⟩, kind := .field (kettleField "lid" false) },
        { parent := .decl ⟨0⟩
          kind := .initializer { statements := [.expr kettleOdd, .expr kettleNull] } },
        { parent := .decl ⟨0⟩, kind := .property { name := "all", backingField := some ⟨5⟩ } },
        { parent := .decl ⟨0⟩, kind := .field (kettleField "all" true) },
        { parent := .decl ⟨0⟩
          kind := .initializer { isStatic := true, statements := [.expr kettleNull] } },
        { parent := .decl ⟨0⟩, kind := .property { name := "cup", backingField := some ⟨8⟩ } },
        { parent := .decl ⟨0⟩, kind := .field (kettleField "cup" false) }]
    classIndex := [("Kettle", ⟨0⟩)] }

end Walk

end IrFacts
