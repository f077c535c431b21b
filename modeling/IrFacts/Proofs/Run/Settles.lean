import IrFacts.Proofs.Run.Growth
import IrFacts.Proofs.Run.Oblivious

/-!
# Actions that end with enough fuel

Some actions settle: with enough fuel they end. Others answer: once they have
ended they end with the same result, and add no label, in every session that
has all the labels. Both are worked out from what an action is made of. Where
a label is defined only the definition has to settle, as it runs once.
-/

set_option autoImplicit false

namespace IrFacts

/-- Every key of `t` has the same label in `u`. -/
def LabelTable.Le (t u : LabelTable) : Prop := ∀ key l, t.find? key = some l → u.find? key = some l

theorem LabelTable.Le.refl (t : LabelTable) : t.Le t := fun _ _ h => h

theorem LabelTable.Le.trans {t u v : LabelTable} (h : t.Le u) (k : u.Le v) : t.Le v :=
  fun key l hl => k key l (h key l hl)

namespace Session

/-- The session `t` has all the labels of `s` and attributes places to the same file. -/
structure Onward (s t : Session) : Prop where
  table : s.table.Le t.table
  target : t.file.target = s.file.target

variable {s t u : Session}

theorem Onward.refl (s : Session) : s.Onward s := ⟨.refl _, rfl⟩

theorem Onward.trans (h : s.Onward t) (k : t.Onward u) : s.Onward u :=
  ⟨h.table.trans k.table, k.target.trans h.target⟩

theorem onward_step (e : Event) (s : Session) (h : ∀ target, e ≠ .target target) :
    s.Onward (e.step s) :=
  ⟨fun _ _ hl => Event.run_find? [e] hl, Event.step_target e s h⟩

end Session

namespace Extract

variable {α β : Type} {p : Program} {s s' t : Session}

def Surely (p : Program) (s : Session) (m : Projection → Extract α) (a : α) (s' : Session) : Prop :=
  ∃ least, ∀ fuel ≥ least, Ends p s (m (projection fuel)) a s'

theorem surely_of_ends {m : Extract α} {a : α} (h : Ends p s m a s') :
    Surely p s (fun _ => m) a s' := ⟨0, fun _ _ => h⟩

theorem surely_bind {m : Projection → Extract α} {f : Projection → α → Extract β} {a : α} {b : β}
    (hm : Surely p s m a t) (hf : Surely p t (fun π => f π a) b s') :
    Surely p s (fun π => m π >>= f π) b s' := by
  obtain ⟨n, hn⟩ := hm
  obtain ⟨k, hk⟩ := hf
  exact ⟨max n k, fun fuel h => ends_bind.mpr ⟨a, t, hn fuel (Nat.le_trans (Nat.le_max_left ..) h),
    hk fuel (Nat.le_trans (Nat.le_max_right ..) h)⟩⟩

/-- An operation of projection takes one unit of fuel more than its step. -/
theorem surely_succ {m : Projection → Extract α} {m' : Projection → Extract α} {a : α}
    (hm : ∀ fuel, m' (projection (fuel + 1)) = m (projection fuel)) (h : Surely p s m a s') :
    Surely p s m' a s' := by
  obtain ⟨n, hn⟩ := h
  refine ⟨n + 1, fun fuel hfuel => ?_⟩
  obtain ⟨k, rfl⟩ := Nat.exists_eq_add_of_le' (Nat.le_trans (Nat.le_add_left 1 n) hfuel)
  rw [hm]
  exact hn k (Nat.le_of_add_le_add_right hfuel)

theorem surely_unique {m : Projection → Extract α} {a b : α} (h : Surely p s m a s')
    (k : Surely p s m b t) : a = b ∧ s' = t := by
  obtain ⟨n, hn⟩ := h
  obtain ⟨i, hi⟩ := k
  exact ends_unique (hn (max n i) (Nat.le_max_left ..)) (hi (max n i) (Nat.le_max_right ..))

/-! ## Actions that settle -/

def Settles (p : Program) (s : Session) (m : Projection → Extract α) : Prop :=
  ∃ a s', Surely p s m a s' ∧ s.Onward s'

theorem settles_of_ends {m : Extract α} (a : α) (h : Ends p s m a s') (ho : s.Onward s') :
    Settles p s fun _ => m := ⟨a, s', surely_of_ends h, ho⟩

theorem settles_pure (a : α) : Settles p s fun _ => pure a :=
  settles_of_ends a (ends_pure.mpr ⟨rfl, rfl⟩) (.refl s)

theorem settles_bind {m : Projection → Extract α} {f : Projection → α → Extract β}
    (hm : Settles p s m) (hf : ∀ a t, s.Onward t → Settles p t fun π => f π a) :
    Settles p s fun π => m π >>= f π := by
  obtain ⟨a, t, ha, hst⟩ := hm
  obtain ⟨b, u, hb, htu⟩ := hf a t hst
  exact ⟨b, u, surely_bind ha hb, hst.trans htu⟩

theorem settles_read {f : Projection → Program → Extract β} (h : Settles p s fun π => f π p) :
    Settles p s fun π => read >>= f π := by
  obtain ⟨b, u, ⟨n, hn⟩, hsu⟩ := h
  exact ⟨b, u, ⟨n, fun fuel h => ends_read_bind.mpr (hn fuel h)⟩, hsu⟩

theorem settles_ite {c : Prop} [Decidable c] {m n : Projection → Extract α}
    (hm : c → Settles p s m) (hn : ¬c → Settles p s n) :
    Settles p s fun π => if c then m π else n π := by
  by_cases h : c
  · simpa only [if_pos h] using hm h
  · simpa only [if_neg h] using hn h

theorem settles_when_bind {c : Prop} [Decidable c] {m : Projection → Extract Unit}
    {f : Projection → Unit → Extract β} (hm : c → Settles p s m)
    (hf : ∀ t, s.Onward t → Settles p t fun π => f π ()) :
    Settles p s fun π => if c then m π >>= f π else f π () :=
  settles_ite (fun h => settles_bind (hm h) fun _ t ht => hf t ht) fun _ => hf s (.refl s)

theorem settles_forM {as : List α} {f : Projection → α → Extract PUnit}
    (h : ∀ a ∈ as, ∀ t, s.Onward t → Settles p t fun π => f π a) :
    Settles p s fun π => as.forM (f π) := by
  induction as generalizing s with
  | nil => exact settles_pure _
  | cons a as ih =>
    refine settles_bind (h a (List.mem_cons_self ..) s (.refl s)) fun _ t ht => ih ?_
    exact fun b hb u hu => h b (List.mem_cons_of_mem _ hb) u (ht.trans hu)

theorem settles_write (f : Trap.Fact) : Settles p s fun _ => write f :=
  settles_of_ends () (ends_write.mpr rfl) (Session.onward_step _ s nofun)

/-! ## Actions that answer -/

/-- Wherever the labels of the table are known, the action ends with this
result and adds no label. -/
def Recalled (p : Program) (table : LabelTable) (m : Projection → Extract α) (a : α) : Prop :=
  ∀ t : Session, table.Le t.table → ∃ t', Surely p t m a t' ∧ t'.table = t.table

theorem Recalled.mono {table more : LabelTable} {m : Projection → Extract α} {a : α}
    (h : Recalled p table m a) (hle : table.Le more) : Recalled p more m a :=
  fun t ht => h t (hle.trans ht)

def Answers (p : Program) (s : Session) (m : Projection → Extract α) : Prop :=
  ∃ a s', Surely p s m a s' ∧ s.Onward s' ∧ Recalled p s'.table m a

theorem Answers.settles {m : Projection → Extract α} (h : Answers p s m) : Settles p s m := by
  obtain ⟨a, s', ha, ho, -⟩ := h
  exact ⟨a, s', ha, ho⟩

theorem answers_of_ends {m : Extract α} (a : α) (h : Ends p s m a s') (ho : s.Onward s')
    (hr : ∀ t : Session, s'.table.Le t.table → ∃ t', Ends p t m a t' ∧ t'.table = t.table) :
    Answers p s fun _ => m := by
  refine ⟨a, s', surely_of_ends h, ho, fun t ht => ?_⟩
  obtain ⟨t', ht', htable⟩ := hr t ht
  exact ⟨t', surely_of_ends ht', htable⟩

theorem answers_pure (a : α) : Answers p s fun _ => pure a :=
  answers_of_ends a (ends_pure.mpr ⟨rfl, rfl⟩) (.refl s) fun t _ =>
    ⟨t, ends_pure.mpr ⟨rfl, rfl⟩, rfl⟩

theorem answers_bind {m : Projection → Extract α} {f : Projection → α → Extract β}
    (hm : Answers p s m) (hf : ∀ a t, s.Onward t → Answers p t fun π => f π a) :
    Answers p s fun π => m π >>= f π := by
  obtain ⟨a, t, ha, hst, hra⟩ := hm
  obtain ⟨b, u, hb, htu, hrb⟩ := hf a t hst
  refine ⟨b, u, surely_bind ha hb, hst.trans htu, fun v hv => ?_⟩
  obtain ⟨w, hw, htable⟩ := hra v (htu.table.trans hv)
  obtain ⟨x, hx, htable'⟩ := hrb w (htable ▸ hv)
  exact ⟨x, surely_bind hw hx, htable'.trans htable⟩

theorem answers_read {f : Projection → Program → Extract β} (h : Answers p s fun π => f π p) :
    Answers p s fun π => read >>= f π := by
  have hread {t u : Session} {b : β} (hb : Surely p t (fun π => f π p) b u) :
      Surely p t (fun π => read >>= f π) b u := by
    obtain ⟨n, hn⟩ := hb
    exact ⟨n, fun fuel h => ends_read_bind.mpr (hn fuel h)⟩
  obtain ⟨b, u, hb, hsu, hr⟩ := h
  refine ⟨b, u, hread hb, hsu, fun t ht => ?_⟩
  obtain ⟨t', ht', htable⟩ := hr t ht
  exact ⟨t', hread ht', htable⟩

theorem answers_ite {c : Prop} [Decidable c] {m n : Projection → Extract α}
    (hm : c → Answers p s m) (hn : ¬c → Answers p s n) :
    Answers p s fun π => if c then m π else n π := by
  by_cases h : c
  · simpa only [if_pos h] using hm h
  · simpa only [if_neg h] using hn h

theorem answers_when_bind {c : Prop} [Decidable c] {m : Projection → Extract Unit}
    {f : Projection → Unit → Extract β} (hm : c → Answers p s m)
    (hf : ∀ t, s.Onward t → Answers p t fun π => f π ()) :
    Answers p s fun π => if c then m π >>= f π else f π () :=
  answers_ite (fun h => answers_bind (hm h) fun _ t ht => hf t ht) fun _ => hf s (.refl s)

theorem answers_mapM {as : List α} {f : Projection → α → Extract β}
    (h : ∀ a ∈ as, ∀ t, s.Onward t → Answers p t fun π => f π a) :
    Answers p s fun π => as.mapM (f π) := by
  induction as generalizing s with
  | nil =>
    simp only [List.mapM_nil]
    exact answers_pure _
  | cons a as ih =>
    simp only [List.mapM_cons]
    refine answers_bind (h a (List.mem_cons_self ..) s (.refl s)) fun b t ht => ?_
    refine answers_bind (ih ?_) fun _ u _ => answers_pure _
    exact fun c hc u hu => h c (List.mem_cons_of_mem _ hc) u (ht.trans hu)

theorem answers_foldlM {as : List α} {f : Projection → β → α → Extract β}
    (h : ∀ a ∈ as, ∀ b t, s.Onward t → Answers p t fun π => f π b a) (b : β) :
    Answers p s fun π => as.foldlM (f π) b := by
  induction as generalizing s b with
  | nil => exact answers_pure b
  | cons a as ih =>
    simp only [List.foldlM_cons]
    refine answers_bind (h a (List.mem_cons_self ..) b s (.refl s)) fun c t ht => ih ?_ c
    exact fun d hd e u hu => h d (List.mem_cons_of_mem _ hd) e u (ht.trans hu)

/-! ## Labels -/

theorem onward_lookup (key : String) (s : Session) : s.Onward ((Event.lookup key none).step s) :=
  Session.onward_step _ s nofun

theorem find?_lookup (key : String) (s : Session) (h : s.table.find? key = none) :
    ((Event.lookup key none).step s).table.find? key = some (.number s.table.next) := by
  rw [Event.step_table, Event.onTable, LabelTable.find?_lookup, LabelTable.lookup, h]
  rfl

theorem answers_labelWith {key : String} {define : Projection → Label → Extract Unit}
    (h : s.table.find? key = none →
      Settles p ((Event.lookup key none).step s) fun π => define π (.number s.table.next)) :
    Answers p s fun π => labelWith key (define π) := by
  have hrecall {table : LabelTable} {l : Label} (hl : table.find? key = some l) :
      Recalled p table (fun π => labelWith key (define π)) l := fun t ht =>
    ⟨t, ⟨0, fun _ _ => (ends_labelWith none).mpr (.inl ⟨ht key l hl, rfl⟩)⟩, rfl⟩
  cases hfound : s.table.find? key with
  | some l =>
    exact ⟨l, s, ⟨0, fun _ _ => (ends_labelWith none).mpr (.inl ⟨hfound, rfl⟩)⟩, .refl s,
      hrecall hfound⟩
  | none =>
    obtain ⟨⟨⟩, u, ⟨n, hn⟩, ho⟩ := h hfound
    refine ⟨.number s.table.next, u, ⟨n, fun fuel hfuel => ?_⟩, (onward_lookup key s).trans ho,
      hrecall (ho.table key _ (find?_lookup key s hfound))⟩
    exact (ends_labelWith none).mpr (.inr ⟨hfound, rfl, hn fuel hfuel⟩)

theorem answers_labelFor (key : String) : Answers p s fun _ => labelFor key := by
  rw [labelFor_eq]
  exact answers_labelWith fun _ => settles_pure ()

theorem answers_fact (key : String) (fact : Label → Trap.Fact) :
    Answers p s fun _ => labelWith key fun l => write (fact l) :=
  answers_labelWith fun _ => settles_write _

/-! ## Problems and places -/

theorem answers_locationIn (file : Label) (r : Trap.Region) :
    Answers p s fun _ => onFile (·.locationIn file r) := by
  rw [locationIn_eq]
  exact answers_fact _ _

theorem answers_unknownLocation : Answers p s fun _ => unknownLocation := by
  rw [unknownLocation_eq, unknownFile_eq]
  exact answers_bind (answers_fact _ _) fun _ _ _ => answers_locationIn _ _

theorem answers_reportAt (problem : Problem) (location : Label) :
    Answers p s fun _ => reportAt problem location :=
  answers_of_ends () (ends_reportAt.mpr rfl) (Session.onward_step _ s nofun) fun t _ =>
    ⟨_, ends_reportAt.mpr rfl, Event.step_table (.report problem location) t⟩

theorem answers_complain (problem : Problem) : Answers p s fun _ => complain problem :=
  answers_bind answers_unknownLocation fun _ _ _ => answers_reportAt _ _

theorem answers_schedule (id : DeclId) : Answers p s fun _ => schedule id :=
  answers_of_ends () ((ends_schedule none).mpr rfl) (Session.onward_step _ s nofun) fun t _ =>
    ⟨_, (ends_schedule none).mpr rfl, Event.step_table (.schedule id none) t⟩

end Extract

end IrFacts
