import IrFacts.Proofs.Run.Growth
import IrFacts.Proofs.Run.Script

/-!
# Actions that ask

An action asks if it writes nothing but definitions of labels and diagnostics. What such an
action adds to a session is only what its keys need, and the session remembers it. How an action
is made up of questions is gone through once for every operation of projection; that it is a
script, and what it does when it is asked again, follows from that.
-/

set_option autoImplicit false

namespace IrFacts

namespace Extract

variable {α β : Type} {p : Program}

/-- What an action does besides introductions stays off the code. -/
abbrev Aside (p : Program) (m : Extract α) : Prop := Scripted (Event.Aside p) p m

/-- The label of a key that should have one: a missing label is complained of
once, as the complaint makes the label. -/
def findOrComplain (key : String) : Extract Label := do
  match ← find? key with
  | some label => return label
  | none =>
    complain (.missingTypeParameter key)
    labelFor key

inductive Asks (p : Program) : {α : Type} → Extract α → Prop
  | pure {α : Type} (a : α) : Asks p (pure a)
  | throw {α : Type} (e : Stop) : Asks p (throw e : Extract α)
  | bind {α β : Type} {m : Extract α} {f : α → Extract β} : Asks p m →
      (∀ a, (∃ s t, Ends p s m a t) → Asks p (f a)) → Asks p (m >>= f)
  | label {key : String} {define : Label → Extract Unit} : Aside p (labelWith key define) →
      (∀ l, Grows p (define l)) → Asks p (labelWith key define)
  | found {key : String} : Event.PlainKey p key → Asks p (findOrComplain key)
  | report {problem : Problem} {location : Label} : (∀ jump, problem ≠ .jumpTarget jump) →
      Asks p (reportAt problem location)
  | schedule (id : DeclId) : Asks p (schedule id)
  -- Places depend on the target, so nothing is returned that was made with one.
  | target {f : Trap.Target → Extract Unit} : (∀ target, Asks p (f target)) →
      Asks p (get >>= fun s => f s.file.target)
  | same {α : Type} {m n : Extract α} : (∀ s, m p s = n p s) → Asks p n → Asks p m

theorem aside_findOrComplain {key : String} (h : Event.PlainKey p key) :
    Aside p (findOrComplain key) := by
  apply scripted_bind (scripted_find? key)
  rintro (_ | label)
  · exact scripted_bind (scripted_complain nofun) fun _ => scripted_labelFor h
  · exact .pure label

theorem Asks.aside {m : Extract α} (h : Asks p m) : Aside p m := by
  induction h with
  | pure a => exact .pure a
  | throw e => exact .throw e
  | bind _ _ ihm ihf => exact .bind ihm ihf
  | label h _ => exact h
  | found hkey => exact aside_findOrComplain hkey
  | report h => exact scripted_reportAt h
  | schedule id => exact scripted_schedule trivial
  | target _ ih => exact .look (fun s t h => by rw [h.target]) fun _ => ih _
  | same hsame _ ih => exact .same hsame ih

/-! ## What is remembered -/

theorem bound_of_labelWith {key : String} {define : Label → Extract Unit}
    (hd : ∀ l, Grows p (define l)) {s s' : Session} {l : Label}
    (he : Ends p s (labelWith key define) l s') :
    s.Le s' ∧ s'.table.find? key = some l := by
  rcases (ends_labelWith none).mp he with ⟨hf, rfl⟩ | ⟨hf, rfl, hdef⟩
  · exact ⟨.refl s', hf⟩
  · have hlookup : s.Le ((Event.lookup key none).step s) :=
      Event.step_le (e := .lookup key none) (Scope.widest_spells s key) rfl
    have hbound : ((Event.lookup key none).step s).table.find? key =
        some (.number s.table.next) := by
      rw [Event.step_table, Event.onTable, LabelTable.find?_lookup, LabelTable.lookup, hf]
      rfl
    have hle := hd _ _ _ _ hdef
    exact ⟨hlookup.trans hle, hle.find? key _ hbound⟩

theorem bound_of_labelFor {key : String} {s s' : Session} {l : Label}
    (he : Ends p s (labelFor key) l s') : s.Le s' ∧ s'.table.find? key = some l := by
  rw [labelFor_eq] at he
  exact bound_of_labelWith (fun _ => grows_pure ()) he

theorem grows_reportAt (problem : Problem) (location : Label) :
    Grows p (reportAt problem location) :=
  grows_of_does fun s => Scope.does_reportAt (Scope.widest_knows s location)

theorem grows_complain (problem : Problem) : Grows p (complain problem) :=
  grows_of_does fun _ => Scope.does_complain problem

theorem grows_schedule (id : DeclId) : Grows p (schedule id) := by
  intro s u s' he
  obtain rfl := (ends_schedule none).mp he
  exact Event.step_le (e := .schedule id none) trivial rfl

theorem bound_of_findOrComplain {key : String} {s s' : Session} {l : Label}
    (he : Ends p s (findOrComplain key) l s') : s.Le s' ∧ s'.table.find? key = some l := by
  obtain ⟨found, t, hf, he⟩ := ends_bind.mp he
  obtain ⟨rfl, rfl⟩ := ends_find?.mp hf
  split at he
  · next label hl =>
    obtain ⟨rfl, rfl⟩ := ends_pure.mp he
    exact ⟨.refl _, hl⟩
  · obtain ⟨u, t₁, hc, hl⟩ := ends_bind.mp he
    obtain ⟨hle, hk⟩ := bound_of_labelFor hl
    exact ⟨(grows_complain _ _ _ _ hc).trans hle, hk⟩

theorem Asks.grows {m : Extract α} (h : Asks p m) : Grows p m := by
  intro s a s' he
  induction h generalizing s s' with
  | pure a =>
    obtain ⟨-, rfl⟩ := ends_pure.mp he
    exact .refl s'
  | throw e => exact absurd he ends_throw
  | bind _ _ ihm ihf =>
    obtain ⟨a, t, ha, hb⟩ := ends_bind.mp he
    exact (ihm _ _ _ ha).trans (ihf a ⟨s, t, ha⟩ _ _ _ hb)
  | label _ hd => exact (bound_of_labelWith hd he).1
  | found => exact (bound_of_findOrComplain he).1
  | report => exact grows_reportAt _ _ _ _ _ he
  | schedule id => exact grows_schedule id _ _ _ he
  | target _ ih => exact ih _ _ _ _ (ends_get_bind.mp he)
  | same hsame _ ih => exact ih _ _ _ ((hsame s).symm.trans he)

/-! ## How questions are put together -/

theorem asks_bind {m : Extract α} {f : α → Extract β} (hm : Asks p m)
    (hf : ∀ a, Asks p (f a)) : Asks p (m >>= f) := .bind hm fun a _ => hf a

theorem asks_bind_of {m : Extract α} {f : α → Extract β} {Q : α → Prop} (hm : Asks p m)
    (hq : ∀ s a s', Ends p s m a s' → Q a) (hf : ∀ a, Q a → Asks p (f a)) : Asks p (m >>= f) :=
  .bind hm fun a ⟨s, t, ha⟩ => hf a (hq s a t ha)

theorem asks_read {f : Program → Extract β} (h : Asks p (f p)) : Asks p (read >>= f) :=
  .same (n := f p) (fun _ => rfl) h

theorem asks_ite {c : Prop} [Decidable c] {m n : Extract α} (hm : Asks p m) (hn : Asks p n) :
    Asks p (if c then m else n) := by
  split
  · exact hm
  · exact hn

theorem asks_when_bind {c : Prop} [Decidable c] {m : Extract Unit} {f : Unit → Extract β}
    (hm : Asks p m) (hf : Asks p (f ())) : Asks p (if c then m >>= f else f ()) :=
  asks_ite (asks_bind hm fun _ => hf) hf

theorem asks_mapM {as : List α} {f : α → Extract β} (h : ∀ a, Asks p (f a)) :
    Asks p (as.mapM f) := by
  induction as with
  | nil =>
    rw [List.mapM_nil]
    exact .pure _
  | cons a as ih =>
    rw [List.mapM_cons]
    exact asks_bind (h a) fun b => asks_bind ih fun bs => .pure _

theorem asks_foldlM {as : List α} {f : β → α → Extract β} (h : ∀ b a, Asks p (f b a)) (b : β) :
    Asks p (as.foldlM f b) := by
  induction as generalizing b with
  | nil => exact .pure b
  | cons a as ih =>
    rw [List.foldlM_cons]
    exact asks_bind (h b a) ih

theorem asks_labelFor {key : String} (h : Event.PlainKey p key) : Asks p (labelFor key) := by
  have haside := scripted_labelFor (p := p) (R := Event.Aside p) h
  rw [labelFor_eq] at haside ⊢
  exact .label haside fun _ => grows_pure ()

theorem asks_fact {key : String} {fact : Label → Trap.Fact}
    (h : Aside p (labelWith key fun l => write (fact l))) :
    Asks p (labelWith key fun l => write (fact l)) := .label h fun l => grows_write (fact l)

/-! ## Places and problems -/

theorem asks_locationIn (file : Label) (r : Trap.Region) :
    Asks p (onFile (·.locationIn file r)) := by
  have haside := scripted_locationIn (p := p) (R := Event.Aside p) file r
  rw [locationIn_eq] at haside ⊢
  exact asks_fact haside

theorem asks_unknownLocation : Asks p unknownLocation := by
  rw [unknownLocation_eq, unknownFile_eq]
  refine asks_bind (asks_fact ?_) fun _ => asks_locationIn _ _
  exact scripted_labelWith (Or.inr ⟨"", .unknown, Or.inl rfl⟩) fun _ =>
    scripted_write (aside_fact (by decide) (by decide))

theorem asks_placeIn (target : Trap.Target) (span : Span) : Asks p (placeIn target span) := by
  unfold placeIn
  split
  · exact asks_locationIn _ _
  · apply asks_ite asks_unknownLocation
    split
    · exact asks_locationIn _ _
    · exact .throw _

theorem grows_location (span : Span) : Grows p (location span) := by
  intro s l s' he
  rw [location_eq] at he
  exact (asks_placeIn s.file.target span).grows s l s' (ends_get_bind.mp he)

theorem asks_complain {problem : Problem} (h : ∀ jump, problem ≠ .jumpTarget jump) :
    Asks p (complain problem) :=
  asks_bind asks_unknownLocation fun _ => .report h

theorem asks_complainAt {problem : Problem} (h : ∀ jump, problem ≠ .jumpTarget jump)
    (span : Span) : Asks p (complainAt problem span) := by
  have htarget : Asks p (get >>= fun s => placeIn s.file.target span >>= reportAt problem) :=
    .target (f := fun target => placeIn target span >>= reportAt problem)
      fun target => asks_bind (asks_placeIn target span) fun _ => .report h
  rw [← bind_assoc, ← location_eq] at htarget
  exact htarget

end Extract

end IrFacts
