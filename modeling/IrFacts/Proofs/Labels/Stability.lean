import IrFacts.Proofs.Run.AskedProjection

/-!
# References are stable

A reference that was answered once is answered in the same way ever after, and
asking again leaves nothing behind but diagnostics. The first answer binds
every key and schedules every class that it needs, a session only grows, and
so all of them are found when the reference is asked again.
-/

set_option autoImplicit false

namespace IrFacts

namespace Session

/-- Nothing but diagnostics was written between `s` and `t`. -/
structure Quiet (s t : Session) : Prop where
  table : t.table = s.table
  target : t.file.target = s.file.target
  queue : t.queue = s.queue
  dependencies : t.dependencies = s.dependencies
  locals : t.locals = s.locals
  openLoops : t.openLoops = s.openLoops
  currentFunction : t.currentFunction = s.currentFunction
  lines : ∃ ls, s.Wrote t ls ∧ ∀ l ∈ ls, ∃ f, l = .fact f ∧ f.relation = "diagnostics"

theorem Quiet.refl (s : Session) : s.Quiet s :=
  ⟨rfl, rfl, rfl, rfl, rfl, rfl, rfl, [], wrote_nil rfl, by simp⟩

theorem Quiet.trans {s t u : Session} (h : s.Quiet t) (k : t.Quiet u) : s.Quiet u := by
  obtain ⟨ls, hls, hd⟩ := h.lines
  obtain ⟨ms, hms, kd⟩ := k.lines
  refine ⟨k.table.trans h.table, k.target.trans h.target, k.queue.trans h.queue,
    k.dependencies.trans h.dependencies, k.locals.trans h.locals, k.openLoops.trans h.openLoops,
    k.currentFunction.trans h.currentFunction, ls ++ ms, hls.trans hms, fun l hl => ?_⟩
  rcases List.mem_append.mp hl with hl | hl
  · exact hd l hl
  · exact kd l hl

theorem Quiet.le {s t : Session} (h : s.Quiet t) : s.Le t :=
  ⟨fun _ _ hl => by rw [h.table, hl], fun _ _ hl => by rw [h.locals, hl],
    fun _ hid => by rw [h.queue]; exact hid,
    fun _ hid => by unfold Depends; rw [h.dependencies]; exact hid, h.target⟩

end Session

namespace Extract

variable {α : Type} {p : Program} {π : Projection}

/-- A problem is reported each time, if its site still has something to say. -/
theorem quiet_report (p : Program) (problem : Problem) (location : Label) (t : Session) :
    ∃ t', Ends p t (reportAt problem location) () t' ∧ t.Quiet t' := by
  refine ⟨_, ends_reportAt.mpr rfl, Event.step_table _ _, rfl, rfl, rfl, rfl, rfl, rfl, _,
    Event.step_wrote _ _, fun l hl => ?_⟩
  simp only [Event.lines, Event.diagnostic] at hl
  split at hl
  · cases hl
  · exact ⟨_, List.mem_singleton.mp hl, rfl⟩
  · exact ⟨_, List.mem_singleton.mp hl, rfl⟩

theorem quiet_schedule {id : DeclId} {s s' t : Session} {u : Unit}
    (he : Ends p s (schedule id) u s') (ht : s'.Le t) : Ends p t (schedule id) u t := by
  refine (ends_schedule none).mpr ?_
  obtain rfl := (ends_schedule none).mp he
  have haccepted := ht.accepted id (Session.accepted_schedule.mpr (Or.inr rfl))
  have hdepends := ht.depends id (Session.depends_schedule (Or.inr rfl))
  have hdependencies : (t.dependencies.map fun ids => if id ∈ ids then ids else ids ++ [id]) =
      t.dependencies := by
    cases hd : t.dependencies with
    | none => rfl
    | some ids => rw [Option.map_some, if_pos (hdepends ids hd)]
  simp only [Event.step, hdependencies, ClassQueue.schedule, if_pos haccepted]

theorem ends_labelWith_again {key : String} {define : Label → Extract Unit}
    (hd : ∀ l, Grows p (define l)) {s s' t : Session} {l : Label}
    (he : Ends p s (labelWith key define) l s') (ht : s'.Le t) :
    Ends p t (labelWith key define) l t :=
  (ends_labelWith none).mpr (Or.inl ⟨ht.find? key l (bound_of_labelWith hd he).2, rfl⟩)

theorem ends_findOrComplain_again {key : String} {s s' t : Session} {l : Label}
    (he : Ends p s (findOrComplain key) l s') (ht : s'.Le t) :
    Ends p t (findOrComplain key) l t := by
  have hk := ht.find? key l (bound_of_findOrComplain he).2
  exact ends_bind.mpr ⟨some l, t, ends_find?.mpr ⟨hk.symm, rfl⟩, ends_pure.mpr ⟨rfl, rfl⟩⟩

/-- Once a question has been answered, it is answered alike and quietly in every session that
knows what was known then. By induction on how the question is put together. -/
theorem Asks.again {m : Extract α} (h : Asks p m) {s s' t : Session} {a : α}
    (he : Ends p s m a s') (ht : s'.Le t) : ∃ t', Ends p t m a t' ∧ t.Quiet t' := by
  induction h generalizing s s' t with
  | pure a =>
    obtain ⟨rfl, -⟩ := ends_pure.mp he
    exact ⟨t, ends_pure.mpr ⟨rfl, rfl⟩, .refl t⟩
  | throw e => exact absurd he ends_throw
  | bind hm hf ihm ihf =>
    obtain ⟨a, s₁, ha, hb⟩ := ends_bind.mp he
    have hs₁ : s₁.Le t := ((hf a ⟨s, s₁, ha⟩).grows s₁ _ s' hb).trans ht
    obtain ⟨t₁, ha₁, hq₁⟩ := ihm ha hs₁
    obtain ⟨t₂, hb₂, hq₂⟩ := ihf a ⟨s, s₁, ha⟩ hb (ht.trans hq₁.le)
    exact ⟨t₂, ends_bind.mpr ⟨a, t₁, ha₁, hb₂⟩, hq₁.trans hq₂⟩
  | label _ hd => exact ⟨t, ends_labelWith_again hd he ht, .refl t⟩
  | found => exact ⟨t, ends_findOrComplain_again he ht, .refl t⟩
  | report => exact quiet_report p _ _ t
  | schedule id => exact ⟨t, quiet_schedule he ht, .refl t⟩
  | target hf ih =>
    have hb := ends_get_bind.mp he
    have htarget : t.file.target = s.file.target :=
      ht.target.trans ((hf _).grows s _ s' hb).target
    obtain ⟨t', hb', hq⟩ := ih _ hb ht
    exact ⟨t', ends_get_bind.mpr (by rw [htarget]; exact hb'), hq⟩
  | same hsame _ ih =>
    obtain ⟨t', hb, hq⟩ := ih ((hsame s).symm.trans he) ht
    exact ⟨t', (hsame t).trans hb, hq⟩

/-- A variable keeps its label, though no key is bound to it. -/
theorem ends_localVariable_again {id : DeclId} {s s' t : Session} {l : Label}
    (he : Ends p s (Projection.localVariable id) l s') (ht : s'.Le t) :
    Ends p t (Projection.localVariable id) l t := by
  have hlocal : s'.locals.lookup id = some l := by
    rcases Scope.ends_localVariable.mp he with ⟨hl, rfl⟩ | ⟨-, rfl, rfl⟩
    · exact hl
    · simp [Event.run, Event.step]
  exact Scope.ends_localVariable.mpr (Or.inl ⟨ht.locals id l hlocal, rfl⟩)

theorem ends_ask_again (hπ : Stable p π) {r : Reference} {s s' t : Session} {a : Answer}
    (he : Ends p s (r.ask π) a s') (ht : s'.Le t) : ∃ t', Ends p t (r.ask π) a t' ∧ t.Quiet t' := by
  by_cases hr : ∃ id, r = .localVariable id
  · obtain ⟨id, rfl⟩ := hr
    obtain ⟨l, s₁, hl, hpure⟩ := ends_bind.mp he
    obtain ⟨rfl, rfl⟩ := ends_pure.mp hpure
    exact ⟨t, ends_bind.mpr ⟨l, t, ends_localVariable_again hl ht, ends_pure.mpr ⟨rfl, rfl⟩⟩,
      .refl t⟩
  · exact (asks_ask hπ fun id hid => hr ⟨id, hid⟩).again he ht

end Extract

namespace Operation

open Extract

variable {p : Program}

theorem grows_perform (typeFuel walkFuel : Nat) (op : Operation) :
    Grows p (op.perform (walk (projection typeFuel) walkFuel)) := by
  refine grows_of_does fun s => Scope.does_perform Scope.widest_writesCode rfl
    (Scope.widest_allows p) (Scope.widest_coversWalk p typeFuel walkFuel) ?_
  cases op with
  | refer r => trivial
  | file id => trivial
  | classSource id => trivial
  | typeAlias id => trivial
  | statement callable parent index code => exact ⟨Or.inl trivial, Or.inl trivial⟩
  | expression callable slot e => exact ⟨Or.inl trivial, Or.inl trivial⟩
  | _ => exact Or.inl trivial

def run (w : Walk) (ops : List Operation) : Extract Unit := ops.forM fun op => op.perform w

theorem grows_run (typeFuel walkFuel : Nat) (ops : List Operation) :
    Grows p (run (walk (projection typeFuel) walkFuel) ops) := by
  induction ops with
  | nil => exact grows_pure ()
  | cons op ops ih => exact grows_bind (grows_perform typeFuel walkFuel op) fun _ => ih

/-- A reference that was answered is answered in the same way after any other
operations, and nothing is written then but diagnostics. -/
theorem ask_again (typeFuel walkFuel : Nat) {r : Reference} {a : Answer} {ops : List Operation}
    {s s₁ s₂ : Session} (hfirst : Ends p s (r.ask (projection typeFuel)) a s₁)
    (hops : Ends p s₁ (run (walk (projection typeFuel) walkFuel) ops) () s₂) :
    ∃ s₃, Ends p s₂ (r.ask (projection typeFuel)) a s₃ ∧ s₂.Quiet s₃ :=
  ends_ask_again (stable_projection p typeFuel) hfirst
    (grows_run typeFuel walkFuel ops s₁ () s₂ hops)

/-- A class from outside, of which a type is projected. -/
def boxes : Program :=
  { files := #[]
    declarations := #[{ parent := .package "lib", origin := .externalStub
                        kind := .class { name := "Box" } }]
    classIndex := [("lib.Box", ⟨0⟩)] }

theorem ask_again_boxes : ∃ a s₁ s₂ s₃,
    let box : Reference := .type (.ofClass ⟨0⟩ [.projection .covariant (.ofClass ⟨0⟩ [])])
    Ends boxes { file := .source (.ofSink .unbounded) "a.kt" .single, counter := {}, queue := {} }
      (box.ask (projection 8)) a s₁ ∧
    Ends boxes s₁ (run (walk (projection 8) 8) [.classSource ⟨0⟩]) () s₂ ∧
    Ends boxes s₂ (box.ask (projection 8)) a s₃ ∧ s₂.Quiet s₃ := by
  obtain ⟨_, s₂, h⟩ := ends_of_isOk (p := boxes)
    (s := { file := .source (.ofSink .unbounded) "a.kt" .single, counter := {}, queue := {} })
    (m := Reference.ask (projection 8)
        (.type (.ofClass ⟨0⟩ [.projection .covariant (.ofClass ⟨0⟩ [])])) >>= fun _ =>
      run (walk (projection 8) 8) [.classSource ⟨0⟩]) (by decide +kernel)
  obtain ⟨a, s₁, hfirst, hops⟩ := ends_bind.mp h
  obtain ⟨s₃, hagain, hquiet⟩ := ask_again 8 8 hfirst hops
  exact ⟨a, s₁, s₂, s₃, hfirst, hops, hagain, hquiet⟩

end Operation

end IrFacts
