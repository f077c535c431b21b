import IrFacts.Output.ClassTrap
import IrFacts.Proofs.Output.Outcome
import IrFacts.Proofs.Run.Growth
import IrFacts.Proofs.Run.Oblivious
import IrFacts.Proofs.Run.ScriptedCode

/-!
# A class trap depends on the program and the class

While a drain goes on, the queue and the counts are shared by all classes. What
was scheduled or counted before does not show in the trap of a class, as long
as diagnostics are unlimited, nor in the list of the classes that it refers to.
-/

set_option autoImplicit false

namespace IrFacts

namespace Session

/-- The same trap in the making, after whatever was scheduled and counted. -/
structure SameTrap (s t : Session) : Prop extends s.Resembles t where
  file : s.file = t.file
  dependencies : s.dependencies = t.dependencies
  unlimited : s.counter.limit = 0 ∧ t.counter.limit = 0

theorem report_unlimited {c : Counter} (hc : c.limit = 0) (w : Trap.Writer) (problem : Problem)
    (location : Label) :
    (c.report w problem.site problem.severity problem.message location).1.limit = 0 ∧
      (c.report w problem.site problem.severity problem.message location).2 =
        w.fact (.diagnostics .star Trap.diagnosticSource problem.severity.code "" problem.message
          problem.message location) := by
  rw [Event.report_eq]
  simp [Event.diagnostic, Counter.accept, hc, Trap.Writer.fact]

theorem file_step (e : Event) {s t : Session} (h : s.SameTrap t) :
    (e.step s).file = (e.step t).file := by
  cases e with
  | report problem location =>
    have hs := report_unlimited h.unlimited.1 s.file.writer problem location
    have ht := report_unlimited h.unlimited.2 t.file.writer problem location
    simp only [Event.step, hs.2, ht.2]
    rw [h.file]
  | _ => first | exact h.file | simp only [Event.step, mapWriter, h.file]

theorem limit_step (e : Event) {s : Session} (h : s.counter.limit = 0) :
    (e.step s).counter.limit = 0 := by
  cases e with
  | report problem location => exact (report_unlimited h s.file.writer problem location).1
  | _ => exact h

theorem sameTrap_blind : Blind SameTrap where
  resembles h := h.toResembles
  step e h :=
    { toResembles := e.resembles_step h.toResembles
      file := file_step e h
      dependencies := e.dependencies_step h.dependencies
      unlimited := ⟨limit_step e h.unlimited.1, limit_step e h.unlimited.2⟩ }

/-- The classes that an extraction refers to are collected once each, and they
are all that it adds to a queue that had accepted `before`. -/
def Collects (before : List DeclId) (s : Session) : Prop :=
  ∃ ids, s.dependencies = some ids ∧ ids.Nodup ∧
    ∀ id, id ∈ s.queue.accepted ↔ id ∈ before ∨ id ∈ ids

theorem collects_step {before : List DeclId} (e : Event) (s : Session) (h : s.Collects before) :
    (e.step s).Collects before := by
  obtain ⟨ids, hids, hnodup, hqueue⟩ := h
  cases e with
  | schedule id f =>
    by_cases hid : id ∈ ids
    · refine ⟨ids, by simp [Event.step, hids, hid], hnodup, fun other => ?_⟩
      rw [accepted_schedule, hqueue]
      exact ⟨fun ho => ho.elim (fun ho => ho) fun he => .inr (he ▸ hid), Or.inl⟩
    · refine ⟨ids ++ [id], by simp [Event.step, hids, hid], ?_, fun other => ?_⟩
      · refine List.nodup_append.mpr ⟨hnodup, by simp, ?_⟩
        rintro a ha b hb rfl
        exact hid (List.mem_singleton.mp hb ▸ ha)
      · rw [accepted_schedule, hqueue, List.mem_append, List.mem_singleton]
        exact or_assoc
  | _ => exact ⟨ids, hids, hnodup, hqueue⟩

end Session

namespace Task

/-- No diagnostic of either run is kept back. -/
def Unlimited (g h : Progress) : Prop := g.counter.limit = 0 ∧ h.counter.limit = 0

theorem agree_extracting {β : Type} {p : Program} {extraction : Extract Unit}
    (he : Extract.Oblivious p extraction) (file : Trap.FileWriter)
    (dependencies : Option (List DeclId)) {f : Session → Task OnDisk β}
    (hf : ∀ s t, s.SameTrap t → Agree Unlimited (f s) (f t)) :
    Agree Unlimited (extracting p file dependencies extraction >>= f)
      (extracting p file dependencies extraction >>= f) := by
  intro g h hgh k
  have hends := he _ Session.sameTrap_blind
    { file, counter := g.counter, queue := g.queue, dependencies }
    { file, counter := h.counter, queue := h.queue, dependencies }
    ⟨⟨rfl, rfl, rfl, rfl, rfl⟩, rfl, rfl, hgh⟩
  unfold After
  rw [run_bind, run_bind, run_extracting, run_extracting]
  generalize extraction p { file, counter := g.counter, queue := g.queue, dependencies } = x,
    extraction p { file, counter := h.counter, queue := h.queue, dependencies } = y at hends ⊢
  cases hends with
  | stopped stop => exact ⟨rfl, rfl, hgh⟩
  | @ended _ s t hsame =>
    exact hf s t hsame { g with counter := s.counter, queue := s.queue }
      { h with counter := t.counter, queue := t.queue } hsame.unlimited k

end Task

namespace ClassTrap

open IrFacts.Task

variable (t : ClassTrap) (d : Destination) (p : Program)

def extraction : Extract Unit := do
  let _ ← p.walk.classDeclaration t.id

theorem oblivious_extraction : Extract.Oblivious p (t.extraction p) :=
  have hwalk := Extract.plain_classDeclaration (Extract.keepsPlain_walk p p.fuel p.fuel) t.id
  Extract.oblivious_bind hwalk.oblivious fun _ _ => Extract.oblivious_pure _

/-- The session in which a class is extracted, after what was counted and
scheduled so far. -/
def session (g : Progress) : Session :=
  { file := t.writer d.invocation, counter := g.counter, queue := g.queue
    dependencies := some [] }

theorem collects_of_extraction {g : Progress} {s : Session}
    (h : Extract.Ends p (t.session d g) (t.extraction p) () s) :
    s.Collects g.queue.accepted :=
  (oblivious_extraction t p).keeps Session.collects_step ⟨[], rfl, .nil, by simp [session]⟩ h

theorem agree_extract : Agree Unlimited (t.extract d p : Task OnDisk _) (t.extract d p) := by
  unfold extract
  cases t.trap.parent? with
  | none => exact agree_throw _
  | some folder =>
    refine agree_bind (agree_io _ _) fun _ => agree_withTemporary fun temporary => ?_
    refine agree_extracting (oblivious_extraction t p) _ _ fun s u h => ?_
    rw [h.file, h.dependencies]
    exact agree_bind (agree_io _ _) fun _ => agree_bind (agree_io _ _) fun _ => agree_pure _

theorem extract_yields (g : Progress) (k : Disk) :
    Yields (t.extract d p) g k fun ids g' _ =>
      ∃ s, Extract.Ends p (t.session d g) (t.extraction p) () s ∧
        ids = s.dependencies.getD [] ∧ g'.queue = s.queue := by
  unfold extract
  cases t.trap.parent? with
  | none => exact yields_throw _
  | some folder =>
    refine yields_bind (yields_io fun _ _ => yields_withTemporary fun temporary _ => ?_)
    refine yields_bind (yields_extracting fun s hs => ?_)
    refine yields_bind (yields_io fun _ _ => yields_bind (yields_io fun _ _ => yields_pure ?_))
    exact ⟨s, hs, rfl, rfl⟩

/-- The classes that a class trap refers to are collected once each, and they
include all that its extraction adds to the queue. -/
theorem extract_collects (g : Progress) (k : Disk) :
    Yields (t.extract d p) g k fun ids g' _ =>
      ids.Nodup ∧ ∀ id, id ∈ g'.queue.accepted ↔ id ∈ g.queue.accepted ∨ id ∈ ids := by
  refine (extract_yields t d p g k).mono ?_
  rintro _ g' _ ⟨s, hs, rfl, hqueue⟩
  obtain ⟨ids, hids, hnodup, haccepted⟩ := collects_of_extraction t d p hs
  rw [hids, hqueue]
  exact ⟨hnodup, haccepted⟩

/-- The trap of a class, the list of the classes that it refers to and all else
that its extraction does to the disk are the same whatever was scheduled and
counted before. The list has no duplicates and contains every class that is
new in the queue. -/
theorem extract_indifferent {g h : Progress} (hg : g.counter.limit = 0)
    (hh : h.counter.limit = 0) (k : Disk) :
    After (t.extract d p) g k fun r g' k' =>
      After (t.extract d p) h k (fun q _ l' => r = q ∧ k' = l') ∧
      ∀ ids, r = .ok ids →
        ids.Nodup ∧ ∀ id ∈ g'.queue.accepted, id ∉ g.queue.accepted → id ∈ ids := by
  have hsame : _ ∧ _ ∧ _ := agree_extract t d p g h ⟨hg, hh⟩ k
  refine ⟨And.intro hsame.1 hsame.2.1, ?_⟩
  intro ids hids
  obtain ⟨hnodup, hqueue⟩ := extract_collects t d p g k ids hids
  exact ⟨hnodup, fun id hid hnew => ((hqueue id).mp hid).resolve_left hnew⟩

/-- Two interfaces from outside that extend each other. -/
def mutualPair : Program :=
  let face (name : String) (extended : DeclId) : Declaration :=
    { parent := .package "lib", origin := .externalStub
      kind := .class { name, kind := .interface, superTypes := [.ofClass extended []] } }
  { files := #[], declarations := #[face "A" ⟨1⟩, face "B" ⟨0⟩]
    classIndex := [("lib.A", ⟨0⟩), ("lib.B", ⟨1⟩)] }

def trapOfA : ClassTrap :=
  { id := ⟨0⟩, trap := ⟨"trap/classes/lib/A.members.trap.gz"⟩
    dependencies := ⟨"trap/classes/lib/A.members.dep"⟩
    metadata := ⟨"trap/classes/lib/A.members.metadata"⟩
    fingerprint := "0", binaryPath := "/lib/A.class" }

/-- Progress in which the other interface is known already, or is not. -/
def unlimitedProgress (accepted : List DeclId) : Progress :=
  { counter := { counts := [("types", accepted.length)], limit := 0 }, queue := { accepted } }

/-- The other interface is listed, whether or not it is new in the queue. -/
theorem extract_indifferent_mutualPair :
    let d : Destination := ⟨⟨"trap"⟩, "inv"⟩
    let k : Disk := .ofFolder ["home"]
    let g := unlimitedProgress [⟨1⟩]
    let h := unlimitedProgress []
    g.counter.limit = 0 ∧ h.counter.limit = 0 ∧
    ((trapOfA.extract d mutualPair : Task OnDisk _).run.run g k).1.1.toOption = some [⟨1⟩] ∧
    After (trapOfA.extract d mutualPair) g k fun r g' k' =>
      After (trapOfA.extract d mutualPair) h k (fun q _ l' => r = q ∧ k' = l') ∧
      ∀ ids, r = .ok ids →
        ids.Nodup ∧ ∀ id ∈ g'.queue.accepted, id ∉ g.queue.accepted → id ∈ ids := by
  intro d k g h
  exact ⟨rfl, rfl, by decide +kernel, extract_indifferent trapOfA d mutualPair rfl rfl k⟩

end ClassTrap

end IrFacts
