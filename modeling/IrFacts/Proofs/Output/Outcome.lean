import IrFacts.Files.Disk
import IrFacts.Output.Task
import IrFacts.Proofs.Run.Action

/-!
# Outcomes of tasks

On a modelled disk a task has one outcome: what it returns or why it failed,
the progress and the disk. What holds of the outcome is worked out from what
the task is made of, and so is what two tasks that start from different
progress have in common.
-/

set_option autoImplicit false

namespace IrFacts.Task

variable {α β : Type} {g : Progress} {k : Disk}

theorem run_bind (m : Task OnDisk α) (f : α → Task OnDisk β) (g : Progress) (k : Disk) :
    (m >>= f).run.run g k = match m.run.run g k with
      | ((.ok a, g'), k') => (f a).run.run g' k'
      | ((.error e, g'), k') => ((.error e, g'), k') := by
  simp only [ExceptT.run, StateT.run, bind, ExceptT.bind, ExceptT.mk, StateT.bind,
    ExceptT.bindCont]
  rcases m g k with ⟨⟨_ | _, _⟩, _⟩ <;> rfl

theorem run_tryCatch (m : Task OnDisk α) (f : ExtractError → Task OnDisk α) (g : Progress)
    (k : Disk) :
    (tryCatch m f).run.run g k = match m.run.run g k with
      | ((.ok a, g'), k') => ((.ok a, g'), k')
      | ((.error e, g'), k') => (f e).run.run g' k' := by
  simp only [ExceptT.run, StateT.run, tryCatch, tryCatchThe, MonadExceptOf.tryCatch,
    ExceptT.tryCatch, ExceptT.mk, bind, StateT.bind]
  rcases m g k with ⟨⟨_ | _, _⟩, _⟩ <;> rfl

theorem run_extracting (p : Program) (file : Trap.FileWriter)
    (dependencies : Option (List DeclId)) (extraction : Extract Unit) (g : Progress) (k : Disk) :
    (extracting (m := OnDisk) p file dependencies extraction).run.run g k =
      match extraction p { file, counter := g.counter, queue := g.queue, dependencies } with
      | .error stop => ((.error (.stopped stop), g), k)
      | .ok (_, s) => ((.ok s, { g with counter := s.counter, queue := s.queue }), k) := by
  simp only [extracting, ExceptT.run_mk, StateT.run, ReaderT.run]
  split <;> next h => simp [h]; rfl

theorem run_of_toOption {m : Task OnDisk α} {a : α} (h : (m.run.run g k).1.1.toOption = some a) :
    ∃ g' k', m.run.run g k = ((.ok a, g'), k') := by
  rcases hr : m.run.run g k with ⟨⟨e | b, g'⟩, k'⟩ <;> rw [hr] at h
  · cases h
  · obtain rfl : b = a := Option.some.inj h
    exact ⟨g', k', rfl⟩

theorem run_of_summary {m : Task OnDisk α} {f : Progress → β} {a : α} {b : β}
    (h : ((m.run.run g k).1.1.toOption, f (m.run.run g k).1.2) = (some a, b)) :
    ∃ g' k', m.run.run g k = ((.ok a, g'), k') ∧ f g' = b := by
  obtain ⟨houtcome, habout⟩ := Prod.mk.inj h
  obtain ⟨g', k', hrun⟩ := run_of_toOption houtcome
  rw [hrun] at habout
  exact ⟨g', k', hrun, habout⟩

/-! ## One run -/

/-- What holds after a task that starts on a disk, whether or not it fails. -/
def After (m : Task OnDisk α) (g : Progress) (k : Disk)
    (post : Except ExtractError α → Progress → Disk → Prop) : Prop :=
  post (m.run.run g k).1.1 (m.run.run g k).1.2 (m.run.run g k).2

section After

variable {P : Except ExtractError α → Progress → Disk → Prop}
variable {Q : Except ExtractError β → Progress → Disk → Prop}

theorem After.mono {m : Task OnDisk α} {P' : Except ExtractError α → Progress → Disk → Prop}
    (h : After m g k P) (hP : ∀ r g' k', P r g' k' → P' r g' k') : After m g k P' := hP _ _ _ h

theorem After.of_run {m : Task OnDisk α} (h : After m g k P) {r : Except ExtractError α}
    {g' : Progress} {k' : Disk} (hrun : m.run.run g k = ((r, g'), k')) : P r g' k' := by
  unfold After at h
  rwa [hrun] at h

theorem after_bind (m : Task OnDisk α) (f : α → Task OnDisk β) :
    After (m >>= f) g k Q ↔ After m g k fun r g' k' => match r with
      | .ok a => After (f a) g' k' Q
      | .error e => Q (.error e) g' k' := by
  unfold After
  rw [run_bind]
  rcases m.run.run g k with ⟨⟨_ | _, _⟩, _⟩ <;> rfl

theorem after_tryCatch (m : Task OnDisk α) (f : ExtractError → Task OnDisk α) :
    After (tryCatch m f) g k P ↔ After m g k fun r g' k' => match r with
      | .ok a => P (.ok a) g' k'
      | .error e => After (f e) g' k' P := by
  unfold After
  rw [run_tryCatch]
  rcases m.run.run g k with ⟨⟨_ | _, _⟩, _⟩ <;> rfl

end After

/-- What holds after a task if it does not fail. -/
def Yields (m : Task OnDisk α) (g : Progress) (k : Disk)
    (post : α → Progress → Disk → Prop) : Prop :=
  After m g k fun r g' k' => ∀ a, r = .ok a → post a g' k'

section Yields

variable {P : α → Progress → Disk → Prop} {Q : β → Progress → Disk → Prop}

theorem Yields.mono {m : Task OnDisk α} {P' : α → Progress → Disk → Prop}
    (h : Yields m g k P) (hP : ∀ a g' k', P a g' k' → P' a g' k') : Yields m g k P' :=
  fun a ha => hP a _ _ (h a ha)

theorem Yields.of_run {m : Task OnDisk α} (h : Yields m g k P) {a : α} {g' : Progress} {k' : Disk}
    (hrun : m.run.run g k = ((.ok a, g'), k')) : P a g' k' := by
  have hpost := h a (by rw [hrun])
  rwa [hrun] at hpost

theorem yields_pure {a : α} (h : P a g k) : Yields (pure a : Task OnDisk α) g k P := by
  rintro _ ⟨⟩
  exact h

theorem yields_throw (e : ExtractError) : Yields (throw e : Task OnDisk α) g k P := nofun

theorem yields_bind {m : Task OnDisk α} {f : α → Task OnDisk β}
    (h : Yields m g k fun a g' k' => Yields (f a) g' k' Q) : Yields (m >>= f) g k Q := by
  unfold Yields
  rw [after_bind]
  refine After.mono h ?_
  rintro (e | a) g' k' ha
  · exact nofun
  · exact ha a rfl

theorem yields_io {path : Path} {operation : OnDisk (Except FileError α)}
    (h : ∀ a, (operation k).1 = .ok a → P a g (operation k).2) :
    Yields (io path operation) g k P := by
  intro a ha
  apply h
  have hr : (operation k).1.mapError (ExtractError.io path) = .ok a := ha
  cases hop : (operation k).1 with
  | error e =>
    rw [hop] at hr
    cases hr
  | ok b =>
    rw [hop] at hr
    cases hr
    rfl

theorem yields_ask {question : OnDisk α} (h : P (question k).1 g (question k).2) :
    Yields (ask question) g k P := by
  rintro _ ⟨⟩
  exact h

theorem yields_modify {P : PUnit → Progress → Disk → Prop} {f : Progress → Progress}
    (h : P ⟨⟩ (f g) k) : Yields (modify f : Task OnDisk PUnit) g k P := by
  rintro _ ⟨⟩
  exact h

theorem yields_extracting {p : Program} {file : Trap.FileWriter}
    {dependencies : Option (List DeclId)} {extraction : Extract Unit}
    {P : Session → Progress → Disk → Prop}
    (h : ∀ s, Extract.Ends p { file, counter := g.counter, queue := g.queue, dependencies }
      extraction () s → P s { g with counter := s.counter, queue := s.queue } k) :
    Yields (extracting p file dependencies extraction) g k P := by
  unfold Yields After
  rw [run_extracting]
  unfold Extract.Ends at h
  split
  · exact nofun
  · next hs =>
    rintro _ ⟨⟩
    exact h _ hs

theorem yields_withTemporary {folder : Path} {front back : String} {work : Path → Task OnDisk α}
    (h : ∀ path, (Files.makeTemporary (m := OnDisk) folder front back k).1 = .ok path →
      Yields (work path) g (Files.makeTemporary (m := OnDisk) folder front back k).2 P) :
    Yields (withTemporary folder front back work) g k P := by
  refine yields_bind (yields_io fun path hpath => ?_)
  unfold Yields
  rw [after_tryCatch]
  refine After.mono (h path hpath) ?_
  rintro (e | a) g' k' ha
  · exact nofun
  · exact ha

end Yields

/-! ## Two runs -/

/-- From related progress the tasks do the same: they return the same or fail
alike, and they leave the same disk behind. -/
def Agree (R : Progress → Progress → Prop) (m n : Task OnDisk α) : Prop :=
  ∀ g h, R g h → ∀ k, After m g k fun r g' k' => After n h k fun q h' l' =>
    r = q ∧ k' = l' ∧ R g' h'

variable {R : Progress → Progress → Prop}

theorem agree_pure (a : α) : Agree R (pure a : Task OnDisk α) (pure a) :=
  fun _ _ h _ => ⟨rfl, rfl, h⟩

theorem agree_throw (e : ExtractError) : Agree R (throw e : Task OnDisk α) (throw e) :=
  fun _ _ h _ => ⟨rfl, rfl, h⟩

theorem agree_io (path : Path) (operation : OnDisk (Except FileError α)) :
    Agree R (io path operation) (io path operation) := fun _ _ h _ => ⟨rfl, rfl, h⟩

theorem agree_tryIo (operation : OnDisk (Except FileError Unit)) :
    Agree R (tryIo operation) (tryIo operation) := fun _ _ h _ => ⟨rfl, rfl, h⟩

theorem agree_bind {m n : Task OnDisk α} {f f' : α → Task OnDisk β} (hm : Agree R m n)
    (hf : ∀ a, Agree R (f a) (f' a)) : Agree R (m >>= f) (n >>= f') := by
  intro g h hgh k
  obtain ⟨hr, hk, hgh'⟩ := hm g h hgh k
  unfold After
  rw [run_bind, run_bind]
  generalize m.run.run g k = x, n.run.run h k = y at hr hk hgh' ⊢
  rcases x with ⟨⟨_ | a, g'⟩, k'⟩ <;> rcases y with ⟨⟨_ | _, h'⟩, _⟩ <;> cases hr <;> cases hk
  · exact ⟨rfl, rfl, hgh'⟩
  · exact hf a g' h' hgh' k'

theorem agree_tryCatch {m n : Task OnDisk α} {f f' : ExtractError → Task OnDisk α}
    (hm : Agree R m n) (hf : ∀ e, Agree R (f e) (f' e)) :
    Agree R (tryCatch m f) (tryCatch n f') := by
  intro g h hgh k
  obtain ⟨hr, hk, hgh'⟩ := hm g h hgh k
  unfold After
  rw [run_tryCatch, run_tryCatch]
  generalize m.run.run g k = x, n.run.run h k = y at hr hk hgh' ⊢
  rcases x with ⟨⟨e | _, g'⟩, k'⟩ <;> rcases y with ⟨⟨_ | _, h'⟩, _⟩ <;> cases hr <;> cases hk
  · exact hf e g' h' hgh' k'
  · exact ⟨rfl, rfl, hgh'⟩

theorem agree_withTemporary {folder : Path} {front back : String}
    {work work' : Path → Task OnDisk α}
    (h : ∀ path, Agree R (work path) (work' path)) :
    Agree R (withTemporary folder front back work) (withTemporary folder front back work') :=
  agree_bind (agree_io _ _) fun path => agree_tryCatch (h path) fun _ =>
    agree_bind (agree_tryIo _) fun _ => agree_throw _

end IrFacts.Task
