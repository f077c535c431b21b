import IrFacts.Proofs.Files.Operations
import IrFacts.Proofs.Output.TrapOfClass
import IrFacts.Proofs.Output.TrapPlaces

/-!
# What tasks touch, and what becomes of their progress

Several properties of tasks are closed under the same ways of putting tasks
together: one task after another, the handling of a failure, a loop. What they
differ in is how the progress after a task is related to the one before, and
whether an extraction may be stopped.
-/

set_option autoImplicit false

namespace IrFacts

namespace Task

variable {α β : Type}

/-- How the progress after a task is related to the one before, and whether an extraction in the
task may be stopped. -/
structure Conduct where
  leads : Progress → Progress → Prop
  mayStop : Prop
  same {g g' : Progress} (queue : g'.queue = g.queue) (counter : g'.counter = g.counter) :
    leads g g'
  trans {g₁ g₂ g₃ : Progress} (first : leads g₁ g₂) (second : leads g₂ g₃) : leads g₁ g₃

/-- Whatever the outcome, the task touches these locations only, and its conduct is this one. -/
def Obeys (c : Conduct) (here : Location) (touched : Location → Prop) (m : Task OnDisk α) : Prop :=
  ∀ g k, k.here = here → After m g k fun r g' k' =>
    c.leads g g' ∧ Disk.Frame touched k k' ∧ ∀ stop, r = .error (.stopped stop) → c.mayStop

def MayReturn (m : Task OnDisk α) (a : α) : Prop := ∃ g k, (m.run.run g k).1.1 = .ok a

variable {c : Conduct} {here : Location} {touched : Location → Prop}

theorem Conduct.refl (c : Conduct) (g : Progress) : c.leads g g := c.same rfl rfl

theorem Obeys.mono {m : Task OnDisk α} {touched' : Location → Prop} (h : Obeys c here touched m)
    (hmore : ∀ location, touched location → touched' location) : Obeys c here touched' m := by
  intro g k hk
  obtain ⟨hleads, hframe, hstop⟩ := h g k hk
  exact ⟨hleads, hframe.mono hmore, hstop⟩

theorem Obeys.yields {m : Task OnDisk α} (h : Obeys c here touched m) {g : Progress} {k : Disk}
    (hk : k.here = here) :
    Yields m g k fun _ g' k' => c.leads g g' ∧ Disk.Frame touched k k' :=
  fun _ _ => ⟨(h g k hk).1, (h g k hk).2.1⟩

theorem obeys_pure (a : α) : Obeys c here touched (pure a) :=
  fun g _ _ => ⟨c.refl g, .refl _ _, nofun⟩

theorem obeys_throw {e : ExtractError} (h : ∀ stop, e = .stopped stop → c.mayStop) :
    Obeys c here touched (throw e : Task OnDisk α) :=
  fun g _ _ => ⟨c.refl g, .refl _ _, fun stop he => h stop (Except.error.inj he)⟩

theorem obeys_modifyGet {f : Progress → α × Progress} (h : ∀ g, c.leads g (f g).2) :
    Obeys c here touched (modifyGet f : Task OnDisk α) :=
  fun g _ _ => ⟨h g, .refl _ _, nofun⟩

theorem obeys_io {path : Path} {operation : OnDisk (Except FileError α)}
    (h : OnDisk.Frames here touched operation) : Obeys c here touched (io path operation) := by
  intro g k hk
  refine ⟨c.refl g, h k hk, fun stop he => ?_⟩
  have hr : (operation k).1.mapError (ExtractError.io path) = .error (.stopped stop) := he
  cases hop : (operation k).1 <;> rw [hop] at hr <;> cases hr

theorem obeys_tryIo {operation : OnDisk (Except FileError Unit)}
    (h : OnDisk.Frames here touched operation) : Obeys c here touched (tryIo operation) :=
  fun g k hk => ⟨c.refl g, h k hk, nofun⟩

theorem obeys_ask {question : OnDisk α} (h : OnDisk.Frames here touched question) :
    Obeys c here touched (ask question) :=
  fun g k hk => ⟨c.refl g, h k hk, nofun⟩

theorem obeys_bind {m : Task OnDisk α} {f : α → Task OnDisk β} (hm : Obeys c here touched m)
    (hf : ∀ a, m.MayReturn a → Obeys c here touched (f a)) : Obeys c here touched (m >>= f) := by
  intro g k hk
  obtain ⟨hleads, hframe, hstop⟩ := hm g k hk
  unfold After
  rw [run_bind]
  rcases hr : m.run.run g k with ⟨⟨e | a, g'⟩, k'⟩ <;> rw [hr] at hleads hframe hstop
  · exact ⟨hleads, hframe, fun stop he => hstop stop (by cases he; rfl)⟩
  · obtain ⟨hleads', hframe', hstop'⟩ := hf a ⟨g, k, by rw [hr]⟩ g' k' (hframe.here.trans hk)
    exact ⟨c.trans hleads hleads', hframe.trans hframe', hstop'⟩

theorem obeys_tryCatch {m : Task OnDisk α} {f : ExtractError → Task OnDisk α}
    (hm : Obeys c here touched m)
    (hf : ∀ e, (∀ stop, e = .stopped stop → c.mayStop) → Obeys c here touched (f e)) :
    Obeys c here touched (tryCatch m f) := by
  intro g k hk
  obtain ⟨hleads, hframe, hstop⟩ := hm g k hk
  unfold After
  rw [run_tryCatch]
  rcases hr : m.run.run g k with ⟨⟨e | a, g'⟩, k'⟩ <;> rw [hr] at hleads hframe hstop
  · obtain ⟨hleads', hframe', hstop'⟩ :=
      hf e (fun stop he => hstop stop (by rw [he])) g' k' (hframe.here.trans hk)
    exact ⟨c.trans hleads hleads', hframe.trans hframe', hstop'⟩
  · exact ⟨hleads, hframe, nofun⟩

theorem obeys_forM {as : List α} {f : α → Task OnDisk PUnit}
    (h : ∀ a ∈ as, Obeys c here touched (f a)) : Obeys c here touched (as.forM f) := by
  induction as with
  | nil => exact obeys_pure _
  | cons a as ih =>
    exact obeys_bind (h a (List.mem_cons_self ..)) fun _ _ =>
      ih fun b hb => h b (List.mem_cons_of_mem _ hb)

theorem obeys_foldlM {f : β → α → Task OnDisk β} (h : ∀ b a, Obeys c here touched (f b a))
    (as : List α) (b : β) : Obeys c here touched (as.foldlM f b) := by
  induction as generalizing b with
  | nil => exact obeys_pure _
  | cons a as ih =>
    rw [List.foldlM_cons]
    exact obeys_bind (h b a) fun b' _ => ih b'

theorem path_of_mayReturn {folder path : Path} {front back : String}
    (h : MayReturn (io folder (Files.makeTemporary folder front back)) path) :
    ∃ n, path = Disk.within folder (Disk.temporaryName front back n) := by
  obtain ⟨g, k, hr⟩ := h
  apply OnDisk.makeTemporary_path (k := k)
  have hr : (Files.makeTemporary (m := OnDisk) folder front back k).1.mapError
      (ExtractError.io folder) = .ok path := hr
  cases hm : (Files.makeTemporary (m := OnDisk) folder front back k).1 <;> rw [hm] at hr <;>
    cases hr
  rfl

theorem obeys_withTemporary {folder : Path} {front back : String} {work : Path → Task OnDisk α}
    (hfresh : ∀ n, touched
      ((Disk.within folder (Disk.temporaryName front back n)).locationFrom here))
    (hwork : ∀ n, Obeys c here touched
      (work (Disk.within folder (Disk.temporaryName front back n)))) :
    Obeys c here touched (withTemporary folder front back work) := by
  refine obeys_bind (obeys_io (OnDisk.frames_makeTemporary hfresh)) fun path hpath => ?_
  obtain ⟨n, rfl⟩ := path_of_mayReturn hpath
  exact obeys_tryCatch (hwork n) fun e he =>
    obeys_bind (obeys_tryIo (OnDisk.frames_remove (hfresh n))) fun _ _ => obeys_throw he

end Task

/-! ## Bringing the trap of a class up to date -/

namespace ClassTrap

open IrFacts.Task

variable {c : Conduct} {here : Location} {touched : Location → Prop}
variable {d : Destination} {p : Program} {id : DeclId} {t : ClassTrap}

theorem obeys_readMetadata : Obeys c here touched (t.readMetadata : Task OnDisk _) := by
  refine obeys_bind (obeys_ask (OnDisk.frames_read _)) fun r _ => ?_
  split
  · exact obeys_pure _
  · exact obeys_throw nofun
  · split
    · exact obeys_pure _
    · exact obeys_throw nofun

theorem obeys_discard (h : t.FilesIn here touched) :
    Obeys c here touched (t.discard : Task OnDisk _) := by
  refine obeys_forM fun path hpath => obeys_io (OnDisk.frames_removeIfPresent ?_)
  simp only [List.mem_cons, List.not_mem_nil, or_false] at hpath
  rcases hpath with rfl | rfl | rfl
  · exact h.trap
  · exact h.dependencies
  · exact h.metadata

theorem obeys_plan (ht : ofClass d p id = .ok t) (h : t.FilesIn here touched) :
    Obeys c here touched (plan d p id : Task OnDisk _) := by
  unfold plan
  rw [ht]
  refine obeys_bind (obeys_pure t) fun u hu => ?_
  obtain ⟨g, k, hr⟩ := hu
  obtain rfl : t = u := Except.ok.inj hr
  refine obeys_bind (obeys_ask (OnDisk.frames_present _)) fun present _ => ?_
  split
  · refine obeys_bind obeys_readMetadata fun found _ => ?_
    split
    · exact obeys_pure _
    · split
      · exact obeys_pure _
      · exact obeys_bind (obeys_discard h) fun _ _ => obeys_pure _
  · exact obeys_pure _

theorem obeys_extract (h : t.FilesIn here touched)
    (hextracting : Obeys c here touched
      (extracting p (t.writer d.invocation) (some []) (t.extraction p))) :
    Obeys c here touched (t.extract d p : Task OnDisk _) := by
  have hfresh (folder : Path) (n : Nat) : touched
      ((Disk.within folder (Disk.temporaryName "." ".trap.gz.tmp" n)).locationFrom here) :=
    h.temporary folder n (by decide)
  unfold extract
  split
  · next folder _ =>
    refine obeys_bind (obeys_io (OnDisk.frames_makeFolders _)) fun _ _ => ?_
    refine obeys_withTemporary (hfresh folder) fun n => ?_
    refine obeys_bind hextracting fun s _ => ?_
    refine obeys_bind (obeys_io (OnDisk.frames_write (hfresh folder n) _)) fun _ _ => ?_
    exact obeys_bind (obeys_io (OnDisk.frames_rename (hfresh folder n) h.trap)) fun _ _ =>
      obeys_pure _
  · exact obeys_throw nofun

theorem obeys_replaceSidecar (h : t.SidecarsIn here touched) {path : Path}
    (hpath : touched (path.locationFrom here)) (contents : String) :
    Obeys c here touched (replaceSidecar path contents : Task OnDisk _) :=
  obeys_io (OnDisk.frames_replace (fun n => h.temporary _ n (by decide)) hpath _)

theorem obeys_commit (h : t.SidecarsIn here touched) (dependencies : List DeclId) :
    Obeys c here touched (t.commit p dependencies : Task OnDisk _) :=
  obeys_bind (obeys_replaceSidecar h h.dependencies _) fun _ _ =>
    obeys_bind (obeys_replaceSidecar h h.metadata _) fun _ _ =>
      obeys_modifyGet fun _ => c.same rfl rfl

end ClassTrap

end IrFacts
