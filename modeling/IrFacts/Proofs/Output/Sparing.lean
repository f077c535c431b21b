import IrFacts.Proofs.Files.Spares
import IrFacts.Proofs.Output.Confined

/-!
# Tasks that spare files

Everything that a class leaves on the disk is written into a temporary file
first and moved to its place then. So bringing class traps up to date changes
no file that is kept, and it takes no more than room for the files of the classes.
-/

set_option autoImplicit false

namespace IrFacts

namespace Task

variable {α β : Type} {here : Location} {kept : Nat → Prop} {touched made : Location → Prop}
variable {g : Progress} {k : Disk}

/-- Whatever the outcome, what is done from here on spares the files that are kept, and other
places. -/
def Spares (kept : Nat → Prop) (touched made : Location → Prop) (m : Task OnDisk α) (g : Progress)
    (k : Disk) : Prop :=
  After m g k fun _ _ l => Disk.Spares kept touched made k l

/-- Wherever the task starts it spares the files that are kept, and other places. -/
def Sparing (here : Location) (kept : Nat → Prop) (touched made : Location → Prop)
    (m : Task OnDisk α) : Prop :=
  ∀ g k, k.Ready here kept → Spares kept touched made m g k

theorem spares_pure (a : α) : Spares kept touched made (pure a) g k := .refl ..

theorem spares_throw (e : ExtractError) :
    Spares kept touched made (throw e : Task OnDisk α) g k := .refl ..

theorem spares_bind {m : Task OnDisk α} {f : α → Task OnDisk β}
    (hm : Spares kept touched made m g k)
    (hf : ∀ a g' l, m.run.run g k = ((.ok a, g'), l) → Disk.Spares kept touched made k l →
      Spares kept touched made (f a) g' l) : Spares kept touched made (m >>= f) g k := by
  unfold Spares After at hm ⊢
  rw [run_bind]
  rcases hr : m.run.run g k with ⟨⟨e | a, g'⟩, l⟩ <;> rw [hr] at hm
  · exact hm
  · exact hm.trans (hf a g' l hr hm)

theorem spares_tryCatch {m : Task OnDisk α} {f : ExtractError → Task OnDisk α}
    (hm : Spares kept touched made m g k)
    (hf : ∀ e g' l, Disk.Spares kept touched made k l → Spares kept touched made (f e) g' l) :
    Spares kept touched made (tryCatch m f) g k := by
  unfold Spares After at hm ⊢
  rw [run_tryCatch]
  rcases hr : m.run.run g k with ⟨⟨e | a, g'⟩, l⟩ <;> rw [hr] at hm
  · exact hm.trans (hf e g' l hm)
  · exact hm

theorem run_operation (path : Path) (operation : OnDisk (Except FileError α)) (g : Progress)
    (k : Disk) :
    (io path operation).run.run g k =
      (((operation k).1.mapError (.io path), g), (operation k).2) := rfl

theorem run_ask (question : OnDisk α) (g : Progress) (k : Disk) :
    (ask question).run.run g k = ((.ok (question k).1, g), (question k).2) := rfl

theorem of_run_ask {question : OnDisk α} {a : α} {g' : Progress} {l : Disk}
    (h : (ask question).run.run g k = ((.ok a, g'), l)) :
    a = (question k).1 ∧ g' = g ∧ l = (question k).2 := by
  rw [run_ask] at h
  obtain ⟨hleft, hdisk⟩ := Prod.mk.inj h
  obtain ⟨hanswer, hprogress⟩ := Prod.mk.inj hleft
  exact ⟨(Except.ok.inj hanswer).symm, hprogress.symm, hdisk.symm⟩

theorem disk_of_extracting {p : Program} {file : Trap.FileWriter}
    {dependencies : Option (List DeclId)} {extraction : Extract Unit} {s : Session}
    {g' : Progress} {l : Disk}
    (h : (extracting (m := OnDisk) p file dependencies extraction).run.run g k =
      ((.ok s, g'), l)) : l = k := by
  rw [run_extracting] at h
  split at h <;> cases h
  rfl

theorem spares_io {path : Path} {operation : OnDisk (Except FileError α)}
    (h : Disk.Spares kept touched made k (operation k).2) :
    Spares kept touched made (io path operation) g k := h

theorem sparing_pure (a : α) : Sparing here kept touched made (pure a : Task OnDisk α) :=
  fun _ _ _ => spares_pure a

theorem sparing_throw (e : ExtractError) :
    Sparing here kept touched made (throw e : Task OnDisk α) := fun _ _ _ => spares_throw e

theorem sparing_bind {m : Task OnDisk α} {f : α → Task OnDisk β}
    (hm : Sparing here kept touched made m) (hf : ∀ a, Sparing here kept touched made (f a)) :
    Sparing here kept touched made (m >>= f) := fun g k hk =>
  spares_bind (hm g k hk) fun a g' l _ h => hf a g' l (hk.spared h)

theorem sparing_tryCatch {m : Task OnDisk α} {f : ExtractError → Task OnDisk α}
    (hm : Sparing here kept touched made m) (hf : ∀ e, Sparing here kept touched made (f e)) :
    Sparing here kept touched made (tryCatch m f) := fun g k hk =>
  spares_tryCatch (hm g k hk) fun e g' l h => hf e g' l (hk.spared h)

theorem sparing_io {path : Path} {operation : OnDisk (Except FileError α)}
    (h : OnDisk.Sparing here kept touched made operation) :
    Sparing here kept touched made (io path operation) := fun _ k hk => h k hk

theorem sparing_tryIo {operation : OnDisk (Except FileError Unit)}
    (h : OnDisk.Sparing here kept touched made operation) :
    Sparing here kept touched made (tryIo operation) := fun _ k hk => h k hk

theorem sparing_ask {question : OnDisk α} (h : OnDisk.Sparing here kept touched made question) :
    Sparing here kept touched made (ask question) := fun _ k hk => h k hk

theorem sparing_modifyGet (f : Progress → α × Progress) :
    Sparing here kept touched made (modifyGet f : Task OnDisk α) := fun _ _ _ => .refl ..

theorem sparing_extracting (p : Program) (file : Trap.FileWriter)
    (dependencies : Option (List DeclId)) (extraction : Extract Unit) :
    Sparing here kept touched made (extracting p file dependencies extraction) := by
  intro g k _
  unfold Spares After
  rw [run_extracting]
  split <;> exact .refl ..

theorem sparing_forM {as : List α} {f : α → Task OnDisk PUnit}
    (h : ∀ a ∈ as, Sparing here kept touched made (f a)) :
    Sparing here kept touched made (as.forM f) := by
  induction as with
  | nil => exact sparing_pure _
  | cons a as ih =>
    exact sparing_bind (h a List.mem_cons_self) fun _ =>
      ih fun b hb => h b (List.mem_cons_of_mem _ hb)

theorem sparing_foldlM {f : β → α → Task OnDisk β}
    (h : ∀ b a, Sparing here kept touched made (f b a)) (as : List α) (b : β) :
    Sparing here kept touched made (as.foldlM f b) := by
  induction as generalizing b with
  | nil => exact sparing_pure _
  | cons a as ih =>
    rw [List.foldlM_cons]
    exact sparing_bind (h b a) fun b' => ih b'

/-- What comes after a task that spares files, if it does not fail. -/
theorem after_bind_of_spares {m : Task OnDisk α} {f : α → Task OnDisk β}
    {Q : Except ExtractError β → Disk → Prop} (hm : Spares kept touched made m g k)
    (herror : ∀ e l, Disk.Spares kept touched made k l → Q (.error e) l)
    (hf : ∀ a g' l, m.run.run g k = ((.ok a, g'), l) → Disk.Spares kept touched made k l →
      After (f a) g' l fun r _ l' => Q r l') : After (m >>= f) g k fun r _ l => Q r l := by
  unfold Spares After at hm
  unfold After
  rw [run_bind]
  rcases hr : m.run.run g k with ⟨⟨e | a, g'⟩, l⟩ <;> rw [hr] at hm
  · exact herror e l hm
  · exact hf a g' l hr hm

theorem after_present (path : Path) (f : Bool → Task OnDisk α)
    {post : Except ExtractError α → Progress → Disk → Prop} :
    After (ask (Files.present path) >>= f) g k post ↔ After (f (k.present path)) g k post :=
  after_bind _ _

theorem after_makeTemporary {folder : Path} {front back : String} {f : Path → Task OnDisk α}
    {Q : Except ExtractError α → Disk → Prop} (hk : k.Ready here kept)
    (herror : ∀ e l, Disk.Spares kept touched made k l → Q (.error e) l)
    (hf : ∀ n path k₁, path = Disk.within folder (Disk.temporaryName front back n) →
      k.entry? (path.locationFrom here) = none →
      Disk.Spares kept (fun _ => False) (fun location => location = path.locationFrom here) k k₁ →
      k₁.SpareAt kept (path.locationFrom here) → After (f path) g k₁ fun r _ l => Q r l) :
    After (io folder (Files.makeTemporary folder front back) >>= f) g k fun r _ l => Q r l := by
  rw [after_bind]
  unfold After
  rw [run_operation]
  rcases hmake : Files.makeTemporary (m := OnDisk) folder front back k with ⟨e | path, l⟩
  · exact herror _ l (OnDisk.attempt_error hmake ▸ OnDisk.spares_counted)
  · obtain ⟨n, hpath⟩ := OnDisk.makeTemporary_path (k := k) (by rw [hmake])
    obtain ⟨hnone, hspare⟩ := OnDisk.spareAt_of_makeTemporary hk hmake
    exact hf n path l hpath hnone (OnDisk.spares_of_makeTemporary hk hmake) hspare

theorem after_withTemporary {folder : Path} {front back : String} {work : Path → Task OnDisk α}
    {Q : Except ExtractError α → Disk → Prop} (hk : k.Ready here kept)
    (hmade : ∀ n, made
      ((Disk.within folder (Disk.temporaryName front back n)).locationFrom here))
    (herror : ∀ e l, Disk.Spares kept touched made k l → Q (.error e) l)
    (hwork : ∀ n temporary k₁,
      temporary = Disk.within folder (Disk.temporaryName front back n) →
      k.entry? (temporary.locationFrom here) = none →
      Disk.Spares kept touched made k k₁ → k₁.SpareAt kept (temporary.locationFrom here) →
      After (work temporary) g k₁ fun r _ l => match r with
        | .ok a => Q (.ok a) l
        | .error e => Q (.error e) (Files.remove (m := OnDisk) temporary l).2) :
    After (withTemporary folder front back work) g k fun r _ l => Q r l := by
  refine after_makeTemporary hk herror fun n temporary k₁ htemporary hnone h₁ hspare => ?_
  have h₁ : Disk.Spares kept touched made k k₁ := h₁.mono (fun _ => False.elim)
    fun _ heq => heq ▸ htemporary ▸ hmade n
  rw [after_tryCatch]
  refine (hwork n temporary k₁ htemporary hnone h₁ hspare).mono ?_
  rintro (e | a) g' l hQ
  · exact hQ
  · exact hQ

/-- What the work on a temporary file does to its place does not count. -/
theorem spares_withTemporary {folder : Path} {front back : String} {work : Path → Task OnDisk α}
    {touched made : Except ExtractError α → Location → Prop} (hk : k.Ready here kept)
    (hmade : ∀ r n, made r
      ((Disk.within folder (Disk.temporaryName front back n)).locationFrom here))
    (hwork : ∀ temporary g k, k.Ready here kept →
      k.SpareAt kept (temporary.locationFrom here) → After (work temporary) g k fun r _ l =>
        Disk.Spares kept
          (fun location => touched r location ∨ location = temporary.locationFrom here)
          (made r) k l) :
    After (withTemporary folder front back work) g k fun r _ l =>
      Disk.Spares kept (touched r) (made r) k l := by
  let own (location : Location) : Prop := ∃ n, location =
    (Disk.within folder (Disk.temporaryName front back n)).locationFrom here
  have herror (e : ExtractError) (l : Disk) (h : Disk.Spares kept (fun _ => False) own k l) :
      Disk.Spares kept (touched (.error e)) (made (.error e)) k l :=
    h.mono (fun _ => False.elim) fun _ ⟨n, hn⟩ => hn ▸ hmade _ n
  refine after_withTemporary (Q := fun r l => Disk.Spares kept (touched r) (made r) k l) hk
    (fun n => ⟨n, rfl⟩) herror fun n temporary k₁ _ hnone hspares hspare => ?_
  have hk₁ := hk.spared hspares
  have hbefore (r : Except ExtractError α) : Disk.Spares kept
      (fun location => touched r location ∨ location = temporary.locationFrom here) (made r) k k₁ :=
    hspares.mono (fun _ => False.elim) fun _ ⟨n, hn⟩ => hn ▸ hmade r n
  refine After.mono (hwork temporary g k₁ hk₁ hspare) ?_
  rintro (e | a) g' l hwork
  · exact OnDisk.spares_removed hnone (hk₁.spared hwork) ((hbefore _).trans hwork)
  · exact ((hbefore _).trans hwork).outside hnone

theorem sparing_withTemporary {folder : Path} {front back : String} {work : Path → Task OnDisk α}
    (hmade : ∀ n, made
      ((Disk.within folder (Disk.temporaryName front back n)).locationFrom here))
    (hwork : ∀ temporary g k, k.Ready here kept →
      k.SpareAt kept (temporary.locationFrom here) →
      Spares kept (fun location => touched location ∨ location = temporary.locationFrom here) made
        (work temporary) g k) :
    Sparing here kept touched made (withTemporary folder front back work) := by
  intro g k hk
  have h : After (withTemporary folder front back work) g k fun r _ l =>
      Disk.Spares kept ((fun _ : Except ExtractError α => touched) r) ((fun _ => made) r) k l :=
    spares_withTemporary hk (fun _ => hmade) hwork
  exact h

/-! ## Tasks that put one file in its place -/

/-- If the task succeeds, it puts a file in this place. Whatever the outcome, it makes no others
but where some may be made. -/
def Placing (here : Location) (kept : Nat → Prop) (made : Location → Prop) (place : Location)
    (m : Task OnDisk α) : Prop :=
  ∀ g k, k.Ready here kept → After m g k fun r _ l =>
    Disk.Spares kept (OnDisk.Placed r place)
      (fun location => made location ∨ OnDisk.Placed r place location) k l

variable {place : Location}

theorem Placing.sparing {m : Task OnDisk α} (h : Placing here kept made place m)
    (ht : touched place) (hmade : made place) : Sparing here kept touched made m := fun g k hk =>
  (h g k hk).mono fun _ _ _ hspares => hspares.mono (fun _ hplace => hplace.2 ▸ ht) fun _ hor =>
    hor.elim id fun hplace => hplace.2 ▸ hmade

theorem Placing.of_error {m : Task OnDisk α} (h : Placing here kept made place m)
    (hk : k.Ready here kept) {e : ExtractError} {g' : Progress} {l : Disk}
    (hrun : m.run.run g k = ((.error e, g'), l)) :
    Disk.Spares kept (fun _ => False) made k l := by
  have hspares := h g k hk
  unfold After at hspares
  rw [hrun] at hspares
  exact hspares.mono (fun _ hplace => nomatch hplace.1) fun _ hor =>
    hor.elim id fun hplace => nomatch hplace.1

theorem placing_throw (e : ExtractError) :
    Placing here kept made place (throw e : Task OnDisk α) := fun _ _ _ => .refl ..

theorem placing_io {path : Path} {operation : OnDisk (Except FileError α)}
    (h : OnDisk.Placing here kept made place operation) :
    Placing here kept made place (io path operation) := by
  intro g k hk
  have hplaced (location : Location) : OnDisk.Placed (operation k).1 place location →
      OnDisk.Placed ((operation k).1.mapError (ExtractError.io path)) place location := by
    rintro ⟨⟨a, ha⟩, hplace⟩
    exact ⟨⟨a, by rw [ha]; rfl⟩, hplace⟩
  exact (h k hk).mono hplaced fun location => Or.imp_right (hplaced location)

theorem placing_bind {m : Task OnDisk α} {f : α → Task OnDisk β}
    (hm : Sparing here kept (fun _ => False) made m)
    (hf : ∀ a, Placing here kept made place (f a)) :
    Placing here kept made place (m >>= f) := fun g k hk =>
  after_bind_of_spares (Q := fun r l => Disk.Spares kept (OnDisk.Placed r place)
      (fun location => made location ∨ OnDisk.Placed r place location) k l) (hm g k hk)
    (fun _ _ h => h.mono (fun _ => False.elim) fun _ => .inl)
    fun a g' l _ h => (hf a g' l (hk.spared h)).mono fun _ _ _ hspares =>
      (h.mono (fun _ => False.elim) fun _ => .inl).trans hspares

end Task

/-! ## Bringing the trap of a class up to date -/

namespace ClassTrap

open IrFacts.Task

variable {here : Location} {kept : Nat → Prop} {touched made : Location → Prop}
variable {d : Destination} {p : Program} {id : DeclId} {t : ClassTrap}

structure RoomIn (t : ClassTrap) (here : Location) (touched made : Location → Prop) : Prop where
  trap : Disk.Room touched made (t.trap.locationFrom here)
  dependencies : Disk.Room touched made (t.dependencies.locationFrom here)
  metadata : Disk.Room touched made (t.metadata.locationFrom here)

theorem RoomIn.mono (h : t.RoomIn here touched made) {touched' : Location → Prop}
    (ht : ∀ location, touched location → touched' location) : t.RoomIn here touched' made where
  trap := h.trap.mono ht fun _ h => h
  dependencies := h.dependencies.mono ht fun _ h => h
  metadata := h.metadata.mono ht fun _ h => h

theorem RoomIn.touch (h : t.RoomIn here touched made) :
    ∀ path ∈ [t.trap, t.dependencies, t.metadata], touched (path.locationFrom here) := by
  simp only [List.forall_mem_cons]
  exact ⟨h.trap.touch, h.dependencies.touch, h.metadata.touch, nofun⟩

theorem fileName?_of_ofClass (h : ofClass d p id = .ok t) :
    (∃ name, t.trap.fileName? = some name) ∧ (∃ name, t.dependencies.fileName? = some name) ∧
      ∃ name, t.metadata.fileName? = some name := by
  obtain ⟨stem, htrap, hdep, hmeta, -⟩ := stem_of_ofClass h
  rw [show t.trap = ⟨stem ++ ".trap.gz"⟩ from congrArg Path.mk htrap,
    show t.dependencies = ⟨stem ++ ".dep"⟩ from congrArg Path.mk hdep,
    show t.metadata = ⟨stem ++ ".metadata"⟩ from congrArg Path.mk hmeta]
  exact ⟨Path.fileName?_of_ending stem (by decide) rfl (by decide),
    Path.fileName?_of_ending stem (by decide) rfl (by decide),
    Path.fileName?_of_ending stem (by decide) rfl (by decide)⟩

theorem sparing_readMetadata : Sparing here kept touched made (t.readMetadata : Task OnDisk _) := by
  refine sparing_bind (sparing_ask OnDisk.sparing_read) fun r => ?_
  split
  · exact sparing_pure _
  · exact sparing_throw _
  · split
    · exact sparing_pure _
    · exact sparing_throw _

theorem sparing_discard
    (h : ∀ path ∈ [t.trap, t.dependencies, t.metadata], touched (path.locationFrom here)) :
    Sparing here kept touched made (t.discard : Task OnDisk _) :=
  sparing_forM fun path hpath => sparing_io (OnDisk.sparing_removeIfPresent (h path hpath))

theorem sparing_plan (ht : ofClass d p id = .ok t)
    (h : ∀ path ∈ [t.trap, t.dependencies, t.metadata], touched (path.locationFrom here)) :
    Sparing here kept touched made (plan d p id : Task OnDisk _) := by
  unfold plan
  rw [ht]
  intro g k hk
  refine spares_bind (spares_pure t) fun u g₁ l hrun hl => ?_
  obtain ⟨rfl, rfl, rfl⟩ : t = u ∧ g = g₁ ∧ k = l := by
    cases hrun
    exact ⟨rfl, rfl, rfl⟩
  refine sparing_bind (sparing_ask OnDisk.sparing_present) (fun present => ?_) g k hk
  split
  · refine sparing_bind sparing_readMetadata fun found => ?_
    split
    · exact sparing_pure _
    · split
      · exact sparing_pure _
      · exact sparing_bind (sparing_discard h) fun _ => sparing_pure _
  · exact sparing_pure _

theorem spares_finish {temporary : Path} {g : Progress} {k : Disk} (hk : k.Ready here kept)
    (hspare : k.SpareAt kept (temporary.locationFrom here)) (text : String) (ids : List DeclId) :
    After (do
      writeText temporary text
      io t.trap (Files.rename temporary t.trap)
      return ids : Task OnDisk _) g k fun r _ l => Disk.Spares kept
        (fun location => OnDisk.Placed r (t.trap.locationFrom here) location ∨
          location = temporary.locationFrom here)
        (fun location => made location ∨ OnDisk.Placed r (t.trap.locationFrom here) location)
        k l := by
  have hwrite : Spares kept (fun _ => False) (fun _ => False)
      (writeText temporary text : Task OnDisk _) g k :=
    spares_io (OnDisk.spares_write hk hspare _)
  refine after_bind_of_spares (Q := fun r l => Disk.Spares kept _ _ k l) hwrite
    (fun _ _ h => h.mono (fun _ => False.elim) fun _ => False.elim) fun _ g₂ k₂ _ h₂ => ?_
  have hmove := OnDisk.spares_rename (hk.spared h₂) temporary t.trap made
  have hbefore {touched made : Location → Prop} : Disk.Spares kept touched made k k₂ :=
    h₂.mono (fun _ => False.elim) fun _ => False.elim
  rw [after_bind]
  unfold After
  rw [run_operation]
  rcases hrun : Files.rename (m := OnDisk) temporary t.trap k₂ with ⟨e | _, l⟩ <;>
    rw [hrun] at hmove <;> refine hbefore.trans (hmove.mono ?_ ?_)
  · exact fun _ => Or.imp_left fun h => nomatch h.1
  · exact fun _ => Or.imp_right fun h => nomatch h.1
  · exact fun _ => Or.imp_left fun h => ⟨⟨ids, rfl⟩, h.2⟩
  · exact fun _ => Or.imp_right fun h => ⟨⟨ids, rfl⟩, h.2⟩

theorem placing_extract (ht : ofClass d p id = .ok t)
    (hbeside : ∀ name, made ((t.trap.locationFrom here).dropLast ++ [name ++ ".tmp"])) :
    Placing here kept made (t.trap.locationFrom here) (t.extract d p : Task OnDisk _) := by
  unfold extract
  split
  · next folder hfolder =>
    obtain ⟨⟨name, hname⟩, -⟩ := fileName?_of_ofClass ht
    obtain ⟨q, hq, hlocation⟩ := Path.locationFrom_parent here hname
    obtain rfl : folder = q := Option.some.inj (hfolder.symm.trans hq)
    have hdir : folder.locationFrom here = (t.trap.locationFrom here).dropLast := by
      rw [hlocation, List.dropLast_concat]
    refine placing_bind (sparing_io OnDisk.sparing_makeFolders) fun _ g k hk => ?_
    refine spares_withTemporary hk (fun _ n => .inl (Disk.made_temporary hbeside hdir n (by decide)
      ⟨".trap.gz", rfl⟩ (by decide))) fun temporary g k hk hspare => ?_
    refine after_bind_of_spares (Q := fun r l => Disk.Spares kept _ _ k l)
      (sparing_extracting _ _ _ _ g k hk : Spares kept (fun _ => False) (fun _ => False) _ g k)
      (fun _ _ h => h.mono (fun _ => False.elim) fun _ => False.elim) fun s g₁ k₁ hrun _ => ?_
    obtain rfl := disk_of_extracting hrun
    exact spares_finish hk hspare _ _
  · exact placing_throw _

theorem sparing_extract (ht : ofClass d p id = .ok t)
    (h : Disk.Room touched made (t.trap.locationFrom here)) :
    Sparing here kept touched made (t.extract d p : Task OnDisk _) :=
  (placing_extract ht h.beside).sparing h.touch h.make

theorem placing_replaceSidecar {path : Path} {name : String} (hname : path.fileName? = some name)
    (hbeside : ∀ name, made ((path.locationFrom here).dropLast ++ [name ++ ".tmp"]))
    (contents : String) :
    Placing here kept made (path.locationFrom here)
      (replaceSidecar path contents : Task OnDisk _) := by
  have hdir : path.directory.locationFrom here = (path.locationFrom here).dropLast := by
    rw [Path.locationFrom_directory here hname, List.dropLast_concat]
  exact placing_io (OnDisk.placing_replace
    (fun n => Disk.made_temporary hbeside hdir n (by decide) ⟨"", rfl⟩ (by decide)) _)

theorem sparing_replaceSidecar {path : Path} {name : String} (hname : path.fileName? = some name)
    (h : Disk.Room touched made (path.locationFrom here)) (contents : String) :
    Sparing here kept touched made (replaceSidecar path contents : Task OnDisk _) :=
  (placing_replaceSidecar hname h.beside contents).sparing h.touch h.make

theorem sparing_commit (ht : ofClass d p id = .ok t)
    (hdependencies : Disk.Room touched made (t.dependencies.locationFrom here))
    (hmetadata : Disk.Room touched made (t.metadata.locationFrom here))
    (dependencies : List DeclId) :
    Sparing here kept touched made (t.commit p dependencies : Task OnDisk _) := by
  obtain ⟨-, ⟨dep, hdep⟩, metadata, hmeta⟩ := fileName?_of_ofClass ht
  exact sparing_bind (sparing_replaceSidecar hdep hdependencies _) fun _ =>
    sparing_bind (sparing_replaceSidecar hmeta hmetadata _) fun _ => sparing_modifyGet _

end ClassTrap

namespace Destination

open IrFacts.Task

variable {here : Location} {kept : Nat → Prop} {touched made : Location → Prop}
variable {d : Destination} {p : Program} {id : DeclId}

def RoomIn (d : Destination) (p : Program) (here : Location) (touched made : Location → Prop) :
    Prop :=
  ∀ id t, ClassTrap.ofClass d p id = .ok t → t.RoomIn here touched made

theorem sparing_extractClass (h : ∀ t, ClassTrap.ofClass d p id = .ok t →
      t.RoomIn here touched made) :
    Sparing here kept touched made (d.extractClass p id : Task OnDisk _) := by
  intro g k hk
  cases ht : ClassTrap.ofClass d p id with
  | error e =>
    unfold Spares After
    rw [run_extractClass_of_error ht]
    exact .refl ..
  | ok t =>
    have hroom := h t ht
    refine spares_bind (ClassTrap.sparing_plan ht hroom.touch g k hk) fun a g₁ l hrun hl => ?_
    rcases (ClassTrap.plan_yields ht (g := g) (k := k) a (by rw [hrun])).2 with rfl | ⟨rfl, -⟩
    · exact sparing_bind (ClassTrap.sparing_extract ht hroom.trap) (fun ids =>
        sparing_bind (ClassTrap.sparing_commit ht hroom.dependencies hroom.metadata ids) fun _ =>
          sparing_pure _) g₁ l (hk.spared hl)
    · exact spares_pure _

theorem sparing_drainClass (h : d.RoomIn p here touched made) (s : DrainSummary) (id : DeclId) :
    Sparing here kept touched made (d.drainClass p s id : Task OnDisk _) := by
  refine sparing_tryCatch (sparing_bind (sparing_extractClass (h id)) fun written => ?_) fun e => ?_
  · split <;> exact sparing_pure _
  · split
    · exact sparing_throw _
    · exact sparing_pure _

theorem sparing_drainWithin (h : d.RoomIn p here touched made) (fuel : Nat) (s : DrainSummary) :
    Sparing here kept touched made (d.drainWithin p fuel s : Task OnDisk _) := by
  induction fuel generalizing s with
  | zero => exact sparing_throw _
  | succ fuel ih =>
    refine sparing_bind (sparing_modifyGet _) fun batch => ?_
    split
    · exact sparing_pure _
    · exact sparing_bind (sparing_foldlM (sparing_drainClass h) batch _) fun s => ih s

theorem sparing_drain (h : d.RoomIn p here touched made) :
    Sparing here kept touched made (d.drain p : Task OnDisk _) := sparing_drainWithin h _ _

theorem fileName?_setPath (source : String) : ∃ name, (d.setPath source).fileName? = some name := by
  obtain ⟨front, hfront⟩ :=
    Path.withSuffix_eq (d.trapDir.join (Path.relativeToRoot source)) ".set"
  rw [setPath, hfront]
  exact Path.fileName?_of_ending front (by decide) rfl (by decide)

theorem sparing_writeSet {source : String}
    (h : Disk.Room touched made ((d.setPath source).locationFrom here)) :
    Sparing here kept touched made (d.writeSet source : Task OnDisk _) := by
  obtain ⟨name, hname⟩ := fileName?_setPath (d := d) source
  have hdir : (d.setPath source).directory.locationFrom here =
      ((d.setPath source).locationFrom here).dropLast := by
    rw [Path.locationFrom_directory here hname, List.dropLast_concat]
  have hwritten (contents : ByteArray) : Sparing here kept touched made (do
      Task.io (d.setPath source) (Files.replace (d.setPath source).directory (d.setPath source)
        "." ".tmp" contents)
      return d.setPath source : Task OnDisk Path) :=
    sparing_bind (sparing_io (OnDisk.sparing_replace h.touch h.make
      (fun n => Disk.made_temporary h.beside hdir n (by decide) ⟨"", rfl⟩ (by decide)) _))
      fun _ => sparing_pure _
  refine sparing_bind (sparing_modifyGet _) fun g => sparing_bind (sparing_modifyGet _) fun _ => ?_
  split
  · exact sparing_bind (sparing_io OnDisk.sparing_makeFolders) fun _ => hwritten _
  · exact hwritten _

end Destination

end IrFacts
