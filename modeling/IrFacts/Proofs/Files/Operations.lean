import IrFacts.Proofs.Files.Frame

/-!
# Operations on a modelled disk

What the operations do when they succeed, and that each of them leaves alone
whatever it was not told of, also when it fails.
-/

set_option autoImplicit false

namespace IrFacts

namespace Disk

variable {k l : Disk} {p : Path}

theorem read_ok {bytes : ByteArray} (h : read p k = .ok (bytes, l)) : l = k ∧
    ∃ id, k.entry? (p.locationFrom k.here) = some (.file id) ∧ bytes = k.contentsOf id := by
  unfold read at h
  cases hf : k.fileAt p with
  | error e =>
    rw [hf] at h
    cases h
  | ok id =>
    rw [hf] at h
    cases h
    exact ⟨rfl, id, fileAt_ok hf, rfl⟩

theorem fileAt_of_read {bytes : ByteArray} (h : read p k = .ok (bytes, l)) :
    ∃ id, k.fileAt p = .ok id := by
  unfold read at h
  cases hf : k.fileAt p with
  | error e =>
    rw [hf] at h
    cases h
  | ok id => exact ⟨id, rfl⟩

theorem clean_of_read {bytes : ByteArray} (h : read p k = .ok (bytes, l)) : p.Clean := by
  unfold read fileAt stat at h
  cases hs : k.spot p with
  | error e =>
    rw [hs] at h
    cases h
  | ok s => exact clean_of_spot hs

theorem makeFolder_ok (h : makeFolder p k = .ok ((), l)) :
    k.entry? (p.locationFrom k.here) = none ∧ l = k.setEntry (p.locationFrom k.here) .folder := by
  unfold makeFolder at h
  cases hs : k.spot p with
  | error e =>
    rw [hs] at h
    cases h
  | ok s =>
    obtain ⟨hlocation, -, hnone⟩ := spot_ok hs
    rw [hs] at h
    rcases s with ⟨location, _ | _, slash⟩ <;> cases h
    exact ⟨hnone rfl, by rw [← hlocation]⟩

theorem makeTemporary_ok {folder path : Path} {front back : String}
    (h : makeTemporary folder front back k = .ok (path, l)) : ∃ n,
      path = within folder (temporaryName front back n) ∧
      k.entry? (path.locationFrom k.here) = none ∧
      l = { (k.addFile (path.locationFrom k.here)).2 with nextName := n + 1 } := by
  unfold makeTemporary at h
  extract_lets make free n at h
  cases hs : k.spot (make n) with
  | error e =>
    rw [hs] at h
    cases h
  | ok s =>
    obtain ⟨hlocation, -, hnone⟩ := spot_ok hs
    rw [hs] at h
    rcases s with ⟨location, _ | _, slash⟩ <;> cases h
    exact ⟨n, rfl, hnone rfl, by rw [← hlocation]⟩

theorem write_ok {contents : ByteArray} (h : write p contents k = .ok ((), l)) :
    ∃ id, k.entry? (p.locationFrom k.here) = some (.file id) ∧ l = k.setContents id contents := by
  unfold write at h
  cases hf : k.fileAt p with
  | error e =>
    rw [hf] at h
    cases h
  | ok id =>
    rw [hf] at h
    cases h
    exact ⟨id, fileAt_ok hf, rfl⟩

theorem remove_ok (h : remove p k = .ok ((), l)) : l = k.removeEntry (p.locationFrom k.here) := by
  unfold remove at h
  cases hs : k.spot p with
  | error e =>
    rw [hs] at h
    cases h
  | ok s =>
    obtain ⟨hlocation, -⟩ := spot_ok hs
    rw [hs] at h
    rcases s with ⟨location, _ | _ | id, slash⟩ <;> cases h
    rw [← hlocation]

theorem rename_ok {source target : Path} (h : rename source target k = .ok ((), l)) :
    ∃ id, k.entry? (source.locationFrom k.here) = some (.file id) ∧
      target.locationFrom k.here ≠ [] ∧
      l = (k.removeEntry (source.locationFrom k.here)).setEntry (target.locationFrom k.here)
        (.file id) := by
  unfold rename at h
  cases hs : k.spot source with
  | error e =>
    rw [hs] at h
    cases h
  | ok old =>
    cases ht : k.spot target with
    | error e =>
      rw [hs, ht] at h
      cases h
    | ok new =>
      obtain ⟨hold, hfile, -⟩ := spot_ok hs
      obtain ⟨hnew, htfile, htnone⟩ := spot_ok ht
      rw [hs, ht] at h
      rcases old with ⟨old, _ | _ | id, oslash⟩
      · cases h
      · cases h
      · rcases new with ⟨new, entry, slash⟩
        have hentry : entry ≠ some .folder := by
          rintro rfl
          cases h
        have hne : target.locationFrom k.here ≠ [] := by
          rcases entry with _ | _ | other
          · exact ne_nil_of_entry (htnone rfl) nofun
          · exact absurd rfl hentry
          · exact ne_nil_of_entry (htfile other rfl) nofun
        have hslash : slash = false := by
          cases slash with
          | false => rfl
          | true => rcases entry with _ | _ | other <;> cases h
        subst hslash
        refine ⟨id, hfile id rfl, hne, ?_⟩
        rw [← hold, ← hnew]
        rcases entry with _ | _ | other <;> cases h <;> rfl

theorem openAppend_ok {id : Nat} (h : openAppend p k = .ok (id, l)) :
    k.entry? (p.locationFrom k.here) = some (.file id) ∧ l = k ∨
      k.entry? (p.locationFrom k.here) = none ∧
        (id, l) = k.addFile (p.locationFrom k.here) := by
  unfold openAppend at h
  cases hs : k.spot p with
  | error e =>
    rw [hs] at h
    cases h
  | ok s =>
    obtain ⟨hlocation, hfile, hnone⟩ := spot_ok hs
    rw [hs] at h
    rcases s with ⟨location, _ | _ | other, slash⟩
    · cases slash with
      | true => cases h
      | false =>
        have hadd : k.addFile location = (id, l) := Except.ok.inj h
        exact .inr ⟨hnone rfl, hlocation ▸ hadd.symm⟩
    · cases h
    · cases h
      exact .inl ⟨hfile id rfl, rfl⟩

theorem append_ok {id : Nat} {contents : ByteArray} (h : append id contents k = .ok ((), l)) :
    l = k.setContents id (k.contentsOf id ++ contents) := by
  cases h
  rfl

theorem spot_of_rename {source target : Path} (h : rename source target k = .ok ((), l)) :
    ∃ s, k.spot target = .ok s := by
  unfold rename at h
  cases hs : k.spot source with
  | error e =>
    rw [hs] at h
    cases h
  | ok old =>
    cases ht : k.spot target with
    | error e =>
      rw [hs, ht] at h
      cases h
    | ok new => exact ⟨new, rfl⟩

theorem clean_of_rename {source target : Path} (h : rename source target k = .ok ((), l)) :
    target.Clean := by
  obtain ⟨new, ht⟩ := spot_of_rename h
  exact clean_of_spot ht

end Disk

def Disk.counted (k : Disk) : Disk := { k with calls := k.calls + 1 }

theorem Disk.Willing.counted {k : Disk} (h : k.Willing) : k.counted.Willing :=
  fun n hn => h n (Nat.le_of_succ_le hn)

theorem Disk.addsFolders_counted (k : Disk) : AddsFolders k k.counted :=
  addsFolders_of_eq rfl rfl .counted rfl rfl

theorem Disk.frame_counted {touched : Location → Prop} (k : Disk) : Frame touched k k.counted :=
  (addsFolders_counted k).frame

/-! ## Programs that touch few locations -/

namespace OnDisk

open Disk

variable {α β : Type} {here : Location} {touched : Location → Prop}

/-- Whatever the outcome, the program touches these locations only. -/
def Frames (here : Location) (touched : Location → Prop) (m : OnDisk α) : Prop :=
  ∀ k : Disk, k.here = here → Frame touched k (m k).2

theorem frames_pure (a : α) : Frames here touched (pure a : OnDisk α) :=
  fun k _ => .refl touched k

theorem frames_bind {m : OnDisk α} {f : α → OnDisk β} (hm : Frames here touched m)
    (hf : ∀ k : Disk, k.here = here → Frames here touched (f (m k).1)) :
    Frames here touched (m >>= f) := by
  intro k hk
  have hfirst := hm k hk
  exact hfirst.trans (hf k hk _ (hfirst.here.trans hk))

theorem bind_apply (m : OnDisk α) (f : α → OnDisk β) (k : Disk) :
    (m >>= f) k = f (m k).1 (m k).2 := rfl

theorem attempt_ok {operation : Disk → Except FileError (α × Disk)} {k l : Disk} {a : α}
    (h : attempt operation k = (.ok a, l)) :
    operation k.counted = .ok (a, l) := by
  unfold attempt at h
  dsimp only at h
  split at h
  · cases h
  · split at h
    · next hop =>
      cases h
      exact hop
    · cases h

theorem attempt_error {operation : Disk → Except FileError (α × Disk)} {k l : Disk} {e : FileError}
    (h : attempt operation k = (.error e, l)) : l = k.counted := by
  unfold attempt at h
  dsimp only at h
  split at h
  · cases h
    rfl
  · split at h <;> cases h
    rfl

theorem attempt_of_ok {operation : Disk → Except FileError (α × Disk)} {k l : Disk} {a : α}
    (hfree : k.refuses k.calls = none) (h : operation k.counted = .ok (a, l)) :
    attempt operation k = (.ok a, l) := by
  have h : operation { k with calls := k.calls + 1 } = .ok (a, l) := h
  simp only [attempt, hfree, h]

theorem frames_attempt {operation : Disk → Except FileError (α × Disk)}
    (h : ∀ (k : Disk) (a : α) (l : Disk), k.here = here → operation k = .ok (a, l) →
      Frame touched k l) : Frames here touched (attempt operation) := by
  intro k hk
  rcases hr : attempt operation k with ⟨e | a, l⟩
  · exact attempt_error hr ▸ frame_counted k
  · exact (frame_counted k).trans (h k.counted a l hk (attempt_ok hr))

theorem frames_present (p : Path) : Frames here touched (Files.present (m := OnDisk) p) :=
  fun k _ => .refl touched k

theorem frames_read (p : Path) : Frames here touched (Files.read (m := OnDisk) p) :=
  frames_attempt fun k _ _ _ h => (read_ok h).1 ▸ .refl touched k

theorem frames_makeTemporary {folder : Path} {front back : String}
    (h : ∀ n, touched ((within folder (temporaryName front back n)).locationFrom here)) :
    Frames here touched (Files.makeTemporary (m := OnDisk) folder front back) :=
  frames_attempt fun k path l hk hmake => by
    obtain ⟨n, rfl, -, rfl⟩ := makeTemporary_ok hmake
    exact (frame_addFile (hk ▸ h n)).trans (addsFolders_nextName _ _).frame

theorem frames_write {p : Path} (h : touched (p.locationFrom here)) (contents : ByteArray) :
    Frames here touched (Files.write (m := OnDisk) p contents) :=
  frames_attempt fun k _ l hk hwrite => by
    obtain ⟨id, he, rfl⟩ := write_ok hwrite
    exact frame_setContents (hk ▸ h) he contents

theorem frames_remove {p : Path} (h : touched (p.locationFrom here)) :
    Frames here touched (Files.remove (m := OnDisk) p) :=
  frames_attempt fun k _ l hk hremove => by
    rw [remove_ok hremove]
    exact frame_removeEntry (hk ▸ h)

theorem frames_rename {source target : Path} (hs : touched (source.locationFrom here))
    (ht : touched (target.locationFrom here)) :
    Frames here touched (Files.rename (m := OnDisk) source target) :=
  frames_attempt fun k _ l hk hrename => by
    obtain ⟨id, he, -, rfl⟩ := rename_ok hrename
    exact frame_move (hk ▸ hs) (hk ▸ ht) he

theorem frames_openAppend {p : Path} (h : touched (p.locationFrom here)) :
    Frames here touched (Files.openAppend (m := OnDisk) p) :=
  frames_attempt fun k id l hk hopen => by
    rcases openAppend_ok hopen with ⟨-, rfl⟩ | ⟨-, hadd⟩
    · exact .refl touched l
    · obtain rfl : l = (k.addFile (p.locationFrom k.here)).2 := congrArg Prod.snd hadd
      exact frame_addFile (hk ▸ h)

theorem lt_nextFile_of_openAppend {p : Path} {k l : Disk} {id : Nat} (hk : k.Issued)
    (h : Files.openAppend (m := OnDisk) p k = (.ok id, l)) : id < l.nextFile := by
  rcases openAppend_ok (attempt_ok h) with ⟨hentry, rfl⟩ | ⟨-, hadd⟩
  · exact hk _ id hentry
  · cases hadd
    exact Nat.lt_succ_self _

theorem makeTemporary_path {folder path : Path} {front back : String} {k : Disk}
    (h : (Files.makeTemporary (m := OnDisk) folder front back k).1 = .ok path) :
    ∃ n, path = within folder (temporaryName front back n) := by
  rcases hr : Files.makeTemporary (m := OnDisk) folder front back k with ⟨e | other, l⟩
  · rw [hr] at h
    cases h
  · rw [hr] at h
    cases h
    obtain ⟨n, hpath, -⟩ := makeTemporary_ok (attempt_ok hr)
    exact ⟨n, hpath⟩

def AddsOnly (m : OnDisk α) : Prop := ∀ k, AddsFolders k (m k).2

theorem addsOnly_pure (a : α) : AddsOnly (pure a : OnDisk α) :=
  fun _ => addsFolders_of_eq rfl rfl id rfl rfl

theorem addsOnly_bind {m : OnDisk α} {f : α → OnDisk β} (hm : AddsOnly m)
    (hf : ∀ k, AddsOnly (f (m k).1)) : AddsOnly (m >>= f) := fun k =>
  (hm k).trans (hf k _)

theorem addsOnly_isFolder (p : Path) : AddsOnly (Files.isFolder (m := OnDisk) p) :=
  fun _ => addsFolders_of_eq rfl rfl id rfl rfl

theorem addsOnly_makeFolder (p : Path) : AddsOnly (Files.makeFolder (m := OnDisk) p) := by
  intro k
  rcases hr : Files.makeFolder (m := OnDisk) p k with ⟨e | _, l⟩
  · exact attempt_error hr ▸ addsFolders_counted k
  · obtain ⟨hnone, rfl⟩ := makeFolder_ok (attempt_ok hr)
    exact (addsFolders_counted k).trans (addsFolders_makeFolder hnone)

theorem addsOnly_makeFoldersWithin (steps : Nat) (p : Path) :
    AddsOnly (Files.makeFoldersWithin (m := OnDisk) steps p) := by
  have settled (p : Path) (error : FileError) :
      AddsOnly (Files.unlessFolder (m := OnDisk) p error) := by
    refine addsOnly_bind (addsOnly_isFolder p) fun k => ?_
    split <;> exact addsOnly_pure _
  induction steps generalizing p with
  | zero => exact addsOnly_pure _
  | succ steps ih =>
    unfold Files.makeFoldersWithin
    split
    · exact addsOnly_pure _
    · refine addsOnly_bind (addsOnly_makeFolder p) fun k => ?_
      split
      · exact addsOnly_pure _
      · split
        · exact addsOnly_pure _
        · refine addsOnly_bind (ih _) fun k => ?_
          split
          · exact addsOnly_pure _
          · refine addsOnly_bind (addsOnly_makeFolder p) fun k => ?_
            split
            · exact addsOnly_pure _
            · exact settled _ _
      · exact settled _ _

theorem addsOnly_makeFolders (p : Path) : AddsOnly (Files.makeFolders (m := OnDisk) p) :=
  addsOnly_makeFoldersWithin _ p

theorem frames_makeFolders (p : Path) :
    Frames here touched (Files.makeFolders (m := OnDisk) p) := fun k _ =>
  (addsOnly_makeFolders p k).frame

theorem frames_removeIfPresent {p : Path} (h : touched (p.locationFrom here)) :
    Frames here touched (Files.removeIfPresent (m := OnDisk) p) := by
  refine frames_bind (frames_remove h) fun k _ => ?_
  split <;> exact frames_pure _

theorem frames_settle {temporary target : Path} (hs : touched (temporary.locationFrom here))
    (ht : touched (target.locationFrom here)) :
    Frames here touched (Files.settle (m := OnDisk) temporary target) := by
  refine frames_bind (frames_rename hs ht) fun k _ => ?_
  split
  · exact frames_pure _
  · exact frames_bind (frames_remove hs) fun _ _ => frames_pure _

theorem frames_replace {folder target : Path} {front back : String}
    (hfresh : ∀ n, touched ((within folder (temporaryName front back n)).locationFrom here))
    (ht : touched (target.locationFrom here)) (contents : ByteArray) :
    Frames here touched (Files.replace (m := OnDisk) folder target front back contents) := by
  refine frames_bind (frames_makeTemporary hfresh) fun k _ => ?_
  split
  · exact frames_pure _
  · next temporary hmake =>
    obtain ⟨n, rfl⟩ := makeTemporary_path hmake
    refine frames_bind (frames_write (hfresh n) contents) fun k _ => ?_
    split
    · exact frames_bind (frames_remove (hfresh n)) fun _ _ => frames_pure _
    · exact frames_settle (hfresh n) ht

theorem makeTemporary_alone {k l : Disk} (hk : k.Issued) {folder path : Path} {front back : String}
    (h : Files.makeTemporary (m := OnDisk) folder front back k = (.ok path, l)) :
    l.here = k.here ∧ l.Alone (path.locationFrom k.here) ∧
      l.entry? (path.locationFrom k.here) = some (.file k.nextFile) := by
  obtain ⟨n, -, hnone, rfl⟩ := makeTemporary_ok (attempt_ok h)
  change k.entry? (path.locationFrom k.here) = none at hnone
  have hentry := entry?_setEntry_self (k := k) (ne_nil_of_entry hnone nofun) (.file k.nextFile)
  refine ⟨rfl, fun id other he ho => ?_, hentry⟩
  obtain rfl : k.nextFile = id := by simpa using hentry.symm.trans he
  refine Decidable.byContradiction fun hne => ?_
  have hold : k.entry? other = some (.file k.nextFile) :=
    (entry?_setEntry_of_ne hne (.file k.nextFile)).symm.trans ho
  exact Nat.lt_irrefl _ (hk other _ hold)

/-- Contents that were written and moved are in their place, and in a file of
their own if they were before. -/
theorem write_rename_ok {k k₁ k₂ : Disk} {temporary target : Path} {contents : ByteArray}
    (hwrite : Files.write (m := OnDisk) temporary contents k = (.ok (), k₁))
    (hmove : Files.rename (m := OnDisk) temporary target k₁ = (.ok (), k₂)) :
    target.Clean ∧ ∃ id, k₂.entry? (target.locationFrom k₂.here) = some (.file id) ∧
      k₂.contentsOf id = contents ∧
      (k.Alone (temporary.locationFrom k.here) → k₂.Alone (target.locationFrom k₂.here)) := by
  obtain ⟨id, hid, rfl⟩ := write_ok (attempt_ok hwrite)
  change k.entry? (temporary.locationFrom k.here) = some (.file id) at hid
  obtain ⟨moved, hmoved, hne, rfl⟩ := rename_ok (attempt_ok hmove)
  change k.entry? (temporary.locationFrom k.here) = some (.file moved) at hmoved
  change target.locationFrom k.here ≠ [] at hne
  obtain rfl : id = moved := by
    rw [hid] at hmoved
    cases hmoved
    rfl
  exact ⟨clean_of_rename (attempt_ok hmove), id, entry?_setEntry_self hne _,
    contentsOf_setContents_self (k := k.counted) id contents,
    fun halone => alone_move (k := (k.counted.setContents id contents).counted) halone hid hne⟩

theorem replace_ok {k l : Disk} (hk : k.Issued) {folder target : Path} {front back : String}
    {contents : ByteArray}
    (h : Files.replace (m := OnDisk) folder target front back contents k = (.ok (), l)) :
    target.Clean ∧ ∃ id, l.entry? (target.locationFrom l.here) = some (.file id) ∧
      l.Alone (target.locationFrom l.here) ∧ l.contentsOf id = contents := by
  rw [Files.replace, bind_apply] at h
  rcases hmake : Files.makeTemporary (m := OnDisk) folder front back k with ⟨e | temporary, k₁⟩ <;>
    rw [hmake] at h
  · cases h
  obtain ⟨hhere, halone, -⟩ := makeTemporary_alone hk hmake
  dsimp only at h
  rw [bind_apply] at h
  rcases hwrite : Files.write (m := OnDisk) temporary contents k₁ with ⟨e | _, k₂⟩ <;>
    rw [hwrite] at h
  · cases h
  dsimp only at h
  rw [Files.settle, bind_apply] at h
  rcases hmove : Files.rename (m := OnDisk) temporary target k₂ with ⟨e | _, k₃⟩ <;>
    rw [hmove] at h <;> cases h
  obtain ⟨hclean, id, hid, hcontents, hmoved⟩ := write_rename_ok hwrite hmove
  exact ⟨hclean, id, hid, hmoved (hhere ▸ halone), hcontents⟩

end OnDisk

end IrFacts
