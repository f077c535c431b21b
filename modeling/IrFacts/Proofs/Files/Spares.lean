import IrFacts.Proofs.Files.Endings
import IrFacts.Proofs.Files.FileNames
import IrFacts.Proofs.Files.Operations

/-!
# Files that are spared

A program that writes to files of its own alone changes none of the files that
are kept, wherever they stand. It moves its files over some places and makes
temporary ones in some, so that the files that stand anywhere else are still
there, in the same folders, and there are no others.
-/

set_option autoImplicit false

namespace IrFacts

namespace Disk

variable {k l m : Disk} {kept : Nat → Prop} {touched made : Location → Prop} {location : Location}

/-- Between `k` and `l` none of these files was changed. Files that stood where nothing was touched
still do, and the new ones stand where files may be made. -/
structure Spares (kept : Nat → Prop) (touched made : Location → Prop) (k l : Disk) : Prop where
  here : l.here = k.here
  next : k.nextFile ≤ l.nextFile
  willing : k.Willing → l.Willing
  issued : k.Issued → l.Issued
  folder : ∀ location, k.entry? location = some .folder → l.entry? location = some .folder
  file : ∀ location id, ¬touched location → k.entry? location = some (.file id) →
    l.entry? location = some (.file id)
  contents : ∀ id, kept id → l.contentsOf id = k.contentsOf id
  fresh : ∀ location id, l.entry? location = some (.file id) →
    k.entry? location = some (.file id) ∨ made location

theorem Spares.refl (kept : Nat → Prop) (touched made : Location → Prop) (k : Disk) :
    Spares kept touched made k k :=
  ⟨rfl, Nat.le_refl _, id, fun h => h, fun _ h => h, fun _ _ _ h => h, fun _ _ => rfl,
    fun _ _ h => .inl h⟩

theorem Spares.trans (h : Spares kept touched made k l) (h' : Spares kept touched made l m) :
    Spares kept touched made k m where
  here := h'.here.trans h.here
  next := Nat.le_trans h.next h'.next
  willing hk := h'.willing (h.willing hk)
  issued hk := h'.issued (h.issued hk)
  folder location hk := h'.folder location (h.folder location hk)
  file location id ht hk := h'.file location id ht (h.file location id ht hk)
  contents id hid := (h'.contents id hid).trans (h.contents id hid)
  fresh location id hm := (h'.fresh location id hm).elim (h.fresh location id) .inr

theorem Spares.mono {touched' made' : Location → Prop} (h : Spares kept touched made k l)
    (htouched : ∀ location, touched location → touched' location)
    (hmade : ∀ location, made location → made' location) : Spares kept touched' made' k l where
  here := h.here
  next := h.next
  willing := h.willing
  issued := h.issued
  folder := h.folder
  file location id ht := h.file location id fun hmore => ht (htouched location hmore)
  contents := h.contents
  fresh location id hl := (h.fresh location id hl).imp_right (hmade location)

/-- What happened to a place where no file stood does not count. -/
theorem Spares.outside {place : Location} (hnone : k.entry? place = none)
    (h : Spares kept (fun location => touched location ∨ location = place) made k l) :
    Spares kept touched made k l where
  here := h.here
  next := h.next
  willing := h.willing
  issued := h.issued
  folder := h.folder
  file location id ht hk := by
    refine h.file location id (fun hor => hor.elim ht fun heq => ?_) hk
    rw [heq, hnone] at hk
    cases hk
  contents := h.contents
  fresh := h.fresh

/-- A disk on which paths start here, and which knows the files that are kept. -/
structure Ready (here : Location) (kept : Nat → Prop) (k : Disk) : Prop where
  here : k.here = here
  known : ∀ id, kept id → id < k.nextFile

theorem Ready.spared {here : Location} (hk : Ready here kept k)
    (h : Spares kept touched made k l) : Ready here kept l :=
  ⟨h.here.trans hk.here, fun id hid => Nat.lt_of_lt_of_le (hk.known id hid) h.next⟩

/-- A file stands here that need not be kept. -/
def SpareAt (k : Disk) (kept : Nat → Prop) (location : Location) : Prop :=
  ∃ id, ¬kept id ∧ k.entry? location = some (.file id)

/-- Whatever file stands here stood here before, with the same contents. -/
def OldAt (k l : Disk) (location : Location) : Prop :=
  ∀ id, l.entry? location = some (.file id) →
    k.entry? location = some (.file id) ∧ l.contentsOf id = k.contentsOf id

theorem OldAt.trans (h : OldAt k l location) (h' : OldAt l m location) : OldAt k m location := by
  intro id hid
  obtain ⟨hl, hcontents⟩ := h' id hid
  obtain ⟨hk, hbefore⟩ := h id hl
  exact ⟨hk, hcontents.trans hbefore⟩

theorem Spares.oldAt (hk : k.Issued) (h : Spares (· < k.nextFile) touched made k l)
    (hmade : ¬made location) : OldAt k l location := by
  intro id hid
  have hold := (h.fresh location id hid).resolve_right hmade
  exact ⟨hold, h.contents id (hk location id hold)⟩

/-- From `k` to `l` no files were made but in these places. -/
structure MadeOnly (k : Disk) (made : Location → Prop) (l : Disk) : Prop where
  here : l.here = k.here
  issued : l.Issued
  old : ∀ location, ¬made location → OldAt k l location

theorem Spares.madeOnly (h : Spares (· < k.nextFile) touched made k l) (hk : k.Issued) :
    k.MadeOnly made l := ⟨h.here, h.issued hk, fun _ => h.oldAt hk⟩

theorem MadeOnly.trans (h : k.MadeOnly made l) (h' : l.MadeOnly made m) : k.MadeOnly made m :=
  ⟨h'.here.trans h.here, h'.issued, fun location hmade =>
    (h.old location hmade).trans (h'.old location hmade)⟩

theorem MadeOnly.mono {made' : Location → Prop} (h : k.MadeOnly made l)
    (hmore : ∀ location, made location → made' location) : k.MadeOnly made' l :=
  ⟨h.here, h.issued, fun location hmade => h.old location fun hl => hmade (hmore location hl)⟩

/-! ## Room for files -/

/-- A file may be put here, and temporary ones beside it. -/
structure Room (touched made : Location → Prop) (location : Location) : Prop where
  touch : touched location
  make : made location
  beside : ∀ name, made (location.dropLast ++ [name ++ ".tmp"])

theorem Room.mono {touched' made' : Location → Prop} (h : Room touched made location)
    (htouched : ∀ location, touched location → touched' location)
    (hmade : ∀ location, made location → made' location) : Room touched' made' location :=
  ⟨htouched _ h.touch, hmade _ h.make, fun name => hmade _ (h.beside name)⟩

theorem locationFrom_temporary (here : Location) (folder : Path) {front back : String} {c : Char}
    (n : Nat) (hfront : '/' ∉ front.toList) (hslash : '/' ∉ back.toList)
    (hlast : back.toList.getLast? = some c) (hc : c ≠ '.') :
    (within folder (temporaryName front back n)).locationFrom here =
      folder.locationFrom here ++ [front ++ nameBody n ++ back] := by
  refine locationFrom_within here folder (Path.isName_withSuffix _ hlast hc) ?_
  simp only [temporaryName, String.toList_append, List.mem_append, String.toList_ofList]
  rintro ((hmem | hmem) | hmem)
  · exact hfront hmem
  · exact (plain_of_mem_nameDigits hmem).2 rfl
  · exact hslash hmem

/-- Temporary files may be made in the folder of a file if there is room beside it. -/
theorem made_temporary {here : Location} {folder : Path}
    (hbeside : ∀ name, made (location.dropLast ++ [name ++ ".tmp"]))
    (hfolder : folder.locationFrom here = location.dropLast) {front back : String} (n : Nat)
    (hfront : '/' ∉ front.toList) (hback : ∃ middle, back = middle ++ ".tmp")
    (hslash : '/' ∉ back.toList) :
    made ((within folder (temporaryName front back n)).locationFrom here) := by
  obtain ⟨middle, hback⟩ := hback
  have hlast : back.toList.getLast? = some 'p' := by
    rw [hback, String.toList_append, List.getLast?_append]
    rfl
  rw [locationFrom_temporary here folder n hfront hslash hlast (by decide), hfolder, hback,
    ← String.append_assoc]
  exact hbeside _

/-! ## Paths lead to what is spared -/

/-- Whoever comes to a place, or could make something there, comes to what stands there now, as
long as the folders on the way stay. -/
theorem follow_entry {place : Location} {names : List String} {s : Spot} {entry : Entry}
    (hfolder : ∀ location, k.entry? location = some .folder → l.entry? location = some .folder)
    (h : k.follow place names = .ok s) (hsame : s.entry = some .folder → entry = .folder)
    (hslash : s.entry = none → s.slash = false)
    (hl : s.entry ≠ some .folder → l.entry? s.location = some entry) :
    l.follow place names = .ok { s with entry := some entry } := by
  induction names generalizing place with
  | nil =>
    cases h
    rw [hsame rfl]
    rfl
  | cons name rest ih =>
    rw [follow] at h ⊢
    split at h
    · next hjunk =>
      rw [if_pos hjunk]
      exact ih h
    next hjunk =>
    rw [if_neg hjunk]
    split at h
    · next hup =>
      rw [if_pos hup]
      exact ih h
    next hup =>
    rw [if_neg hup]
    split at h
    · cases h
    next hlong =>
    rw [if_neg hlong]
    dsimp only at h ⊢
    split at h
    · next hentry =>
      rw [hfolder _ hentry]
      exact ih h
    · split at h <;> cases h
      next hrest =>
      have hentry : l.entry? (place ++ [name]) = some entry := hl (by simp)
      rw [hentry, List.isEmpty_iff.mp hrest]
      cases entry <;> rfl
    · split at h <;> cases h
      have hentry : l.entry? (place ++ [name]) = some entry := hl (by simp)
      have hrest : rest = [] := by simpa using hslash rfl
      rw [hentry, hrest]
      cases entry <;> rfl

theorem spot_entry {p : Path} {s : Spot} {entry : Entry} (hhere : l.here = k.here)
    (hfolder : ∀ location, k.entry? location = some .folder → l.entry? location = some .folder)
    (h : k.spot p = .ok s) (hsame : s.entry = some .folder → entry = .folder)
    (hslash : s.entry = none → s.slash = false)
    (hl : s.entry ≠ some .folder → l.entry? s.location = some entry) :
    l.spot p = .ok { s with entry := some entry } := by
  unfold spot at h ⊢
  rw [hhere]
  split at h
  · cases h
  next hempty =>
  rw [if_neg hempty]
  split at h
  · cases h
  next hzero =>
  rw [if_neg hzero]
  split at h
  · cases h
  next hlong =>
  rw [if_neg hlong]
  exact follow_entry hfolder h hsame hslash hl

theorem fileAt_iff {p : Path} {id : Nat} :
    k.fileAt p = .ok id ↔ ∃ s, k.spot p = .ok s ∧ s.entry = some (.file id) := by
  unfold fileAt stat
  cases k.spot p with
  | error e => exact ⟨nofun, nofun⟩
  | ok s =>
    rcases s with ⟨location, _ | _ | other, slash⟩
    · exact ⟨nofun, nofun⟩
    · exact ⟨nofun, nofun⟩
    · constructor
      · rintro ⟨⟩
        exact ⟨_, rfl, rfl⟩
      · rintro ⟨s, ⟨⟩, ⟨⟩⟩
        rfl

theorem present_iff {p : Path} : k.present p = true ↔ ∃ s entry, k.spot p = .ok s ∧
    s.entry = some entry := by
  unfold present stat
  cases k.spot p with
  | error e => exact ⟨nofun, nofun⟩
  | ok s =>
    rcases s with ⟨location, _ | entry, slash⟩
    · exact ⟨nofun, nofun⟩
    · exact ⟨fun _ => ⟨_, entry, rfl, rfl⟩, fun _ => rfl⟩

/-- A file that is reached by a path still is when nothing has touched its place. -/
theorem Spares.fileAt (h : Spares kept touched made k l) {p : Path} {id : Nat}
    (hp : k.fileAt p = .ok id) (ht : ¬touched (p.locationFrom k.here)) : l.fileAt p = .ok id := by
  have hentry := h.file _ id ht (fileAt_ok hp)
  obtain ⟨s, hspot, hs⟩ := fileAt_iff.mp hp
  rw [← (spot_ok hspot).1] at hentry
  exact fileAt_iff.mpr ⟨_, spot_entry h.here h.folder hspot (by simp [hs]) (by simp [hs])
    (fun _ => hentry), rfl⟩

theorem present_of_fileAt {p : Path} {id : Nat} (h : k.fileAt p = .ok id) : k.present p = true := by
  obtain ⟨s, hspot, hs⟩ := fileAt_iff.mp h
  exact present_iff.mpr ⟨s, _, hspot, hs⟩

/-- What is found under a path still is when nothing has touched its place. -/
theorem Spares.present (h : Spares kept touched made k l) {p : Path} (hp : k.present p = true)
    (ht : ¬touched (p.locationFrom k.here)) : l.present p = true := by
  obtain ⟨s, entry, hspot, hs⟩ := present_iff.mp hp
  cases entry with
  | folder =>
    exact present_iff.mpr ⟨_, .folder, spot_entry h.here h.folder hspot (fun _ => rfl)
      (by simp [hs]) (fun hne => absurd hs hne), rfl⟩
  | file id =>
    exact present_of_fileAt (h.fileAt (fileAt_iff.mpr ⟨s, hspot, hs⟩) ht)

/-! ## Single changes -/

theorem AddsFolders.spares (h : AddsFolders k l) : Spares kept touched made k l where
  here := h.here
  next := Nat.le_of_eq h.next.symm
  willing := h.willing
  issued hk location id he := by
    rw [h.next]
    exact hk location id (h.old he)
  folder _ := h.kept
  file _ _ _ := h.kept
  contents _ _ := by simp only [contentsOf, h.contents]
  fresh _ _ he := .inl (h.old he)

theorem spares_addFile (hnone : k.entry? location = none) (hnext : ∀ id, kept id → id < k.nextFile)
    (hmade : made location) : Spares kept touched made k (k.addFile location).2 := by
  have hold {other : Location} {entry : Entry} (he : k.entry? other = some entry) :
      Disk.entry? (k.addFile location).2 other = some entry := by
    have hne : other ≠ location := fun heq => by
      rw [heq, hnone] at he
      cases he
    exact (entry?_setEntry_of_ne hne (.file k.nextFile)).trans he
  refine ⟨rfl, Nat.le_succ _, fun hw => hw, fun hk other id he => ?_, fun _ he => hold he,
    fun _ _ _ he => hold he,
    fun id hid => contentsOf_setContents_of_ne (Nat.ne_of_lt (hnext id hid)) _,
    fun other id he => ?_⟩
  · rcases entry?_setEntry he with ⟨-, hnew⟩ | hbefore
    · cases hnew
      exact Nat.lt_succ_self _
    · exact Nat.lt_succ_of_lt (hk other id hbefore)
  · rcases entry?_setEntry he with ⟨rfl, -⟩ | hbefore
    · exact .inr hmade
    · exact .inl hbefore

theorem spares_setContents {id : Nat} (hid : ¬kept id) (contents : ByteArray) :
    Spares kept touched made k (k.setContents id contents) := by
  refine ⟨rfl, Nat.le_refl _, fun hw => hw, fun hk => hk, fun _ he => he, fun _ _ _ he => he,
    fun other hother => contentsOf_setContents_of_ne ?_ _, fun _ _ he => .inl he⟩
  rintro rfl
  exact hid hother

theorem spares_removeEntry {id : Nat} (hfile : k.entry? location = some (.file id))
    (ht : touched location) : Spares kept touched made k (k.removeEntry location) where
  here := rfl
  next := Nat.le_refl _
  willing hw := hw
  issued hk other id he := hk other id (entry?_removeEntry he)
  folder other he := by
    rw [entry?_removeEntry_of_ne (fun heq => by rw [heq, hfile] at he; cases he), he]
  file other id ho he := by rw [entry?_removeEntry_of_ne (ne_of_touched ht ho), he]
  contents _ _ := rfl
  fresh other id he := .inl (entry?_removeEntry he)

theorem spares_move {source target : Location} {id : Nat} (hs : touched source)
    (ht : touched target) (hmade : made target) (hfile : k.entry? source = some (.file id))
    (hfolder : k.entry? target ≠ some .folder) :
    Spares kept touched made k ((k.removeEntry source).setEntry target (.file id)) := by
  have hold {other : Location} {number : Nat} (he : Disk.entry?
      ((k.removeEntry source).setEntry target (.file id)) other = some (.file number)) :
      other = target ∧ number = id ∨ k.entry? other = some (.file number) := by
    rcases entry?_setEntry he with ⟨hother, hnew⟩ | hbefore
    · exact .inl ⟨hother, Entry.file.inj hnew⟩
    · exact .inr (entry?_removeEntry hbefore)
  have hkept {other : Location} {entry : Entry} (hsource : other ≠ source)
      (htarget : other ≠ target) (he : k.entry? other = some entry) :
      Disk.entry? ((k.removeEntry source).setEntry target (.file id)) other = some entry := by
    rw [entry?_setEntry_of_ne htarget, entry?_removeEntry_of_ne hsource, he]
  refine ⟨rfl, Nat.le_refl _, fun hw => hw, fun hk other number he => ?_, fun other he => ?_,
    fun other number ho he => hkept (ne_of_touched hs ho) (ne_of_touched ht ho) he, fun _ _ => rfl,
    fun other number he => ?_⟩
  · rcases hold he with ⟨-, rfl⟩ | hbefore
    · exact hk source number hfile
    · exact hk other number hbefore
  · refine hkept (fun heq => ?_) (fun heq => hfolder (heq ▸ he)) he
    rw [heq, hfile] at he
    cases he
  · rcases hold he with ⟨rfl, -⟩ | hbefore
    · exact .inr hmade
    · exact .inl hbefore

theorem file_of_remove {p : Path} (h : remove p k = .ok ((), l)) :
    ∃ id, k.entry? (p.locationFrom k.here) = some (.file id) := by
  unfold remove at h
  cases hs : k.spot p with
  | error e =>
    rw [hs] at h
    cases h
  | ok s =>
    obtain ⟨-, hfile, -⟩ := spot_ok hs
    rw [hs] at h
    rcases s with ⟨location, _ | _ | id, slash⟩ <;> cases h
    exact ⟨id, hfile id rfl⟩

theorem target_of_rename {source target : Path} (h : rename source target k = .ok ((), l)) :
    ∃ s, k.spot target = .ok s ∧ s.entry ≠ some .folder ∧ s.slash = false := by
  obtain ⟨new, ht⟩ := spot_of_rename h
  refine ⟨new, ht, ?_⟩
  unfold rename at h
  cases hs : k.spot source with
  | error e =>
    rw [hs] at h
    cases h
  | ok old =>
    rw [hs, ht] at h
    rcases old with ⟨olocation, _ | _ | oid, oslash⟩
    · cases h
    · cases h
    · rcases new with ⟨location, _ | _ | id, _ | _⟩ <;> cases h <;> exact ⟨nofun, rfl⟩

theorem not_folder_of_rename {source target : Path} (h : rename source target k = .ok ((), l)) :
    k.entry? (target.locationFrom k.here) ≠ some .folder := by
  obtain ⟨⟨location, _ | _ | id, slash⟩, ht, hfolder, -⟩ := target_of_rename h
  · simp [(spot_ok ht).2.2 rfl]
  · exact absurd rfl hfolder
  · simp [(spot_ok ht).2.1 id rfl]

theorem fileAt_of_rename {source target : Path} {id : Nat}
    (hsource : k.entry? (source.locationFrom k.here) = some (.file id))
    (h : rename source target k = .ok ((), l)) : l.fileAt target = .ok id := by
  obtain ⟨s, ht, hentry, hslash⟩ := target_of_rename h
  have hfolder := not_folder_of_rename h
  obtain ⟨other, hother, hne, rfl⟩ := rename_ok h
  obtain rfl : id = other := Entry.file.inj (Option.some.inj (hsource.symm.trans hother))
  have hspares : Spares (fun _ => False) (fun _ => True) (fun _ => True) k
      ((k.removeEntry (source.locationFrom k.here)).setEntry (target.locationFrom k.here)
        (.file id)) := spares_move trivial trivial trivial hsource hfolder
  refine fileAt_iff.mpr ⟨_, spot_entry hspares.here hspares.folder ht
    (fun hs => absurd hs hentry) (fun _ => hslash) fun _ => ?_, rfl⟩
  rw [(spot_ok ht).1]
  exact entry?_setEntry_self hne _

end Disk

/-! ## Programs that spare files -/

namespace OnDisk

open Disk

variable {α β : Type} {here : Location} {kept : Nat → Prop} {touched made : Location → Prop}
variable {k l : Disk} {p path folder source target : Path} {front back : String}

/-- Whatever the outcome, the program spares the files that are kept, and other places. -/
def Sparing (here : Location) (kept : Nat → Prop) (touched made : Location → Prop) (m : OnDisk α) :
    Prop :=
  ∀ k : Disk, k.Ready here kept → Spares kept touched made k (m k).2

theorem sparing_pure (a : α) : Sparing here kept touched made (pure a : OnDisk α) :=
  fun k _ => .refl _ _ _ k

theorem sparing_bind {m : OnDisk α} {f : α → OnDisk β} (hm : Sparing here kept touched made m)
    (hf : ∀ k : Disk, k.Ready here kept → Sparing here kept touched made (f (m k).1)) :
    Sparing here kept touched made (m >>= f) := fun k hk =>
  (hm k hk).trans (hf k hk _ (hk.spared (hm k hk)))

theorem spares_counted : Spares kept touched made k k.counted := (addsFolders_counted k).spares

theorem spares_attempt {operation : Disk → Except FileError (α × Disk)}
    (h : ∀ a l, operation k.counted = .ok (a, l) → Spares kept touched made k.counted l) :
    Spares kept touched made k (attempt operation k).2 := by
  rcases hr : attempt operation k with ⟨e | a, l⟩
  · exact attempt_error hr ▸ spares_counted
  · exact spares_counted.trans (h a l (attempt_ok hr))

theorem sparing_present : Sparing here kept touched made (Files.present (m := OnDisk) p) :=
  fun k _ => .refl _ _ _ k

theorem sparing_read : Sparing here kept touched made (Files.read (m := OnDisk) p) :=
  fun _ _ => spares_attempt fun _ _ h => (read_ok h).1 ▸ .refl ..

theorem spareAt_of_makeTemporary (hk : k.Ready here kept)
    (h : Files.makeTemporary (m := OnDisk) folder front back k = (.ok path, l)) :
    k.entry? (path.locationFrom here) = none ∧ l.SpareAt kept (path.locationFrom here) := by
  obtain ⟨n, -, hnone, rfl⟩ := makeTemporary_ok (attempt_ok h)
  change k.entry? (path.locationFrom k.here) = none at hnone
  have hentry := entry?_setEntry_self (k := k) (ne_nil_of_entry hnone nofun) (.file k.nextFile)
  rw [← hk.here]
  exact ⟨hnone, k.nextFile, fun hkept => Nat.lt_irrefl _ (hk.known _ hkept), hentry⟩

theorem spares_of_makeTemporary (hk : k.Ready here kept)
    (h : Files.makeTemporary (m := OnDisk) folder front back k = (.ok path, l)) :
    Spares kept (fun _ => False) (fun location => location = path.locationFrom here) k l := by
  obtain ⟨n, -, hnone, rfl⟩ := makeTemporary_ok (attempt_ok h)
  have hmade : path.locationFrom k.here = path.locationFrom here := by rw [hk.here]
  exact spares_counted.trans
    ((spares_addFile hnone hk.known hmade).trans (addsFolders_nextName _ _).spares)

theorem sparing_makeTemporary
    (h : ∀ n, made ((within folder (temporaryName front back n)).locationFrom here)) :
    Sparing here kept touched made (Files.makeTemporary (m := OnDisk) folder front back) := by
  intro k hk
  rcases hmake : Files.makeTemporary (m := OnDisk) folder front back k with ⟨e | path, l⟩
  · exact attempt_error hmake ▸ spares_counted
  · obtain ⟨n, rfl⟩ := makeTemporary_path (by rw [hmake])
    exact (spares_of_makeTemporary hk hmake).mono (fun _ => False.elim)
      (fun _ heq => heq ▸ h n)

theorem spares_write (hk : k.Ready here kept) (hspare : k.SpareAt kept (p.locationFrom here))
    (contents : ByteArray) :
    Spares kept touched made k (Files.write (m := OnDisk) p contents k).2 :=
  spares_attempt fun _ l hwrite => by
    obtain ⟨id, he, rfl⟩ := write_ok hwrite
    obtain ⟨other, hother, hfile⟩ := hspare
    rw [← hk.here] at hfile
    obtain rfl : id = other :=
      Entry.file.inj (Option.some.inj (he.symm.trans hfile))
    exact spares_setContents hother contents

theorem sparing_openAppend (h : made (p.locationFrom here)) :
    Sparing here kept touched made (Files.openAppend (m := OnDisk) p) :=
  fun k hk => spares_attempt fun id l hopen => by
    rcases openAppend_ok hopen with ⟨-, rfl⟩ | ⟨hnone, hadd⟩
    · exact .refl ..
    · cases hadd
      have hhere : k.counted.here = here := hk.here
      exact spares_addFile hnone hk.known (hhere ▸ h)

theorem not_kept_of_openAppend {handle : Nat} (hk : k.Ready here kept)
    (hspare : ∀ id, k.entry? (p.locationFrom here) = some (.file id) → ¬kept id)
    (h : Files.openAppend (m := OnDisk) p k = (.ok handle, l)) : ¬kept handle := by
  rcases openAppend_ok (attempt_ok h) with ⟨hentry, -⟩ | ⟨-, hadd⟩
  · rw [show k.counted.here = here from hk.here] at hentry
    exact hspare handle hentry
  · cases hadd
    exact fun hkept => Nat.lt_irrefl _ (hk.known _ hkept)

theorem spares_append {handle : Nat} (h : ¬kept handle) (contents : ByteArray) :
    Spares kept touched made k (Files.append (m := OnDisk) handle contents k).2 :=
  spares_attempt fun _ l happend => by
    cases happend
    exact spares_setContents h _

theorem sparing_remove (h : touched (p.locationFrom here)) :
    Sparing here kept touched made (Files.remove (m := OnDisk) p) :=
  fun k hk => spares_attempt fun _ l hremove => by
    obtain ⟨id, hfile⟩ := file_of_remove hremove
    rw [remove_ok hremove]
    exact spares_removeEntry hfile (hk.here ▸ h)

theorem sparing_rename (hs : touched (source.locationFrom here))
    (ht : touched (target.locationFrom here)) (hmade : made (target.locationFrom here)) :
    Sparing here kept touched made (Files.rename (m := OnDisk) source target) :=
  fun k hk => spares_attempt fun _ l hrename => by
    have hfolder := not_folder_of_rename hrename
    obtain ⟨id, he, -, rfl⟩ := rename_ok hrename
    have hhere : k.counted.here = here := hk.here
    exact spares_move (hhere ▸ hs) (hhere ▸ ht) (hhere ▸ hmade) he hfolder

theorem sparing_makeFolders : Sparing here kept touched made (Files.makeFolders (m := OnDisk) p) :=
  fun k _ => (addsOnly_makeFolders p k).spares

theorem sparing_removeIfPresent (h : touched (p.locationFrom here)) :
    Sparing here kept touched made (Files.removeIfPresent (m := OnDisk) p) := by
  refine sparing_bind (sparing_remove h) fun k _ => ?_
  split <;> exact sparing_pure _

/-- A temporary file that is removed again does not count. -/
theorem spares_removed {temporary : Path} (hnone : k.entry? (temporary.locationFrom here) = none)
    (hl : l.Ready here kept) (h : Spares kept (fun location => touched location ∨
      location = temporary.locationFrom here) made k l) :
    Spares kept touched made k (Files.remove (m := OnDisk) temporary l).2 :=
  (h.trans (sparing_remove (.inr rfl) l hl)).outside hnone

theorem spares_of_temporary (hk : k.Ready here kept)
    (h : Files.makeTemporary (m := OnDisk) folder front back k = (.ok path, l))
    (hmade : ∀ n, made ((within folder (temporaryName front back n)).locationFrom here))
    {m : Disk} (hwork : Spares kept
      (fun location => touched location ∨ location = path.locationFrom here) made l m) :
    Spares kept touched made k m := by
  have hmake : Spares kept (fun location => touched location ∨ location = path.locationFrom here)
      made k (Files.makeTemporary (m := OnDisk) folder front back k).2 :=
    sparing_makeTemporary hmade k hk
  rw [h] at hmake
  exact (hmake.trans hwork).outside (spareAt_of_makeTemporary hk h).1

/-- This is the place, and the outcome is no failure. -/
def Placed {ε : Type} (r : Except ε α) (place location : Location) : Prop :=
  (∃ a, r = .ok a) ∧ location = place

/-- If the program succeeds, it puts a file in this place. Whatever the outcome, it makes no others
but where some may be made. -/
def Placing (here : Location) (kept : Nat → Prop) (made : Location → Prop) (place : Location)
    (m : OnDisk (Except FileError α)) : Prop :=
  ∀ k : Disk, k.Ready here kept → Spares kept (Placed (m k).1 place)
    (fun location => made location ∨ Placed (m k).1 place location) k (m k).2

theorem Placing.sparing {place : Location} {m : OnDisk (Except FileError α)}
    (h : Placing here kept made place m) (ht : touched place) (hmade : made place) :
    Sparing here kept touched made m := fun k hk =>
  (h k hk).mono (fun _ hplace => hplace.2 ▸ ht) fun _ hor =>
    hor.elim id fun hplace => hplace.2 ▸ hmade

theorem spares_rename (hk : k.Ready here kept) (source target : Path)
    (made : Location → Prop) :
    let r := (Files.rename (m := OnDisk) source target k).1
    Spares kept
      (fun location => Placed r (target.locationFrom here) location ∨
        location = source.locationFrom here)
      (fun location => made location ∨ Placed r (target.locationFrom here) location)
      k (Files.rename (m := OnDisk) source target k).2 := by
  rcases hmove : Files.rename (m := OnDisk) source target k with ⟨e | _, l⟩
  · exact attempt_error hmove ▸ spares_counted
  · have hplaced : Placed (Except.ok (ε := FileError) ()) (target.locationFrom here)
        (target.locationFrom here) := ⟨⟨_, rfl⟩, rfl⟩
    have hmoved {touched made : Location → Prop} (hs : touched (source.locationFrom here))
        (ht : touched (target.locationFrom here)) (hmade : made (target.locationFrom here)) :
        Spares kept touched made k l := by
      have hspares : Spares kept touched made k _ := sparing_rename hs ht hmade k hk
      rwa [hmove] at hspares
    exact hmoved (.inr rfl) (.inl hplaced) (.inr hplaced)

theorem spares_settle (hk : k.Ready here kept) (source target : Path)
    (made : Location → Prop) :
    let r := (Files.settle (m := OnDisk) source target k).1
    Spares kept
      (fun location => Placed r (target.locationFrom here) location ∨
        location = source.locationFrom here)
      (fun location => made location ∨ Placed r (target.locationFrom here) location)
      k (Files.settle (m := OnDisk) source target k).2 := by
  have hrename := spares_rename hk source target made
  rcases hrun : Files.settle (m := OnDisk) source target k with ⟨r, l⟩
  rw [Files.settle, bind_apply] at hrun
  rcases hmove : Files.rename (m := OnDisk) source target k with ⟨e | _, k₁⟩ <;>
    rw [hmove] at hrun hrename <;> cases hrun
  · exact hrename.trans (sparing_remove (.inr rfl) k₁ (hk.spared hrename))
  · exact hrename

theorem placing_replace
    (hfresh : ∀ n, made ((within folder (temporaryName front back n)).locationFrom here))
    (contents : ByteArray) :
    Placing here kept made (target.locationFrom here)
      (Files.replace (m := OnDisk) folder target front back contents) := by
  intro k hk
  rcases hrun : Files.replace (m := OnDisk) folder target front back contents k with ⟨r, l⟩
  rw [Files.replace, bind_apply] at hrun
  rcases hmake : Files.makeTemporary (m := OnDisk) folder front back k with ⟨e | temporary, k₁⟩ <;>
    rw [hmake] at hrun
  · cases hrun
    exact attempt_error hmake ▸ spares_counted
  have hk₁ : k₁.Ready here kept := by
    have hspares : Spares kept (fun _ => False) made k _ := sparing_makeTemporary hfresh k hk
    rw [hmake] at hspares
    exact hk.spared hspares
  refine spares_of_temporary hk hmake (fun n => .inl (hfresh n)) ?_
  have hwrite (touched made : Location → Prop) :
      Spares kept touched made k₁ (Files.write (m := OnDisk) temporary contents k₁).2 :=
    spares_write hk₁ (spareAt_of_makeTemporary hk hmake).2 contents
  dsimp only at hrun ⊢
  rw [bind_apply] at hrun
  rcases hw : Files.write (m := OnDisk) temporary contents k₁ with ⟨e | _, k₂⟩ <;>
    rw [hw] at hrun hwrite <;> refine (hwrite _ _).trans ?_ <;>
    have hk₂ := hk₁.spared (hwrite (fun _ => False) (fun _ => False))
  · cases hrun
    exact sparing_remove (.inr rfl) k₂ hk₂
  · have hsettle := spares_settle hk₂ temporary target made
    rwa [show Files.settle (m := OnDisk) temporary target k₂ = (r, l) from hrun] at hsettle

theorem sparing_replace (ht : touched (target.locationFrom here))
    (hmade : made (target.locationFrom here))
    (hfresh : ∀ n, made ((within folder (temporaryName front back n)).locationFrom here))
    (contents : ByteArray) :
    Sparing here kept touched made
      (Files.replace (m := OnDisk) folder target front back contents) :=
  (placing_replace hfresh contents).sparing ht hmade

/-- Contents that were written and moved are reached under the path that they were moved to. -/
theorem fileAt_of_write_rename {k₁ k₂ : Disk} {temporary : Path} {contents : ByteArray}
    (hwrite : Files.write (m := OnDisk) temporary contents k = (.ok (), k₁))
    (hmove : Files.rename (m := OnDisk) temporary target k₁ = (.ok (), k₂)) :
    ∃ id, k₂.fileAt target = .ok id ∧ k₂.contentsOf id = contents := by
  obtain ⟨id, hid, rfl⟩ := write_ok (attempt_ok hwrite)
  have hmoved := attempt_ok hmove
  have hsource : Disk.entry? (k.counted.setContents id contents).counted
      (temporary.locationFrom (k.counted.setContents id contents).counted.here) =
      some (.file id) := hid
  refine ⟨id, fileAt_of_rename hsource hmoved, ?_⟩
  obtain ⟨other, -, -, rfl⟩ := rename_ok hmoved
  exact contentsOf_setContents_self (k := k.counted) id contents

theorem fileAt_of_replace {contents : ByteArray}
    (h : Files.replace (m := OnDisk) folder target front back contents k = (.ok (), l)) :
    ∃ id, l.fileAt target = .ok id ∧ l.contentsOf id = contents := by
  rw [Files.replace, bind_apply] at h
  rcases hmake : Files.makeTemporary (m := OnDisk) folder front back k with ⟨e | temporary, k₁⟩ <;>
    rw [hmake] at h
  · cases h
  dsimp only at h
  rw [bind_apply] at h
  rcases hwrite : Files.write (m := OnDisk) temporary contents k₁ with ⟨e | _, k₂⟩ <;>
    rw [hwrite] at h
  · cases h
  dsimp only at h
  rw [Files.settle, bind_apply] at h
  rcases hmove : Files.rename (m := OnDisk) temporary target k₂ with ⟨e | _, k₃⟩ <;>
    rw [hmove] at h <;> cases h
  exact fileAt_of_write_rename hwrite hmove

end OnDisk

end IrFacts
