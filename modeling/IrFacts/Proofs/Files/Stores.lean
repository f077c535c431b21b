import IrFacts.Proofs.Files.Operations

/-!
# Files on their way

A file is made, written and moved, and other things happen in between. As long
as they leave its place alone, it is the same file with the same contents, and
it stands nowhere else.
-/

set_option autoImplicit false

namespace IrFacts

namespace Disk

variable {k l : Disk} {start : Nat} {location : Location} {bytes : ByteArray}

/-- A file whose number is `start` or a later one stands here and nowhere else, and holds
these bytes. -/
def Stores (k : Disk) (start : Nat) (location : Location) (bytes : ByteArray) : Prop :=
  ∃ id, start ≤ id ∧ k.entry? location = some (.file id) ∧ k.Alone location ∧
    k.contentsOf id = bytes

theorem file_inj {id other : Nat} (h : k.entry? location = some (.file id))
    (h' : k.entry? location = some (.file other)) : id = other :=
  Entry.file.inj (Option.some.inj (h.symm.trans h'))

theorem Stores.mono {earlier : Nat} (h : k.Stores start location bytes) (hle : earlier ≤ start) :
    k.Stores earlier location bytes := by
  obtain ⟨id, hid, hrest⟩ := h
  exact ⟨id, Nat.le_trans hle hid, hrest⟩

theorem Stores.frame {touched : Location → Prop} (h : k.Stores start location bytes)
    (hk : k.Issued) (hframe : Frame touched k l) (ht : ¬touched location) :
    l.Stores start location bytes := by
  obtain ⟨id, hid, hentry, halone, hcontents⟩ := h
  exact ⟨id, hid, (hframe.file ht).mpr hentry, hframe.alone hk location ht halone,
    (hframe.contents hk location id ht halone hentry).trans hcontents⟩

theorem Stores.setContents (h : k.Stores start location bytes) {other : Nat}
    (hother : other < start) (contents : ByteArray) :
    Disk.Stores (k.setContents other contents) start location bytes := by
  obtain ⟨id, hid, hentry, halone, hcontents⟩ := h
  have hne : id ≠ other := Nat.ne_of_gt (Nat.lt_of_lt_of_le hother hid)
  exact ⟨id, hid, hentry, halone, (contentsOf_setContents_of_ne hne contents).trans hcontents⟩

theorem follow_congr (h : ∀ location, k.entry? location = l.entry? location) (place : Location)
    (names : List String) : k.follow place names = l.follow place names := by
  induction names generalizing place with
  | nil => rfl
  | cons name rest ih => simp only [follow, ih, h]

theorem spot_counted (p : Path) : k.counted.spot p = k.spot p := by
  have hentries (location : Location) : k.counted.entry? location = k.entry? location := rfl
  unfold spot
  rw [follow_congr hentries]
  rfl

theorem fileAt_counted (p : Path) : k.counted.fileAt p = k.fileAt p := by
  unfold fileAt stat
  rw [spot_counted]

theorem present_counted (p : Path) : k.counted.present p = k.present p := by
  unfold present stat
  rw [spot_counted]

end Disk

namespace OnDisk

open Disk

variable {k l : Disk} {start : Nat} {bytes contents : ByteArray} {path source target : Path}

theorem stores_makeTemporary (hk : k.Issued) {folder : Path} {front back : String}
    (h : Files.makeTemporary (m := OnDisk) folder front back k = (.ok path, l)) :
    ∃ bytes, l.Stores k.nextFile (path.locationFrom l.here) bytes := by
  obtain ⟨hhere, halone, hentry⟩ := makeTemporary_alone hk h
  rw [hhere]
  exact ⟨_, k.nextFile, Nat.le_refl _, hentry, halone, rfl⟩

theorem stores_write (hstores : k.Stores start (path.locationFrom k.here) bytes)
    (h : Files.write (m := OnDisk) path contents k = (.ok (), l)) :
    l.Stores start (path.locationFrom l.here) contents := by
  obtain ⟨id, hid, hentry, halone, -⟩ := hstores
  obtain ⟨other, hother, rfl⟩ := write_ok (attempt_ok h)
  obtain rfl := file_inj hentry hother
  exact ⟨id, hid, hentry, halone, contentsOf_setContents_self (k := k.counted) id contents⟩

theorem stores_rename (hstores : k.Stores start (source.locationFrom k.here) bytes)
    (h : Files.rename (m := OnDisk) source target k = (.ok (), l)) :
    l.Stores start (target.locationFrom l.here) bytes := by
  obtain ⟨id, hid, hentry, halone, hcontents⟩ := hstores
  obtain ⟨other, hother, hne, rfl⟩ := rename_ok (attempt_ok h)
  obtain rfl := file_inj hentry hother
  exact ⟨id, hid, entry?_setEntry_self hne _, alone_move (k := k.counted) halone hentry hne,
    hcontents⟩

theorem present_of_rename {entry : Entry}
    (hentry : k.entry? (target.locationFrom k.here) = some entry)
    (h : Files.rename (m := OnDisk) source target k = (.ok (), l)) : k.present target = true := by
  obtain ⟨s, hs⟩ := spot_of_rename (attempt_ok h)
  rw [spot_counted] at hs
  rcases s with ⟨location, _ | found, slash⟩
  · rw [(spot_ok hs).2.2 rfl] at hentry
    cases hentry
  · simp only [present, stat, hs]
    rfl

end OnDisk

end IrFacts
