import IrFacts.Proofs.Files.Locations

/-!
# What file operations leave alone

An operation on a modelled disk touches the locations that its paths lead to.
Elsewhere every entry stays, except that folders may be made where nothing
stood, and a file keeps its contents if no other entry leads to them.
-/

set_option autoImplicit false

namespace IrFacts

namespace Disk

variable {k l : Disk}

/-! ## Entries and contents -/

theorem lookup_filter_of_ne {α β : Type} [BEq α] [LawfulBEq α] [DecidableEq α] {a b : α}
    (h : b ≠ a) (entries : List (α × β)) :
    (entries.filter fun e => e.1 ≠ a).lookup b = entries.lookup b := by
  induction entries with
  | nil => rfl
  | cons e rest ih =>
    by_cases he : e.1 = a
    · have hb : (b == e.1) = false := beq_false_of_ne (he ▸ h)
      rw [List.filter_cons_of_neg (by simp [he]), ih, List.lookup_cons, hb]
    · rw [List.filter_cons_of_pos (by simp [he]), List.lookup_cons, List.lookup_cons, ih]

theorem lookup_filter_self {α β : Type} [BEq α] [LawfulBEq α] [DecidableEq α] (a : α)
    (entries : List (α × β)) : (entries.filter fun e => e.1 ≠ a).lookup a = none := by
  apply List.lookup_eq_none_iff.mpr
  intro e he
  have hne : e.1 ≠ a := by simpa using (List.mem_filter.mp he).2
  exact bne_iff_ne.mpr hne.symm

theorem entry?_setEntry_of_ne {location other : Location} (h : other ≠ location) (entry : Entry) :
    Disk.entry? (k.setEntry location entry) other = k.entry? other := by
  have hb : (other == location) = false := beq_false_of_ne h
  unfold entry? setEntry
  rw [List.lookup_cons, hb, lookup_filter_of_ne h]

theorem entry?_setEntry_self {location : Location} (h : location ≠ []) (entry : Entry) :
    Disk.entry? (k.setEntry location entry) location = some entry := by
  simp [ entry?, setEntry, h]

theorem entry?_removeEntry_of_ne {location other : Location} (h : other ≠ location) :
    Disk.entry? (k.removeEntry location) other = k.entry? other := by
  unfold entry? removeEntry
  rw [lookup_filter_of_ne h]

theorem entry?_removeEntry_self {location : Location} (h : location ≠ []) :
    Disk.entry? (k.removeEntry location) location = none := by
  have hempty : location.isEmpty = false := by simpa using h
  simp only [ entry?, removeEntry, hempty, lookup_filter_self]
  rfl

theorem entry?_ofFolder (names location : Location) (id : Nat) :
    Disk.entry? (Disk.ofFolder names) location ≠ some (.file id) := by
  unfold entry? ofFolder
  split
  · exact nofun
  · intro h
    obtain ⟨before, after, hsplit, -⟩ := List.lookup_eq_some_iff.mp h
    have hmem : (location, Entry.file id) ∈ (Disk.ofFolder names).entries :=
      hsplit ▸ List.mem_append_right _ (List.mem_cons_self ..)
    obtain ⟨n, -, hn⟩ := List.mem_map.mp hmem
    cases hn

theorem ne_nil_of_entry {location : Location} {entry : Option Entry}
    (h : k.entry? location = entry) (hfolder : entry ≠ some .folder) : location ≠ [] := by
  rintro rfl
  exact hfolder h.symm

theorem contentsOf_setContents_of_ne {id other : Nat} (h : other ≠ id) (contents : ByteArray) :
    (k.setContents id contents).contentsOf other = k.contentsOf other := by
  have hb : (other == id) = false := beq_false_of_ne h
  unfold contentsOf setContents
  rw [List.lookup_cons, hb, lookup_filter_of_ne h]

theorem contentsOf_setContents_self (id : Nat) (contents : ByteArray) :
    (k.setContents id contents).contentsOf id = contents := by
  simp [contentsOf, setContents]

/-! ## Frames -/

/-- Every file has been given its number by the disk. -/
def Issued (k : Disk) : Prop :=
  ∀ location id, k.entry? location = some (.file id) → id < k.nextFile

/-- What stands at a location, if it is a file, stands nowhere else. -/
def Alone (k : Disk) (location : Location) : Prop :=
  ∀ id other, k.entry? location = some (.file id) → k.entry? other = some (.file id) →
    other = location

def Unlinked (k : Disk) : Prop := ∀ location, k.Alone location

/-- Between `k` and `l` only locations in `touched` were changed, but for new
folders. -/
structure Frame (touched : Location → Prop) (k l : Disk) : Prop where
  here : l.here = k.here
  next : k.nextFile ≤ l.nextFile
  issued : k.Issued → l.Issued
  entry : ∀ location, ¬touched location → l.entry? location = k.entry? location ∨
    k.entry? location = none ∧ l.entry? location = some .folder
  alone : k.Issued → ∀ location, ¬touched location → k.Alone location → l.Alone location
  contents : k.Issued → ∀ location id, ¬touched location → k.Alone location →
    k.entry? location = some (.file id) → l.contentsOf id = k.contentsOf id
  unlinked : k.Issued → k.Unlinked → l.Unlinked

variable {touched : Location → Prop}

theorem Frame.refl (touched : Location → Prop) (k : Disk) : Frame touched k k :=
  ⟨rfl, Nat.le_refl _, fun h => h, fun _ _ => .inl rfl, fun _ _ _ h => h,
    fun _ _ _ _ _ _ => rfl, fun _ h => h⟩

theorem Frame.mono {touched' : Location → Prop} (h : Frame touched k l)
    (hmore : ∀ location, touched location → touched' location) : Frame touched' k l where
  here := h.here
  next := h.next
  issued := h.issued
  entry location ht := h.entry location fun htouched => ht (hmore location htouched)
  alone hk location ht := h.alone hk location fun htouched => ht (hmore location htouched)
  contents hk location id ht :=
    h.contents hk location id fun htouched => ht (hmore location htouched)
  unlinked := h.unlinked

theorem Frame.file (h : Frame touched k l) {location : Location} (ht : ¬touched location)
    {id : Nat} : l.entry? location = some (.file id) ↔ k.entry? location = some (.file id) := by
  rcases h.entry location ht with he | ⟨hk, hl⟩
  · rw [he]
  · simp [hk, hl]

theorem Frame.trans {m : Disk} (h : Frame touched k l) (h' : Frame touched l m) :
    Frame touched k m where
  here := h'.here.trans h.here
  next := Nat.le_trans h.next h'.next
  issued hk := h'.issued (h.issued hk)
  entry location ht := by
    rcases h'.entry location ht with he | ⟨hl, hm⟩
    · rw [he]
      exact h.entry location ht
    · rcases h.entry location ht with he | ⟨-, hfolder⟩
      · exact .inr ⟨he ▸ hl, hm⟩
      · rw [hl] at hfolder
        cases hfolder
  alone hk location ht ha := h'.alone (h.issued hk) location ht (h.alone hk location ht ha)
  contents hk location id ht ha he :=
    (h'.contents (h.issued hk) location id ht (h.alone hk location ht ha)
      ((h.file ht).mpr he)).trans (h.contents hk location id ht ha he)
  unlinked hk hu := h'.unlinked (h.issued hk) (h.unlinked hk hu)

def Willing (k : Disk) : Prop := ∀ n, k.calls ≤ n → k.refuses n = none

/-- Between `k` and `l` folders were made where nothing stood, and nothing else was done. -/
structure AddsFolders (k l : Disk) : Prop where
  here : l.here = k.here
  next : l.nextFile = k.nextFile
  willing : k.Willing → l.Willing
  contents : l.contents = k.contents
  entry : ∀ location, l.entry? location = k.entry? location ∨
    k.entry? location = none ∧ l.entry? location = some .folder

theorem AddsFolders.trans {m : Disk} (h : AddsFolders k l) (h' : AddsFolders l m) :
    AddsFolders k m where
  here := h'.here.trans h.here
  next := h'.next.trans h.next
  willing hk := h'.willing (h.willing hk)
  contents := h'.contents.trans h.contents
  entry location := by
    rcases h'.entry location with he | ⟨hl, hm⟩
    · rw [he]
      exact h.entry location
    · rcases h.entry location with he | ⟨-, hfolder⟩
      · exact .inr ⟨he ▸ hl, hm⟩
      · rw [hl] at hfolder
        cases hfolder

theorem AddsFolders.kept (h : AddsFolders k l) {location : Location} {entry : Entry}
    (he : k.entry? location = some entry) : l.entry? location = some entry := by
  rcases h.entry location with hsame | ⟨hnone, -⟩
  · rw [hsame, he]
  · rw [hnone] at he
    cases he

theorem AddsFolders.old (h : AddsFolders k l) {location : Location} {id : Nat}
    (he : l.entry? location = some (.file id)) : k.entry? location = some (.file id) := by
  rcases h.entry location with hsame | ⟨-, hfolder⟩
  · rw [← hsame, he]
  · rw [hfolder] at he
    cases he

theorem AddsFolders.frame (h : AddsFolders k l) : Frame touched k l := by
  have halone (location : Location) (ha : k.Alone location) : l.Alone location :=
    fun id other he ho => ha id other (h.old he) (h.old ho)
  refine ⟨h.here, Nat.le_of_eq h.next.symm, fun hk location id he => ?_,
    fun location _ => h.entry location, fun _ location _ ha => halone location ha,
    fun _ _ id _ _ _ => ?_, fun _ hu location => halone location (hu location)⟩
  · rw [h.next]
    exact hk location id (h.old he)
  · simp only [contentsOf, h.contents]

theorem addsFolders_makeFolder {location : Location} (hnone : k.entry? location = none) :
    AddsFolders k (k.setEntry location .folder) := by
  refine ⟨rfl, rfl, id, rfl, fun other => ?_⟩
  by_cases ho : other = location
  · subst ho
    exact .inr ⟨hnone, entry?_setEntry_self (ne_nil_of_entry hnone nofun) _⟩
  · exact .inl (entry?_setEntry_of_ne ho _)

theorem addsFolders_of_eq (hhere : l.here = k.here) (hnext : l.nextFile = k.nextFile)
    (hwilling : k.Willing → l.Willing) (hentries : l.entries = k.entries)
    (hcontents : l.contents = k.contents) : AddsFolders k l :=
  ⟨hhere, hnext, hwilling, hcontents, fun location => .inl (by simp only [ entry?, hentries])⟩

theorem addsFolders_nextName (k : Disk) (n : Nat) : AddsFolders k { k with nextName := n } :=
  addsFolders_of_eq rfl rfl id rfl rfl

/-- Files come to stand at touched locations only, and they are new or were
touched themselves. -/
theorem frame_of_files (hhere : l.here = k.here) (hnext : k.nextFile ≤ l.nextFile)
    (hentry : ∀ location, ¬touched location → l.entry? location = k.entry? location)
    (hfile : ∀ location id, l.entry? location = some (.file id) →
      k.entry? location = some (.file id) ∨ id < l.nextFile ∧ k.nextFile ≤ id ∨
        ∃ source, touched source ∧ k.entry? source = some (.file id))
    (hcontents : ∀ id < k.nextFile, l.contentsOf id = k.contentsOf id)
    (hunlinked : k.Issued → k.Unlinked → l.Unlinked) : Frame touched k l where
  here := hhere
  next := hnext
  issued hk location id he := by
    rcases hfile location id he with hold | ⟨hnew, -⟩ | ⟨source, -, hs⟩
    · exact Nat.lt_of_lt_of_le (hk location id hold) hnext
    · exact hnew
    · exact Nat.lt_of_lt_of_le (hk source id hs) hnext
  entry location ht := .inl (hentry location ht)
  alone hk location ht ha id other he ho := by
    rw [hentry location ht] at he
    rcases hfile other id ho with hold | ⟨-, hnew⟩ | ⟨source, hts, hs⟩
    · exact ha id other he hold
    · exact absurd (hk location id he) (Nat.not_lt.mpr hnew)
    · exact absurd (ha id source he hs ▸ hts) ht
  contents hk location id _ _ he := hcontents id (hk location id he)
  unlinked := hunlinked

theorem entry?_setEntry {location other : Location} {entry found : Entry}
    (h : Disk.entry? (k.setEntry location entry) other = some found) :
    other = location ∧ found = entry ∨ k.entry? other = some found := by
  by_cases ho : other = location
  · subst ho
    by_cases hne : other = []
    · subst hne
      exact .inr h
    · rw [entry?_setEntry_self hne] at h
      exact .inl ⟨rfl, (Option.some.inj h).symm⟩
  · exact .inr (entry?_setEntry_of_ne ho _ ▸ h)

theorem unlinked_setEntry {location : Location} {id : Nat} (hu : k.Unlinked)
    (hnew : ∀ other, k.entry? other = some (.file id) → other = location) :
    Disk.Unlinked (k.setEntry location (.file id)) := by
  intro first number second hfirst hsecond
  rcases entry?_setEntry hfirst with ⟨rfl, hf⟩ | hf <;>
    rcases entry?_setEntry hsecond with ⟨rfl, hs⟩ | hs
  · rfl
  · cases hf
    exact hnew second hs
  · cases hs
    exact (hnew first hf).symm
  · exact hu first number second hf hs

/-- What stands after an entry was removed stood there before. -/
theorem entry?_removeEntry {location other : Location} {found : Entry}
    (h : Disk.entry? (k.removeEntry location) other = some found) :
    k.entry? other = some found := by
  by_cases ho : other = location
  · subst ho
    by_cases hne : other = []
    · subst hne
      exact h
    · rw [entry?_removeEntry_self hne] at h
      cases h
  · exact entry?_removeEntry_of_ne ho ▸ h

theorem ne_of_touched {location other : Location} (ht : touched location) (ho : ¬touched other) :
    other ≠ location := by
  rintro rfl
  exact ho ht

theorem frame_addFile {location : Location} (ht : touched location) :
    Frame touched k (k.addFile location).2 := by
  refine frame_of_files rfl (Nat.le_succ _)
    (fun other ho => entry?_setEntry_of_ne (ne_of_touched ht ho) _) (fun other id he => ?_)
    (fun id hid => contentsOf_setContents_of_ne (Nat.ne_of_lt hid) _) fun hk hu => ?_
  · rcases entry?_setEntry he with ⟨-, hnew⟩ | hold
    · cases hnew
      exact .inr (.inl ⟨Nat.lt_succ_self _, Nat.le_refl _⟩)
    · exact .inl hold
  · exact unlinked_setEntry (k := k) hu fun other he => absurd (hk other _ he) (Nat.lt_irrefl _)

theorem unlinked_removeEntry {location : Location} (hu : k.Unlinked) :
    Disk.Unlinked (k.removeEntry location) :=
  fun first id second hf hs => hu first id second (entry?_removeEntry hf) (entry?_removeEntry hs)

theorem frame_removeEntry {location : Location} (ht : touched location) :
    Frame touched k (k.removeEntry location) :=
  frame_of_files rfl (Nat.le_refl _)
    (fun _ ho => entry?_removeEntry_of_ne (ne_of_touched ht ho))
    (fun _ _ he => .inl (entry?_removeEntry he)) (fun _ _ => rfl)
    fun _ hu => unlinked_removeEntry hu

theorem frame_move {source target : Location} {id : Nat} (hs : touched source)
    (ht : touched target) (he : k.entry? source = some (.file id)) :
    Frame touched k ((k.removeEntry source).setEntry target (.file id)) := by
  refine frame_of_files rfl (Nat.le_refl _) (fun other ho => ?_) (fun other number hn => ?_)
    (fun _ _ => rfl) fun _ hu => unlinked_setEntry (unlinked_removeEntry hu) fun other ho => ?_
  · rw [entry?_setEntry_of_ne (ne_of_touched ht ho), entry?_removeEntry_of_ne (ne_of_touched hs ho)]
  · rcases entry?_setEntry hn with ⟨-, hmoved⟩ | hold
    · cases hmoved
      exact .inr (.inr ⟨source, hs, he⟩)
    · exact .inl (entry?_removeEntry hold)
  · obtain rfl := hu source id other he (entry?_removeEntry ho)
    rw [entry?_removeEntry_self (ne_nil_of_entry he nofun)] at ho
    cases ho

/-- A file that stood alone still does when it was moved. -/
theorem alone_move {source target : Location} {id : Nat} (ha : k.Alone source)
    (hs : k.entry? source = some (.file id)) (hne : target ≠ []) :
    ((k.removeEntry source).setEntry target (.file id)).Alone target := by
  intro number other ht ho
  refine Decidable.byContradiction fun hother => ?_
  rw [entry?_setEntry_self hne] at ht
  cases ht
  rw [entry?_setEntry_of_ne hother] at ho
  obtain rfl := ha id other hs (entry?_removeEntry ho)
  rw [entry?_removeEntry_self (ne_nil_of_entry hs nofun)] at ho
  cases ho

theorem frame_setContents {location : Location} {id : Nat} (ht : touched location)
    (he : k.entry? location = some (.file id)) (contents : ByteArray) :
    Frame touched k (k.setContents id contents) := by
  refine ⟨rfl, Nat.le_refl _, fun hk => hk, fun _ _ => .inl rfl, fun _ _ _ ha => ha,
    fun _ other number ho ha hother => ?_, fun _ hu => hu⟩
  apply contentsOf_setContents_of_ne
  rintro rfl
  exact ne_of_touched ht ho (ha number location hother he).symm

end Disk

end IrFacts
