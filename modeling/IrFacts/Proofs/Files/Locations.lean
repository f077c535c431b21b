import IrFacts.Files.Disk

/-!
# Where paths lead

On a disk without links the location of a path can be read off its names. A
path whose last segment is a name leads to a location that ends in this name.
-/

set_option autoImplicit false

namespace IrFacts

namespace Path

def IsName (segment : String) : Prop := isJunk segment = false ∧ segment ≠ ".."

theorem segmentsOf_plain {text : List Char} (h : '/' ∉ text) : segmentsOf text = [text] := by
  induction text with
  | nil => rfl
  | cons c rest ih =>
    have hc : c ≠ '/' := fun he => h (by simp [he])
    rw [segmentsOf, if_neg hc, ih fun hr => h (by simp [hr])]

/-- The segments of a text in front of whatever ending without a slash. -/
theorem segmentsOf_append (text : List Char) : ∃ before last, ∀ ending, '/' ∉ ending →
    segmentsOf (text ++ ending) = before ++ [last ++ ending] := by
  induction text with
  | nil => exact ⟨[], [], fun ending h => segmentsOf_plain h⟩
  | cons c rest ih =>
    obtain ⟨before, last, hrest⟩ := ih
    by_cases hc : c = '/'
    · refine ⟨[] :: before, last, fun ending h => ?_⟩
      rw [List.cons_append, segmentsOf, if_pos hc, hrest ending h]
      rfl
    · cases before with
      | nil =>
        refine ⟨[], c :: last, fun ending h => ?_⟩
        rw [List.cons_append, segmentsOf, if_neg hc, hrest ending h]
        rfl
      | cons first more =>
        refine ⟨(c :: first) :: more, last, fun ending h => ?_⟩
        rw [List.cons_append, segmentsOf, if_neg hc, hrest ending h]
        rfl

theorem segments_append (text : String) : ∃ before last, ∀ ending : String,
    '/' ∉ ending.toList → (Path.mk (text ++ ending)).segments = before ++ [last ++ ending] := by
  obtain ⟨before, last, h⟩ := segmentsOf_append text.toList
  refine ⟨before.map String.ofList, String.ofList last, fun ending hending => ?_⟩
  rw [segments, String.toList_append, h _ hending]
  simp [String.ofList_append]

theorem segmentsOf_ne_nil (text : List Char) : segmentsOf text ≠ [] := by
  obtain ⟨before, last, h⟩ := segmentsOf_append text
  have hnone := h [] List.not_mem_nil
  rw [List.append_nil] at hnone
  rw [hnone]
  exact List.append_ne_nil_of_right_ne_nil _ (List.cons_ne_nil _ _)

theorem intercalate_segmentsOf (text : List Char) :
    ['/'].intercalate (segmentsOf text) = text := by
  induction text with
  | nil => rfl
  | cons c rest ih =>
    rw [segmentsOf]
    split
    · next hc =>
      rw [List.intercalate_cons_of_ne_nil (segmentsOf_ne_nil rest), ih, hc]
      rfl
    · cases hsegments : segmentsOf rest with
      | nil => exact absurd hsegments (segmentsOf_ne_nil rest)
      | cons first more =>
        rw [hsegments] at ih
        cases more with
        | nil => simpa using ih
        | cons second more => simpa using ih

theorem segments_inj {p q : Path} (h : p.segments = q.segments) : p = q := by
  have hsame := congrArg (·.map String.toList) h
  simp only [segments, List.map_map] at hsame
  have hid : String.toList ∘ String.ofList = id := funext fun _ => String.toList_ofList
  rw [hid, List.map_id, List.map_id] at hsame
  have htext : p.text.toList = q.text.toList := by
    rw [← intercalate_segmentsOf p.text.toList, hsame, intercalate_segmentsOf]
  exact congrArg Path.mk (String.toList_inj.mp htext)

theorem segmentsOf_slash (text rest : List Char) :
    segmentsOf (text ++ '/' :: rest) = segmentsOf text ++ segmentsOf rest := by
  induction text with
  | nil => rfl
  | cons c text ih =>
    rw [List.cons_append, segmentsOf, segmentsOf, ih]
    split
    · rfl
    · cases hsegments : segmentsOf text with
      | nil => exact absurd hsegments (segmentsOf_ne_nil text)
      | cons first more => rfl

theorem segments_slash (text rest : String) :
    (Path.mk (text ++ "/" ++ rest)).segments =
      (Path.mk text).segments ++ (Path.mk rest).segments := by
  simp only [segments, String.toList_append]
  rw [List.append_assoc, show "/".toList = ['/'] from rfl, List.singleton_append, segmentsOf_slash,
    List.map_append]

/-- A segment that ends in anything but a dot is a name. -/
theorem isName_of_getLast? {segment : String} {c : Char} (h : segment.toList.getLast? = some c)
    (hc : c ≠ '.') : IsName segment := by
  have hne (other : String) (ho : other.toList.getLast? ≠ some c) : segment ≠ other :=
    fun he => ho (he ▸ h)
  have hdot : (some '.' : Option Char) ≠ some c := fun he => hc (Option.some.inj he).symm
  refine ⟨?_, hne ".." hdot⟩
  simp only [isJunk, Bool.or_eq_false_iff, decide_eq_false_iff_not]
  exact ⟨hne "" nofun, hne "." hdot⟩

def walk : Location → List String → Location
  | place, [] => place
  | place, name :: rest =>
    if isJunk name then walk place rest
    else if name = ".." then walk place.dropLast rest
    else walk (place ++ [name]) rest

/-- Where a path leads, whatever stands there. -/
def locationFrom (here : Location) (p : Path) : Location :=
  walk (if p.isAbsolute then [] else here) p.segments

theorem walk_append (place : Location) (names more : List String) :
    walk place (names ++ more) = walk (walk place names) more := by
  induction names generalizing place with
  | nil => rfl
  | cons name rest ih =>
    simp only [List.cons_append, walk]
    split
    · exact ih place
    · split <;> exact ih _

theorem walk_name {name : String} (h : IsName name) (place : Location) :
    walk place [name] = place ++ [name] := by simp [walk, h.1, h.2]

theorem walk_blank {names : List String} (h : names.all (· = "")) (place : Location) :
    walk place names = place := by
  induction names with
  | nil => rfl
  | cons name rest ih =>
    obtain ⟨hname, hrest⟩ := by simpa using h
    subst hname
    rw [walk, if_pos (by rfl)]
    exact ih (by simpa using hrest)

theorem walk_names {names : List String} (h : ∀ name ∈ names, IsName name) (place : Location) :
    walk place names = place ++ names := by
  induction names generalizing place with
  | nil => exact (List.append_nil _).symm
  | cons name rest ih =>
    obtain ⟨hname, hrest⟩ := List.forall_mem_cons.mp h
    rw [← List.singleton_append, walk_append, walk_name hname, ih hrest, List.append_assoc]

theorem walk_below {names : List String} (h : ".." ∉ names) (place : Location) :
    place <+: walk place names := by
  induction names generalizing place with
  | nil => exact List.prefix_rfl
  | cons name rest ih =>
    have hname : name ≠ ".." := fun he => h (he ▸ List.mem_cons_self ..)
    have hrest : ".." ∉ rest := fun hm => h (List.mem_cons_of_mem _ hm)
    rw [walk]
    split
    · exact ih hrest place
    · exact (List.prefix_append place [name]).trans (ih hrest _)

theorem isAbsolute_append {text : String} (h : text ≠ "") (rest : String) :
    isAbsolute ⟨text ++ rest⟩ = isAbsolute ⟨text⟩ := by
  cases hlist : text.toList with
  | nil => exact absurd (String.toList_eq_nil_iff.mp hlist) h
  | cons c cs => simp [isAbsolute, hlist]

/-- A relative path is put behind a slash, unless there is nothing in front of it. -/
theorem join_eq (p : Path) {q : Path} (hq : q.isAbsolute = false) :
    p.text = "" ∧ p.join q = q ∨ p.text ≠ "" ∧ ∃ front, p.join q = ⟨front ++ "/" ++ q.text⟩ ∧
      (p.text = front ∨ p.text = front ++ "/") := by
  by_cases hempty : p.text = ""
  · exact .inl ⟨hempty, by simp [join, hq, hempty]⟩
  by_cases hslash : p.text.toList.getLast? = some '/'
  · obtain ⟨front, hfront⟩ := List.getLast?_eq_some_iff.mp hslash
    have htext : p.text = String.ofList front ++ "/" := by
      apply String.toList_inj.mp
      rw [hfront, String.toList_append, String.toList_ofList]
      rfl
    refine .inr ⟨hempty, String.ofList front, ?_, .inr htext⟩
    simp [join, hq, ← htext, hslash]
  · exact .inr ⟨hempty, p.text, by simp [join, hq, hempty, hslash], .inl rfl⟩

theorem segments_empty : segments ⟨""⟩ = [""] := rfl

theorem locationFrom_join (here : Location) (p : Path) {q : Path} (hq : q.isAbsolute = false) :
    (p.join q).locationFrom here = walk (p.locationFrom here) q.segments := by
  obtain ⟨text⟩ := p
  rcases join_eq ⟨text⟩ hq with ⟨hempty, hjoin⟩ | ⟨hempty, front, hjoin, hfront⟩
  · obtain rfl : text = "" := hempty
    rw [hjoin, locationFrom, hq]
    rfl
  · rcases hfront with hfront | hfront <;> obtain rfl : text = _ := hfront
    · rw [hjoin, locationFrom, locationFrom, String.append_assoc, isAbsolute_append hempty,
        ← String.append_assoc, segments_slash, walk_append]
    · have hblank := segments_slash front ""
      rw [String.append_empty, segments_empty] at hblank
      rw [hjoin, locationFrom, locationFrom, isAbsolute_append hempty, segments_slash, hblank,
        walk_append, walk_append, walk_blank (show [""].all (· = "") from rfl)]

/-! ## How locations end -/

def lastChar? (location : Location) : Option Char :=
  location.getLast?.bind (·.toList.getLast?)

/-- Paths with one stem lead to one folder, if they end in a name. -/
theorem locationFrom_ending (here : Location) (text : String) : ∃ folder last,
    ∀ {ending : String} {c : Char}, '/' ∉ ending.toList → ending.toList.getLast? = some c →
      c ≠ '.' → locationFrom here ⟨text ++ ending⟩ = folder ++ [last ++ ending] := by
  obtain ⟨before, last, hsegments⟩ := segments_append text
  refine ⟨walk (if isAbsolute ⟨text⟩ then [] else here) before, last, ?_⟩
  intro ending c hslash hlast hc
  have habsolute : isAbsolute ⟨text ++ ending⟩ = isAbsolute ⟨text⟩ := by
    by_cases htext : text = ""
    · subst htext
      cases hlist : ending.toList with
      | nil => simp [isAbsolute, hlist]
      | cons first rest =>
        have hfirst : first ≠ '/' := fun he => hslash (by simp [hlist, he])
        simp [isAbsolute, hlist, hfirst]
    · exact isAbsolute_append htext ending
  have hend : (last ++ ending).toList.getLast? = some c := by
    rw [String.toList_append, List.getLast?_append, hlast]
    rfl
  rw [locationFrom, habsolute, hsegments ending hslash, walk_append,
    walk_name (isName_of_getLast? hend hc)]

theorem lastChar?_append (folder : Location) (front : String) {ending : String} {c : Char}
    (hlast : ending.toList.getLast? = some c) :
    lastChar? (folder ++ [front ++ ending]) = some c := by
  rw [lastChar?, List.getLast?_concat, Option.bind_some, String.toList_append,
    List.getLast?_append, hlast]
  rfl

theorem lastChar?_locationFrom (here : Location) (text : String) {ending : String} {c : Char}
    (hslash : '/' ∉ ending.toList) (hlast : ending.toList.getLast? = some c) (hc : c ≠ '.') :
    lastChar? (locationFrom here ⟨text ++ ending⟩) = some c := by
  obtain ⟨folder, last, hends⟩ := locationFrom_ending here text
  rw [hends hslash hlast hc]
  exact lastChar?_append folder last hlast

/-- A path that can stand for something: it has no zero character. -/
def Clean (p : Path) : Prop := '\x00' ∉ p.text.toList

end Path

namespace Disk

/-! ## What following a path finds -/

theorem follow_ok {k : Disk} {place : Location} {names : List String} {s : Spot}
    (h : k.follow place names = .ok s) : s.location = Path.walk place names ∧
      (∀ id, s.entry = some (.file id) → k.entry? s.location = some (.file id)) ∧
      (s.entry = none → k.entry? s.location = none) := by
  induction names generalizing place with
  | nil =>
    cases h
    exact ⟨rfl, nofun, nofun⟩
  | cons name rest ih =>
    simp only [follow, Path.walk] at h ⊢
    split at h
    · next hjunk =>
      rw [if_pos hjunk]
      exact ih h
    · next hjunk =>
      rw [if_neg hjunk]
      split at h
      · next hup =>
        rw [if_pos hup]
        exact ih h
      · next hup =>
        rw [if_neg hup]
        split at h
        · cases h
        · split at h
          · exact ih h
          · next id hentry =>
            split at h
            · next hrest =>
              cases h
              obtain rfl := List.isEmpty_iff.mp hrest
              exact ⟨rfl, fun _ he => by cases he; exact hentry, nofun⟩
            · cases h
          · next hentry =>
            split at h
            · next hrest =>
              cases h
              exact ⟨(Path.walk_blank hrest _).symm, nofun, fun _ => hentry⟩
            · cases h

theorem follow_name {k : Disk} {place : Location} {before : List String} {last : String} {s : Spot}
    (hlast : Path.IsName last) (h : k.follow place (before ++ [last]) = .ok s) :
    k.entry? s.location = s.entry := by
  induction before generalizing place with
  | nil =>
    simp only [List.nil_append, follow, hlast.1, hlast.2, if_false, Bool.false_eq_true] at h
    split at h
    · cases h
    · split at h <;> next hentry =>
        cases h
        exact hentry
  | cons name rest ih =>
    have hmore : (rest ++ [last]).isEmpty = false := by simp
    have hblank : (rest ++ [last]).all (· = "") = false := by
      have hne : last ≠ "" := by
        rintro rfl
        cases hlast.1
      simp [hne]
    rw [List.cons_append, follow] at h
    split at h
    · exact ih h
    · split at h
      · exact ih h
      · split at h
        · cases h
        · dsimp only at h
          split at h
          · exact ih h
          · rw [hmore] at h
            cases h
          · rw [hblank] at h
            cases h

theorem spot_ok {k : Disk} {p : Path} {s : Spot} (h : k.spot p = .ok s) :
    s.location = p.locationFrom k.here ∧
      (∀ id, s.entry = some (.file id) → k.entry? (p.locationFrom k.here) = some (.file id)) ∧
      (s.entry = none → k.entry? (p.locationFrom k.here) = none) := by
  unfold spot at h
  split at h
  · cases h
  · split at h
    · cases h
    · split at h
      · cases h
      · obtain ⟨hlocation, hfile, hnone⟩ := follow_ok h
        rw [Path.locationFrom, ← hlocation]
        exact ⟨rfl, hfile, hnone⟩

theorem spot_name {k : Disk} {p : Path} {before : List String} {last : String} {s : Spot}
    (hlast : Path.IsName last) (hp : p.segments = before ++ [last]) (h : k.spot p = .ok s) :
    k.entry? s.location = s.entry := by
  unfold spot at h
  split at h
  · cases h
  · split at h
    · cases h
    · split at h
      · cases h
      · exact follow_name hlast (hp ▸ h)

theorem entry_of_present {k : Disk} {stem ending : String} {c : Char}
    (hslash : '/' ∉ ending.toList) (hlast : ending.toList.getLast? = some c) (hc : c ≠ '.')
    (h : k.present ⟨stem ++ ending⟩ = true) :
    ∃ entry, k.entry? (Path.locationFrom k.here ⟨stem ++ ending⟩) = some entry := by
  obtain ⟨before, last, hends⟩ := Path.segments_append stem
  have hname : Path.IsName (last ++ ending) := by
    refine Path.isName_of_getLast? ?_ hc
    rw [String.toList_append, List.getLast?_append, hlast]
    rfl
  unfold present stat at h
  cases hspot : k.spot ⟨stem ++ ending⟩ with
  | error e =>
    rw [hspot] at h
    cases h
  | ok spot =>
    rw [hspot] at h
    rcases spot with ⟨location, _ | entry, slash⟩
    · cases h
    · refine ⟨entry, ?_⟩
      rw [← (spot_ok hspot).1]
      exact spot_name hname (hends ending hslash) hspot

theorem clean_of_spot {k : Disk} {p : Path} {s : Spot} (h : k.spot p = .ok s) : p.Clean := by
  unfold spot at h
  split at h
  · cases h
  · split at h
    · cases h
    · next hzero => exact fun hmem => hzero (List.contains_iff_mem.mpr hmem)

theorem fileAt_ok {k : Disk} {p : Path} {id : Nat} (h : k.fileAt p = .ok id) :
    k.entry? (p.locationFrom k.here) = some (.file id) := by
  unfold fileAt stat at h
  cases hs : k.spot p with
  | error e =>
    rw [hs] at h
    cases h
  | ok s =>
    apply (spot_ok hs).2.1
    rw [hs] at h
    rcases s with ⟨location, _ | _ | other, slash⟩ <;> cases h
    rfl

end Disk

end IrFacts
