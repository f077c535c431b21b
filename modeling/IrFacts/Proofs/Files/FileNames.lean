import IrFacts.Proofs.Files.Locations

/-!
# Names of files and the folders they are in

The last name of a path is the last name of its location, and its parent leads
to the folder in front of it. So a suffix changes the last name alone, and from
the places of two files with one suffix it can be told whether they have one
name.
-/

set_option autoImplicit false

namespace IrFacts.Path

variable {p : Path} {name : String}

/-! ## Segments -/

theorem segments_ne_nil (p : Path) : p.segments ≠ [] := by
  simpa [segments] using segmentsOf_ne_nil p.text.toList

theorem slash_notMem_segmentsOf {text : List Char} {segment : List Char}
    (h : segment ∈ segmentsOf text) : '/' ∉ segment := by
  induction text generalizing segment with
  | nil =>
    rw [List.mem_singleton.mp h]
    exact List.not_mem_nil
  | cons c rest ih =>
    rw [segmentsOf] at h
    split at h
    · rcases List.mem_cons.mp h with rfl | h
      · exact List.not_mem_nil
      · exact ih h
    · next hc =>
      split at h
      · rw [List.mem_singleton.mp h]
        simpa using Ne.symm hc
      · next first more hrest =>
        rw [hrest] at ih
        rcases List.mem_cons.mp h with rfl | h
        · have hfirst := ih List.mem_cons_self
          simp [Ne.symm hc, hfirst]
        · exact ih (List.mem_cons_of_mem _ h)

theorem slash_notMem_segments {segment : String} (h : segment ∈ p.segments) :
    '/' ∉ segment.toList := by
  obtain ⟨chars, hchars, rfl⟩ := List.mem_map.mp h
  rw [String.toList_ofList]
  exact slash_notMem_segmentsOf hchars

theorem segments_plain {text : String} (h : '/' ∉ text.toList) : segments ⟨text⟩ = [text] := by
  simp [segments, segmentsOf_plain h]

theorem segments_intercalate {parts : List String} (hne : parts ≠ [])
    (hplain : ∀ part ∈ parts, '/' ∉ part.toList) :
    segments ⟨"/".intercalate parts⟩ = parts := by
  induction parts with
  | nil => exact absurd rfl hne
  | cons first rest ih =>
    obtain ⟨hfirst, hrest⟩ := List.forall_mem_cons.mp hplain
    cases rest with
    | nil => simpa using segments_plain hfirst
    | cons second more =>
      rw [String.intercalate_cons_cons, segments_slash, segments_plain hfirst,
        ih (List.cons_ne_nil _ _) hrest]
      rfl

/-- A path is absolute if it goes on behind an empty segment. -/
theorem isAbsolute_iff {first : String} {rest : List String} (h : p.segments = first :: rest) :
    p.isAbsolute = true ↔ first = "" ∧ rest ≠ [] := by
  unfold isAbsolute
  rw [segments] at h
  cases htext : p.text.toList with
  | nil =>
    rw [htext] at h
    cases h
    simp
  | cons c cs =>
    rw [htext, segmentsOf] at h
    by_cases hc : c = '/'
    · rw [if_pos hc, List.map_cons] at h
      cases h
      simpa [hc] using segmentsOf_ne_nil cs
    · rw [if_neg hc] at h
      have hfirst : first ≠ "" := by
        rintro rfl
        split at h <;> simp at h
      simp [hc, hfirst]

/-! ## Segments that name nothing -/

theorem walk_junk {names : List String} (h : ∀ name ∈ names, isJunk name = true)
    (place : Location) : walk place names = place := by
  induction names with
  | nil => rfl
  | cons name rest ih =>
    obtain ⟨hname, hrest⟩ := List.forall_mem_cons.mp h
    rw [walk, if_pos hname, ih hrest]

theorem dropJunk_spec (names : List String) : ∃ junk, names = dropJunk names ++ junk ∧
    (∀ name ∈ junk, isJunk name = true) ∧
    (dropJunk names = [] ∨ ∃ before last, dropJunk names = before ++ [last] ∧
      isJunk last = false) := by
  refine ⟨(names.reverse.takeWhile isJunk).reverse, ?_, fun name hname => ?_, ?_⟩
  · rw [dropJunk, ← List.reverse_append, List.takeWhile_append_dropWhile, List.reverse_reverse]
  · exact List.all_eq_true.mp List.all_takeWhile name (List.mem_reverse.mp hname)
  · cases hkept : names.reverse.dropWhile isJunk with
    | nil => exact .inl (by rw [dropJunk, hkept, List.reverse_nil])
    | cons last before =>
      have hlast := List.head?_dropWhile_not isJunk names.reverse
      rw [hkept] at hlast
      exact .inr ⟨before.reverse, last, by rw [dropJunk, hkept, List.reverse_cons], hlast⟩

theorem walk_dropJunk (place : Location) (names : List String) :
    walk place (dropJunk names) = walk place names := by
  obtain ⟨junk, hnames, hjunk, -⟩ := dropJunk_spec names
  conv => rhs; rw [hnames, walk_append, walk_junk hjunk]

/-! ## Names and parents -/

theorem componentOf?_junk {names : List String} (h : ∀ name ∈ names, isJunk name = true) :
    names.filterMap componentOf? = [] :=
  List.filterMap_eq_nil_iff.mpr fun name hname => by rw [componentOf?, if_pos (h name hname)]

theorem exists_componentOf? {segment : String} (h : isJunk segment = false) :
    ∃ component, componentOf? segment = some component := by
  rw [componentOf?, if_neg (by simp [h])]
  split <;> exact ⟨_, rfl⟩

theorem componentOf?_eq_some {segment : String} (h : componentOf? segment = some (.normal name)) :
    segment = name ∧ IsName name := by
  unfold componentOf? at h
  split at h
  · cases h
  · next hjunk =>
    split at h
    · cases h
    · next hup =>
      cases h
      exact ⟨rfl, by simpa using hjunk, hup⟩

theorem fileName?_eq_some (h : p.fileName? = some name) : IsName name ∧
    ∃ first rest, p.segments = first :: rest ∧
      (dropJunk rest = [] ∧ first = name ∧ p.isAbsolute = false ∨
        ∃ before, dropJunk rest = before ++ [name]) := by
  cases hsegments : p.segments with
  | nil => exact absurd hsegments p.segments_ne_nil
  | cons first rest =>
    have hlast : p.components.getLast? = some (.normal name) := by
      unfold fileName? at h
      split at h
      · next other hother =>
        cases h
        exact hother
      · cases h
    simp only [components, anchor, hsegments] at hlast
    obtain ⟨junk, hrest, hjunk, hnone | ⟨before, last, hkept, hlastjunk⟩⟩ := dropJunk_spec rest
    · rw [hrest, hnone, List.nil_append, componentOf?_junk hjunk, List.append_nil] at hlast
      split at hlast
      · cases hlast
      · next habsolute =>
        split at hlast
        · cases hlast
        · cases hfirst : componentOf? first with
          | none =>
            rw [hfirst] at hlast
            cases hlast
          | some component =>
            rw [hfirst] at hlast
            cases hlast
            obtain ⟨hname, hisname⟩ := componentOf?_eq_some hfirst
            exact ⟨hisname, first, rest, rfl, .inl ⟨hnone, hname, by simpa using habsolute⟩⟩
    · obtain ⟨component, hcomponent⟩ := exists_componentOf? hlastjunk
      rw [hrest, hkept, List.filterMap_append, List.filterMap_append, componentOf?_junk hjunk,
        List.append_nil, List.filterMap_cons_some hcomponent, List.filterMap_nil,
        ← List.append_assoc] at hlast
      obtain rfl : component = .normal name := by simpa using hlast
      obtain ⟨rfl, hisname⟩ := componentOf?_eq_some hcomponent
      exact ⟨hisname, first, rest, rfl, .inr ⟨before, hkept⟩⟩

theorem parent?_segments {first : String} {rest before : List String}
    (hsegments : p.segments = first :: rest) (hbefore : dropJunk rest = before ++ [name]) :
    (p.isAbsolute = true ∧ dropJunk before = [] ∧ p.parent? = some ⟨"/"⟩) ∨
    ∃ q, p.parent? = some q ∧ q.segments = first :: dropJunk before ∧
      q.isAbsolute = p.isAbsolute := by
  obtain ⟨junk, hrest, -⟩ := dropJunk_spec rest
  obtain ⟨junk', hkept, -⟩ := dropJunk_spec before
  have hne : rest ≠ [] := by
    rw [hrest, hbefore]
    simp
  have hplain : ∀ part ∈ first :: dropJunk before, '/' ∉ part.toList := by
    intro part hpart
    refine slash_notMem_segments (p := p) ?_
    rw [hsegments, hrest, hbefore]
    rcases List.mem_cons.mp hpart with rfl | hpart
    · exact List.mem_cons_self
    · have hmem : part ∈ before := hkept ▸ List.mem_append_left _ hpart
      exact List.mem_cons_of_mem _ (List.mem_append_left _ (List.mem_append_left _ hmem))
  have hparent : p.parent? = if p.isAbsolute && (dropJunk before).isEmpty then some ⟨"/"⟩
      else some ⟨"/".intercalate (first :: dropJunk before)⟩ := by
    simp only [parent?, anchor, hsegments]
    split
    · next hnone => simp [hbefore] at hnone
    · rw [hbefore, List.dropLast_concat]
  by_cases hroot : (p.isAbsolute && (dropJunk before).isEmpty) = true
  · obtain ⟨habsolute, hempty⟩ : p.isAbsolute = true ∧ dropJunk before = [] := by
      simpa using hroot
    exact .inl ⟨habsolute, hempty, by rw [hparent, if_pos hroot]⟩
  · have hsegments' := segments_intercalate (List.cons_ne_nil first (dropJunk before)) hplain
    refine .inr ⟨_, by rw [hparent, if_neg hroot], hsegments', ?_⟩
    rw [Bool.eq_iff_iff, isAbsolute_iff hsegments', isAbsolute_iff hsegments]
    refine and_congr_right fun hfirst => iff_of_true (fun hempty => hroot ?_) hne
    simp [(isAbsolute_iff hsegments).mpr ⟨hfirst, hne⟩, hempty]

theorem parent?_eq {first : String} {rest before : List String}
    (hsegments : p.segments = first :: rest) (hbefore : dropJunk rest = before ++ [name]) :
    ∃ q, p.parent? = some q ∧ q.isAbsolute = p.isAbsolute ∧
      ∀ place, walk place q.segments = walk place (first :: before) := by
  have hwalk (place : Location) :
      walk place (first :: dropJunk before) = walk place (first :: before) := by
    rw [← List.singleton_append, walk_append, walk_dropJunk, ← walk_append]
    rfl
  rcases parent?_segments hsegments hbefore with
    ⟨habsolute, hempty, hq⟩ | ⟨q, hq, hqsegments, habsolute⟩
  · refine ⟨_, hq, by rw [habsolute]; rfl, fun place => ?_⟩
    rw [← hwalk, hempty, ((isAbsolute_iff hsegments).mp habsolute).1]
    rfl
  · exact ⟨q, hq, habsolute, fun place => by rw [hqsegments, hwalk]⟩

theorem locationFrom_parent (here : Location) (h : p.fileName? = some name) :
    ∃ q, p.parent? = some q ∧ p.locationFrom here = q.locationFrom here ++ [name] := by
  obtain ⟨hname, first, rest, hsegments, hkept⟩ := fileName?_eq_some h
  rcases hkept with ⟨hnone, rfl, habsolute⟩ | ⟨before, hbefore⟩
  · have hne : first ≠ "" := by
      rintro rfl
      cases hname.1
    refine ⟨⟨""⟩, by simp [parent?, anchor, hsegments, hnone, habsolute, hne], ?_⟩
    rw [locationFrom, habsolute, hsegments, ← List.singleton_append, walk_append, walk_name hname,
      ← walk_dropJunk, hnone]
    rfl
  · obtain ⟨q, hq, habsolute, hwalk⟩ := parent?_eq hsegments hbefore
    refine ⟨q, hq, ?_⟩
    rw [locationFrom, locationFrom, habsolute, hwalk, hsegments, ← List.singleton_append,
      walk_append, ← walk_dropJunk, hbefore, walk_append, walk_name hname, ← walk_append]
    rfl

theorem slash_notMem_fileName (h : p.fileName? = some name) : '/' ∉ name.toList := by
  obtain ⟨-, first, rest, hsegments, hkept⟩ := fileName?_eq_some h
  refine slash_notMem_segments (p := p) ?_
  rw [hsegments]
  rcases hkept with ⟨-, rfl, -⟩ | ⟨before, hbefore⟩
  · exact List.mem_cons_self
  · obtain ⟨junk, hrest, -⟩ := dropJunk_spec rest
    rw [hrest, hbefore]
    simp

theorem isAbsolute_plain {text : String} (h : '/' ∉ text.toList) : isAbsolute ⟨text⟩ = false := by
  have hhead : text.toList.head? ≠ some '/' := fun he => h (List.mem_of_mem_head? he)
  simpa [isAbsolute] using hhead

theorem fileName?_of_segments {before : List String} (hname : IsName name)
    (h : p.segments = before ++ [name]) : p.fileName? = some name := by
  have hcomponent : componentOf? name = some (.normal name) := by
    rw [componentOf?, if_neg (by simp [hname.1]), if_neg hname.2]
  have hlast : p.components.getLast? = some (.normal name) := by
    cases before with
    | nil =>
      have habsolute : ¬p.isAbsolute = true := by
        rw [isAbsolute_iff h]
        simp
      have hdot : name ≠ "." := by
        rintro rfl
        cases hname.1
      simp [components, anchor, h, habsolute, hdot, hcomponent]
    | cons first rest =>
      have hanchor : p.anchor = (first, rest ++ [name]) := by simp [anchor, h]
      simp [components, hanchor, hcomponent]
  simp [fileName?, hlast]

/-! ## Suffixes -/

section Suffix

variable {suffix : String} {c : Char}

theorem isName_withSuffix (name : String) (hlast : suffix.toList.getLast? = some c) (hc : c ≠ '.') :
    IsName (name ++ suffix) := by
  refine isName_of_getLast? (c := c) ?_ hc
  rw [String.toList_append, List.getLast?_append, hlast]
  rfl

theorem locationFrom_withSuffix (here : Location) (hslash : '/' ∉ suffix.toList)
    (hlast : suffix.toList.getLast? = some c) (hc : c ≠ '.') (h : p.fileName? = some name) :
    ∃ folder, p.locationFrom here = folder ++ [name] ∧
      (p.withSuffix suffix).locationFrom here = folder ++ [name ++ suffix] := by
  obtain ⟨q, hq, hlocation⟩ := locationFrom_parent here h
  have hplain : '/' ∉ (name ++ suffix).toList := by
    simpa using ⟨slash_notMem_fileName h, hslash⟩
  refine ⟨q.locationFrom here, hlocation, ?_⟩
  simp only [withSuffix, withFileName, h, hq, Option.getD_some]
  rw [locationFrom_join here q (isAbsolute_plain hplain), segments_plain hplain,
    walk_name (isName_withSuffix name hlast hc)]

theorem locationFrom_withSuffix_nameless (here : Location) (hslash : '/' ∉ suffix.toList)
    (hlast : suffix.toList.getLast? = some c) (hc : c ≠ '.') (h : p.fileName? = none) :
    (p.withSuffix suffix).locationFrom here = p.locationFrom here ++ [suffix] := by
  simp only [withSuffix, withFileName, h, Option.getD_none, String.empty_append]
  rw [locationFrom_join here p (isAbsolute_plain hslash), segments_plain hslash,
    walk_name (isName_of_getLast? hlast hc)]

end Suffix

/-! ## Paths made of names -/

theorem mem_names {text : String} (h : name ∈ (Path.mk text).names) :
    IsName name ∧ '/' ∉ name.toList := by
  have hsegment : ∃ segment ∈ (Path.mk text).segments,
      componentOf? segment = some (.normal name) := by
    unfold names at h
    obtain ⟨component, hmem, hcomponent⟩ := List.mem_filterMap.mp h
    obtain rfl : component = .normal name := by
      cases component <;> simp_all
    cases hsegments : (Path.mk text).segments with
    | nil => exact absurd hsegments (segments_ne_nil _)
    | cons first rest =>
      simp only [components, anchor, hsegments] at hmem
      rcases List.mem_append.mp hmem with hhead | hrest
      · split at hhead
        · cases List.mem_singleton.mp hhead
        · split at hhead
          · cases List.mem_singleton.mp hhead
          · exact ⟨first, List.mem_cons_self, Option.mem_toList.mp hhead⟩
      · obtain ⟨segment, hsegment, hcomponent⟩ := List.mem_filterMap.mp hrest
        exact ⟨segment, List.mem_cons_of_mem _ hsegment, hcomponent⟩
  obtain ⟨segment, hmem, hcomponent⟩ := hsegment
  obtain ⟨rfl, hname⟩ := componentOf?_eq_some hcomponent
  exact ⟨hname, slash_notMem_segments hmem⟩

theorem segments_join (p : Path) {q : Path} (hq : q.isAbsolute = false) :
    ∃ before, (p.join q).segments = before ++ q.segments := by
  rcases join_eq p hq with ⟨-, hjoin⟩ | ⟨-, front, hjoin, -⟩
  · exact ⟨[], by rw [hjoin, List.nil_append]⟩
  · exact ⟨segments ⟨front⟩, by rw [hjoin, segments_slash]⟩

theorem segments_join_name (hp : ∀ segment ∈ p.segments, IsName segment)
    (hslash : '/' ∉ name.toList) : (p.join ⟨name⟩).segments = p.segments ++ [name] := by
  have hblank : "" ∉ p.segments := fun hmem => nomatch (hp "" hmem).1
  obtain ⟨text⟩ := p
  rcases join_eq ⟨text⟩ (isAbsolute_plain hslash) with ⟨hempty, -⟩ | ⟨-, front, hjoin, hfront⟩
  · obtain rfl : text = "" := hempty
    exact absurd (List.mem_singleton.mpr rfl) hblank
  · rcases hfront with hfront | hfront <;> obtain rfl : text = _ := hfront
    · rw [hjoin, segments_slash, segments_plain hslash]
    · have hends := segments_slash front ""
      rw [String.append_empty, segments_empty] at hends
      exact absurd (hends ▸ List.mem_append_right _ (List.mem_singleton.mpr rfl)) hblank

theorem segments_relativeToRoot {text : String} (h : (Path.mk text).names ≠ []) :
    (relativeToRoot text).segments = (Path.mk text).names := by
  have hmore (names : List String) (p : Path) (hp : ∀ segment ∈ p.segments, IsName segment)
      (hnames : ∀ name ∈ names, IsName name ∧ '/' ∉ name.toList) :
      (names.foldl (fun p name => p.join ⟨name⟩) p).segments = p.segments ++ names := by
    induction names generalizing p with
    | nil => exact (List.append_nil _).symm
    | cons name rest ih =>
      obtain ⟨⟨hname, hslash⟩, hrest⟩ := List.forall_mem_cons.mp hnames
      have hjoin := segments_join_name hp hslash
      have hp' : ∀ segment ∈ (p.join ⟨name⟩).segments, IsName segment := by
        rw [hjoin]
        intro segment hsegment
        rcases List.mem_append.mp hsegment with hold | hnew
        · exact hp segment hold
        · exact List.mem_singleton.mp hnew ▸ hname
      rw [List.foldl_cons, ih _ hp' hrest, hjoin, List.append_assoc]
      rfl
  have hall : ∀ name ∈ (Path.mk text).names, IsName name ∧ '/' ∉ name.toList :=
    fun name => mem_names
  unfold relativeToRoot
  cases hnames : (Path.mk text).names with
  | nil => exact absurd hnames h
  | cons name rest =>
    rw [hnames] at hall
    obtain ⟨⟨hname, hslash⟩, hrest⟩ := List.forall_mem_cons.mp hall
    have hfirst : join ⟨""⟩ ⟨name⟩ = ⟨name⟩ := by simp [join, isAbsolute_plain hslash]
    rw [List.foldl_cons, hfirst, hmore rest ⟨name⟩ ?_ hrest, segments_plain hslash]
    · rfl
    · rw [segments_plain hslash]
      simpa using hname

theorem isAbsolute_relativeToRoot (text : String) : (relativeToRoot text).isAbsolute = false := by
  cases hnames : (Path.mk text).names with
  | nil =>
    rw [relativeToRoot, hnames]
    rfl
  | cons first rest =>
    have hsegments := segments_relativeToRoot (show (Path.mk text).names ≠ [] by simp [hnames])
    have hfirst : IsName first := (mem_names (hnames ▸ List.mem_cons_self)).1
    rw [hnames] at hsegments
    refine Bool.eq_false_iff.mpr fun habsolute => ?_
    rw [((isAbsolute_iff hsegments).mp habsolute).1] at hfirst
    cases hfirst.1

/-! ## Kept below a folder -/

section Kept

variable (here : Location) (p : Path) {text suffix : String} {c : Char}

theorem locationFrom_join_relativeToRoot (h : (Path.mk text).names ≠ []) :
    (p.join (relativeToRoot text)).locationFrom here =
      p.locationFrom here ++ (Path.mk text).names := by
  rw [locationFrom_join here p (isAbsolute_relativeToRoot text), segments_relativeToRoot h,
    walk_names fun name hname => (mem_names hname).1]

theorem fileName?_join_relativeToRoot {folders : List String} {last : String}
    (h : (Path.mk text).names = folders ++ [last]) :
    (p.join (relativeToRoot text)).fileName? = some last := by
  obtain ⟨before, hjoin⟩ := segments_join p (isAbsolute_relativeToRoot text)
  rw [segments_relativeToRoot (by simp [h]), h, ← List.append_assoc] at hjoin
  have hlast : last ∈ (Path.mk text).names := by simp [h]
  exact fileName?_of_segments (mem_names hlast).1 hjoin

/-- What is kept for a text lies in a folder after its names, and its name goes on with the
suffix. -/
theorem locationFrom_withSuffix_of_names (hslash : '/' ∉ suffix.toList)
    (hlast : suffix.toList.getLast? = some c) (hc : c ≠ '.') {folders : List String}
    {last : String} (h : (Path.mk text).names = folders ++ [last]) :
    ((p.join (relativeToRoot text)).withSuffix suffix).locationFrom here =
      p.locationFrom here ++ folders ++ [last ++ suffix] := by
  obtain ⟨folder, hlocation, hplace⟩ :=
    locationFrom_withSuffix here hslash hlast hc (fileName?_join_relativeToRoot p h)
  rw [locationFrom_join_relativeToRoot here p (by simp [h]), h, ← List.append_assoc] at hlocation
  rw [hplace, (List.append_inj' hlocation rfl).1]

end Kept

theorem not_isName_of_nameless (h : p.names = []) {segment : String}
    (hsegment : segment ∈ p.segments) : ¬IsName segment := by
  intro hname
  have hcomponent : componentOf? segment = some (.normal segment) := by
    rw [componentOf?, if_neg (by simp [hname.1]), if_neg hname.2]
  suffices hmem : .normal segment ∈ p.components by
    have hin : segment ∈ p.names := List.mem_filterMap.mpr ⟨_, hmem, rfl⟩
    rw [h] at hin
    cases hin
  cases hsegments : p.segments with
  | nil => exact absurd hsegments p.segments_ne_nil
  | cons first rest =>
    rw [hsegments] at hsegment
    simp only [components, anchor, hsegments]
    rcases List.mem_cons.mp hsegment with rfl | hrest
    · have habsolute : ¬p.isAbsolute = true := by
        rw [isAbsolute_iff hsegments]
        rintro ⟨rfl, -⟩
        cases hname.1
      have hdot : segment ≠ "." := by
        rintro rfl
        cases hname.1
      simp [habsolute, hdot, hcomponent]
    · exact List.mem_append_right _ (List.mem_filterMap.mpr ⟨segment, hrest, hcomponent⟩)

/-! ## Folders -/

theorem walk_dropWhile (place : Location) (names : List String) :
    walk place (names.dropWhile isJunk) = walk place names := by
  induction names with
  | nil => rfl
  | cons name rest ih =>
    by_cases hname : isJunk name
    · rw [List.dropWhile_cons_of_pos hname, walk, if_pos hname, ih]
    · rw [List.dropWhile_cons_of_neg hname]

/-- What only says that a path begins here leads nowhere. -/
theorem locationFrom_fromHere (here : Location) (p : Path) :
    p.fromHere.locationFrom here = p.locationFrom here := by
  unfold fromHere
  split
  · rfl
  next habsolute =>
  rw [locationFrom, locationFrom, if_neg habsolute, ← walk_dropWhile here p.segments]
  cases hkept : p.segments.dropWhile isJunk with
  | nil => rfl
  | cons first rest =>
    have hplain : ∀ part ∈ first :: rest, '/' ∉ part.toList := fun part hpart =>
      slash_notMem_segments ((List.dropWhile_sublist isJunk).subset (hkept ▸ hpart))
    have hsegments := segments_intercalate (List.cons_ne_nil first rest) hplain
    have hfirst : isJunk first = false := by
      have hhead := List.head?_dropWhile_not isJunk p.segments
      rwa [hkept] at hhead
    have hrelative : ¬isAbsolute ⟨"/".intercalate (first :: rest)⟩ = true := by
      rw [isAbsolute_iff hsegments]
      rintro ⟨rfl, -⟩
      cases hfirst
    rw [if_neg hrelative, hsegments]

theorem locationFrom_directory (here : Location) (h : p.fileName? = some name) :
    p.locationFrom here = p.directory.locationFrom here ++ [name] := by
  obtain ⟨q, hq, hlocation⟩ := locationFrom_parent here h
  rw [hlocation, directory, hq]
  dsimp only
  split
  · next hempty => rw [show q = ⟨""⟩ from congrArg Path.mk hempty]; rfl
  · rfl

theorem fileName?_of_ending (text : String) {ending : String} {c : Char}
    (hslash : '/' ∉ ending.toList) (hlast : ending.toList.getLast? = some c) (hc : c ≠ '.') :
    ∃ name, fileName? ⟨text ++ ending⟩ = some name := by
  obtain ⟨before, last, hsegments⟩ := segments_append text
  exact ⟨_, fileName?_of_segments (isName_withSuffix last hlast hc) (hsegments ending hslash)⟩

end IrFacts.Path

namespace IrFacts.Disk

theorem follow_nameless {k : Disk} {names : List String}
    (h : ∀ name ∈ names, ¬Path.IsName name) (place : Location) :
    k.follow place names = .ok ⟨Path.walk place names, some .folder, false⟩ := by
  induction names generalizing place with
  | nil => rfl
  | cons name rest ih =>
    obtain ⟨hname, hrest⟩ := List.forall_mem_cons.mp h
    rw [follow, Path.walk]
    by_cases hjunk : Path.isJunk name = true
    · rw [if_pos hjunk, if_pos hjunk, ih hrest]
    · have hup : name = ".." := Decidable.byContradiction fun hup =>
        hname ⟨by simpa using hjunk, hup⟩
      rw [if_neg hjunk, if_neg hjunk, if_pos hup, if_pos hup, ih hrest]

theorem fileAt_nameless {k : Disk} {p : Path} (h : p.names = []) (id : Nat) :
    k.fileAt p ≠ .ok id := by
  intro hid
  unfold fileAt stat spot at hid
  rw [follow_nameless fun _ hname => Path.not_isName_of_nameless h hname] at hid
  split at hid
  · cases hid
  split at hid
  · cases hid
  split at hid <;> cases hid

theorem locationFrom_within (here : Location) (folder : Path) {name : String}
    (hname : Path.IsName name) (hslash : '/' ∉ name.toList) :
    (within folder name).locationFrom here = folder.locationFrom here ++ [name] := by
  rw [within, Path.locationFrom_join here _ (Path.isAbsolute_plain hslash),
    Path.segments_plain hslash, Path.walk_name hname, Path.locationFrom_fromHere]

end IrFacts.Disk
