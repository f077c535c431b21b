import IrFacts.Proofs.Files.FileNames

/-!
# The folders above a path

A parent has the components of the path up to the last one. So the parents of a path end at its
root or, when it is relative, with the empty text behind its first component.
-/

set_option autoImplicit false

namespace IrFacts.Path

variable {p q : Path}

/-! ## Components -/

/-- What the first segment of a path stands for. -/
def head (absolute : Bool) (first : String) : List Component :=
  if absolute then [.root] else if first = "." then [.current] else (componentOf? first).toList

theorem components_eq {first : String} {rest : List String} (h : p.segments = first :: rest) :
    p.components = head p.isAbsolute first ++ rest.filterMap componentOf? := by
  simp only [components, anchor, h, head]

theorem length_head_le (absolute : Bool) (first : String) : (head absolute first).length ≤ 1 := by
  unfold head
  split
  · exact Nat.le_refl 1
  · split
    · exact Nat.le_refl 1
    · exact Option.length_toList_le

theorem head_eq_nil {first : String} : head false first = [] ↔ first = "" := by
  unfold head componentOf? isJunk
  by_cases hempty : first = ""
  · simp [hempty]
  · by_cases hcurrent : first = "."
    · simp [hcurrent]
    · by_cases hup : first = ".." <;> simp [hempty, hcurrent, hup]

theorem filterMap_dropJunk (names : List String) :
    (dropJunk names).filterMap componentOf? = names.filterMap componentOf? := by
  obtain ⟨junk, hnames, hjunk, -⟩ := dropJunk_spec names
  conv => rhs; rw [hnames, List.filterMap_append, componentOf?_junk hjunk, List.append_nil]

theorem length_components_le (p : Path) : p.components.length ≤ p.segments.length := by
  cases hsegments : p.segments with
  | nil => exact absurd hsegments p.segments_ne_nil
  | cons first rest =>
    have hhead := length_head_le p.isAbsolute first
    have hrest := List.length_filterMap_le componentOf? rest
    rw [components_eq hsegments, List.length_append, List.length_cons]
    omega

/-! ## Parents -/

section

variable {first last : String} {rest before : List String}

/-- Where the segments behind the first say nothing, there is one component at most. -/
theorem parent?_top (hsegments : p.segments = first :: rest) (hrest : dropJunk rest = []) :
    (p.components.length ≤ 1 ∧ p.parent? = none) ∨
    (p.components.length = 1 ∧ p.parent? = some ⟨""⟩) := by
  have hcomponents := components_eq hsegments
  rw [← filterMap_dropJunk, hrest, List.filterMap_nil, List.append_nil] at hcomponents
  have hlength := hcomponents ▸ length_head_le p.isAbsolute first
  have hparent : p.parent? = if p.isAbsolute || first = "" then none else some ⟨""⟩ := by
    simp only [parent?, anchor, hsegments, hrest]
  by_cases htop : (p.isAbsolute || first = "") = true
  · exact .inl ⟨hlength, by rw [hparent, if_pos htop]⟩
  · obtain ⟨habsolute, hfirst⟩ : p.isAbsolute = false ∧ first ≠ "" := by simpa using htop
    have hhead := List.length_pos_iff.mpr fun hnil => hfirst (head_eq_nil.mp hnil)
    rw [habsolute] at hcomponents
    rw [hcomponents] at hlength ⊢
    exact .inr ⟨Nat.le_antisymm hlength hhead, by rw [hparent, if_neg htop]⟩

/-- A path that goes on behind its first segment has a root, or the segment says something. -/
theorem head_ne_nil (hsegments : p.segments = first :: rest) (hrest : rest ≠ []) :
    head p.isAbsolute first ≠ [] := by
  cases habsolute : p.isAbsolute with
  | true => exact List.cons_ne_nil _ _
  | false =>
    intro hnil
    rw [(isAbsolute_iff hsegments).mpr ⟨head_eq_nil.mp hnil, hrest⟩] at habsolute
    cases habsolute

theorem parent?_kept (hsegments : p.segments = first :: rest)
    (hkept : dropJunk rest = before ++ [last]) (hlast : isJunk last = false) :
    1 < p.components.length ∧ ∃ q, p.parent? = some q ∧ q.text ≠ "" ∧
      q.components = p.components.dropLast := by
  obtain ⟨component, hcomponent⟩ := exists_componentOf? hlast
  have hcomponents := components_eq hsegments
  rw [← filterMap_dropJunk, hkept, List.filterMap_append, List.filterMap_cons_some hcomponent,
    List.filterMap_nil, ← filterMap_dropJunk before, ← List.append_assoc] at hcomponents
  have hhead : head p.isAbsolute first ≠ [] := by
    refine head_ne_nil hsegments fun hnil => ?_
    rw [hnil] at hkept
    simp [dropJunk] at hkept
  obtain ⟨q, hq, hqcomponents⟩ : ∃ q, p.parent? = some q ∧
      q.components = head p.isAbsolute first ++ (dropJunk before).filterMap componentOf? := by
    rcases parent?_segments hsegments hkept with
      ⟨habsolute, hempty, hq⟩ | ⟨q, hq, hqsegments, habsolute⟩
    · refine ⟨_, hq, ?_⟩
      rw [habsolute, hempty, head, if_pos rfl]
      decide
    · exact ⟨q, hq, by rw [components_eq hqsegments, habsolute]⟩
  have hlength := List.length_pos_iff.mpr hhead
  refine ⟨?_, q, hq, fun hempty => hhead ?_, ?_⟩
  · rw [hcomponents, List.length_append, List.length_append, List.length_singleton]
    omega
  · obtain rfl : q = ⟨""⟩ := congrArg Path.mk hempty
    exact (List.append_eq_nil_iff.mp (hqcomponents.symm.trans (by decide))).1
  · rw [hqcomponents, hcomponents, List.dropLast_concat]

end

/-- The components of a path tell of its parent. Where there is more than one, the parent has a
text and all of them but the last. -/
theorem parent?_spec (p : Path) :
    (p.components.length ≤ 1 ∧ p.parent? = none) ∨
    (p.components.length = 1 ∧ p.parent? = some ⟨""⟩) ∨
    (1 < p.components.length ∧ ∃ q, p.parent? = some q ∧ q.text ≠ "" ∧
      q.components = p.components.dropLast) := by
  cases hsegments : p.segments with
  | nil => exact absurd hsegments p.segments_ne_nil
  | cons first rest =>
    obtain ⟨-, -, -, hnone | ⟨before, last, hkept, hlast⟩⟩ := dropJunk_spec rest
    · exact (parent?_top hsegments hnone).imp_right .inl
    · exact .inr (.inr (parent?_kept hsegments hkept hlast))

theorem exists_parent? (h : 1 < p.components.length) : ∃ q, p.parent? = some q ∧ q.text ≠ "" ∧
    q.components = p.components.dropLast := by
  rcases p.parent?_spec with ⟨hlength, -⟩ | ⟨hlength, -⟩ | ⟨-, hparent⟩
  · omega
  · omega
  · exact hparent

theorem length_parent? (h : p.parent? = some q) : q.components.length < p.components.length := by
  rcases p.parent?_spec with ⟨-, hnone⟩ | ⟨hlength, hempty⟩ | ⟨hlength, q', hq, -, hcomponents⟩
  · rw [hnone] at h
    cases h
  · rw [hempty] at h
    cases h
    rw [hlength]
    decide
  · rw [hq] at h
    cases h
    rw [hcomponents, List.length_dropLast]
    omega

theorem parentsWithin_enough {steps steps' : Nat} (h : p.components.length < steps)
    (h' : p.components.length < steps') : p.parentsWithin steps = p.parentsWithin steps' := by
  induction steps generalizing p steps' with
  | zero => exact absurd h (Nat.not_lt_zero _)
  | succ steps ih =>
    obtain ⟨steps', rfl⟩ : ∃ n, steps' = n + 1 := ⟨steps' - 1, by omega⟩
    rw [parentsWithin, parentsWithin]
    cases hparent : p.parent? with
    | none => rfl
    | some q =>
      have hlength := length_parent? hparent
      exact congrArg (q :: ·) (ih (by omega) (by omega))

theorem parents_eq (p : Path) : p.parents = match p.parent? with
    | none => []
    | some q => q :: q.parents := by
  rw [parents, parentsWithin]
  cases hparent : p.parent? with
  | none => rfl
  | some q =>
    have hlength := length_parent? hparent
    have hsteps := p.length_components_le
    have hsteps' := q.length_components_le
    exact congrArg (q :: ·) (parentsWithin_enough (by omega) (by omega))

theorem parents_eq_nil : p.parents = [] ↔ p.parent? = none := by
  rw [parents_eq]
  cases p.parent? <;> simp

theorem parents_eq_cons {folder : Path} {rest : List Path} :
    p.parents = folder :: rest ↔ p.parent? = some folder ∧ folder.parents = rest := by
  rw [parents_eq]
  cases p.parent? with
  | none => simp
  | some q =>
    rw [List.cons.injEq, Option.some.injEq]
    exact and_congr_right fun hq => by rw [hq]

theorem mem_parents_parent? {r : Path} (hq : q ∈ p.parents) (hr : q.parent? = some r) :
    r ∈ p.parents := by
  generalize hlist : p.parents = folders at hq ⊢
  induction folders generalizing p with
  | nil => cases hq
  | cons folder rest ih =>
    obtain ⟨-, hrest⟩ := parents_eq_cons.mp hlist
    rcases List.mem_cons.mp hq with rfl | hq
    · rw [← hrest, parents_eq_cons.mpr ⟨hr, rfl⟩]
      exact List.mem_cons_of_mem _ List.mem_cons_self
    · exact List.mem_cons_of_mem _ (ih hrest hq)

end IrFacts.Path
