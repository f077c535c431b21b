import IrFacts.Proofs.Program.Walks

/-!
# How far a walk goes

A walk along parent links that comes to an end meets no declaration twice, so
it ends within the size of the table. What it finds is therefore the same with
any larger number of steps, and in any larger table that begins with this one.
A walk that runs in a circle finds nothing, however many steps it may take.
-/

set_option autoImplicit false

namespace IrFacts

namespace Program

variable {p q : Program} {up : DeclId → Option DeclId} {id : DeclId}

/-! ## Walks that end -/

/-- The links lead from a declaration to one without a link, in so many steps. -/
inductive Climbs (up : DeclId → Option DeclId) : DeclId → Nat → Prop
  | top {id : DeclId} (h : up id = none) : Climbs up id 0
  | step {id next : DeclId} {n : Nat} (h : up id = some next) (rest : Climbs up next n) :
    Climbs up id (n + 1)

theorem Climbs.unique {m n : Nat} (h : Climbs up id m) (k : Climbs up id n) : m = n := by
  induction h generalizing n with
  | top hnone =>
    cases k with
    | top => rfl
    | step hsome => cases hnone.symm.trans hsome
  | step hsome _ ih =>
    cases k with
    | top hnone => cases hnone.symm.trans hsome
    | step hsome' rest =>
      cases hsome.symm.trans hsome'
      rw [ih rest]

/-- What a walk meets has links, and is met only once: it is told from what
comes later by the number of steps that are left. -/
theorem Climbs.path {n : Nat} (h : Climbs up id n) :
    ∃ met : List DeclId, met.length = n ∧ met.Nodup ∧
      ∀ f ∈ met, (up f).isSome ∧ ∃ m ≤ n, Climbs up f m := by
  induction h with
  | top => exact ⟨[], rfl, .nil, nofun⟩
  | @step id next n hsome rest ih =>
    obtain ⟨met, hlength, hnodup, hmet⟩ := ih
    have hnew : id ∉ met := by
      intro hmem
      obtain ⟨-, m, hm, hclimbs⟩ := hmet id hmem
      have := hclimbs.unique (.step hsome rest)
      omega
    refine ⟨id :: met, by rw [List.length_cons, hlength], List.nodup_cons.mpr ⟨hnew, hnodup⟩, ?_⟩
    refine List.forall_mem_cons.mpr
      ⟨⟨by rw [hsome]; rfl, n + 1, Nat.le_refl _, .step hsome rest⟩, ?_⟩
    intro f hf
    obtain ⟨hlink, m, hm, hclimbs⟩ := hmet f hf
    exact ⟨hlink, m, Nat.le_succ_of_le hm, hclimbs⟩

theorem Climbs.le_size (hup : ∀ id, (up id).isSome → p.Declares id) {n : Nat}
    (h : Climbs up id n) : n ≤ p.declarations.size := by
  obtain ⟨met, rfl, hnodup, hmet⟩ := h.path
  exact length_le_of_declares hnodup fun f hf => hup f (hmet f hf).1

/-- A function that goes from link to link, for a number of steps. -/
structure IsWalk {σ β : Type} (up : DeclId → Option DeclId) (at_ : σ → DeclId)
    (walk : Nat → σ → β) : Prop where
  spent : ∀ a b, walk 0 a = walk 0 b
  stops : ∀ a, up (at_ a) = none → ∀ m n, walk (m + 1) a = walk (n + 1) a
  moves : ∀ a next, up (at_ a) = some next → ∃ b, at_ b = next ∧ ∀ n, walk (n + 1) a = walk n b

section IsWalk

variable {σ β : Type} {at_ : σ → DeclId} {walk : Nat → σ → β}

/-- Where one more step matters, the links end, and not before these steps. -/
theorem IsWalk.climbs (h : IsWalk up at_ walk) {n : Nat} {a : σ}
    (hne : walk n a ≠ walk (n + 1) a) : ∃ m, n ≤ m ∧ Climbs up (at_ a) m := by
  induction n generalizing a with
  | zero =>
    cases hup : up (at_ a) with
    | none => exact ⟨0, Nat.le_refl _, .top hup⟩
    | some next =>
      obtain ⟨b, -, hmove⟩ := h.moves a next hup
      exact absurd ((h.spent a b).trans (hmove 0).symm) hne
  | succ n ih =>
    cases hup : up (at_ a) with
    | none => exact absurd (h.stops a hup n (n + 1)) hne
    | some next =>
      obtain ⟨b, rfl, hmove⟩ := h.moves a next hup
      rw [hmove n, hmove (n + 1)] at hne
      obtain ⟨m, hm, hclimbs⟩ := ih hne
      exact ⟨m + 1, Nat.succ_le_succ hm, .step hup hclimbs⟩

theorem IsWalk.stable (h : IsWalk up at_ walk) (hup : ∀ id, (up id).isSome → p.Declares id)
    {n : Nat} (hn : p.walkLimit ≤ n) (a : σ) : walk n a = walk p.walkLimit a := by
  induction hn with
  | refl => rfl
  | @step n hn ih =>
    refine Classical.byContradiction fun hne => ?_
    rw [← ih] at hne
    obtain ⟨m, hm, hclimbs⟩ := h.climbs (Ne.symm hne)
    have hsize := hclimbs.le_size hup
    have hlimit : p.declarations.size + 1 ≤ n := hn
    omega

end IsWalk

/-! ## The walks of a program -/

def around? (p : Program) (id : DeclId) : Option DeclId :=
  match p.parent? id with
  | some (.decl parent) => some parent
  | _ => none

def outerClass? (p : Program) (id : DeclId) : Option DeclId :=
  if p.isClass id then p.parentClass? id else none

theorem declares_of_around? (id : DeclId) (h : (p.around? id).isSome) : p.Declares id := by
  unfold around? at h
  split at h
  · next hparent => exact declares_of_parent? hparent
  · cases h

theorem declares_of_outerClass? (id : DeclId) (h : (p.outerClass? id).isSome) : p.Declares id := by
  unfold outerClass? at h
  split at h
  · next hclass => exact declares_of_isClass hclass
  · cases h

theorem isWalk_packageWithin : IsWalk p.around? (fun id => id) p.packageWithin where
  spent _ _ := rfl
  stops id h m n := by
    cases hd : p.decl? id with
    | none => simp [packageWithin, hd]
    | some d => cases hparent : d.parent <;> simp_all [packageWithin, around?, parent?]
  moves id next h := by
    refine ⟨next, rfl, fun n => ?_⟩
    cases hd : p.decl? id with
    | none => simp [around?, parent?, hd] at h
    | some d => cases hparent : d.parent <;> simp_all [packageWithin, around?, parent?]

theorem isWalk_fileWithin : IsWalk p.around? (fun id => id) p.fileWithin where
  spent _ _ := rfl
  stops id h m n := by
    cases hd : p.decl? id with
    | none => simp [fileWithin, hd]
    | some d => cases hparent : d.parent <;> simp_all [fileWithin, around?, parent?]
  moves id next h := by
    refine ⟨next, rfl, fun n => ?_⟩
    cases hd : p.decl? id with
    | none => simp [around?, parent?, hd] at h
    | some d => cases hparent : d.parent <;> simp_all [fileWithin, around?, parent?]

theorem outerClass?_of_decl {d : Declaration} {c : ClassDecl} (hd : p.decl? id = some d)
    (hk : d.kind = .class c) : p.outerClass? id = p.parentClass? id :=
  if_pos (by simp [isClass, class?, hd, hk])

theorem isWalk_chainWithin : IsWalk p.outerClass? (Prod.snd : List String × DeclId → DeclId)
    fun steps a => p.chainWithin steps a.1 a.2 where
  spent _ _ := rfl
  stops := by
    rintro ⟨inner, id⟩ h m n
    cases hd : p.decl? id with
    | none => simp [chainWithin, hd]
    | some d =>
      cases hk : d.kind
      case «class» c =>
        rw [outerClass?_of_decl hd hk] at h
        cases hparent : d.parent with
        | decl parent =>
          have hclass : p.isClass parent = false := by simpa [parentClass?, hd, hparent] using h
          simp [chainWithin, hd, hk, hparent, hclass]
        | file => simp [chainWithin, hd, hk, hparent]
        | package => simp [chainWithin, hd, hk, hparent]
      all_goals simp [chainWithin, hd, hk]
  moves := by
    rintro ⟨inner, id⟩ next h
    cases hd : p.decl? id with
    | none => simp [outerClass?, isClass, class?, hd] at h
    | some d =>
      cases hk : d.kind
      case «class» c =>
        rw [outerClass?_of_decl hd hk] at h
        refine ⟨⟨c.name :: inner, next⟩, rfl, fun n => ?_⟩
        cases hparent : d.parent with
        | decl parent =>
          obtain ⟨hclass, rfl⟩ : p.isClass parent = true ∧ parent = next := by
            simpa [parentClass?, hd, hparent] using h
          simp [chainWithin, hd, hk, hparent, hclass]
        | file => simp [parentClass?, hd, hparent] at h
        | package => simp [parentClass?, hd, hparent] at h
      all_goals simp [outerClass?, isClass, class?, hd, hk] at h

/-! ## Larger tables -/

def Closed (p : Program) : Prop := ∀ id around, p.around? id = some around → p.Declares around

/-- The second program has the declarations of the first, under the same
numbers, and may have more. -/
structure Extends (p q : Program) : Prop where
  files : q.files = p.files
  decl : ∀ id, p.Declares id → q.decl? id = p.decl? id
  size : p.declarations.size ≤ q.declarations.size

theorem Extends.refl (p : Program) : p.Extends p := ⟨rfl, fun _ _ => rfl, Nat.le_refl _⟩

theorem Extends.declares (h : p.Extends q) (hid : p.Declares id) : q.Declares id := by
  rw [Declares, h.decl id hid]
  exact hid

theorem Extends.trans {r : Program} (h : p.Extends q) (k : q.Extends r) : p.Extends r where
  files := k.files.trans h.files
  decl id hid := (k.decl id (h.declares hid)).trans (h.decl id hid)
  size := Nat.le_trans h.size k.size

theorem Closed.around (hp : p.Closed) {d : Declaration} {around : DeclId}
    (hd : p.decl? id = some d) (h : d.parent = .decl around) : p.Declares around :=
  hp id around (by simp [around?, parent?, hd, h])

variable (hp : p.Closed) (h : p.Extends q)
include hp h

theorem Extends.packageWithin (hid : p.Declares id) (steps : Nat) :
    q.packageWithin steps id = p.packageWithin steps id := by
  induction steps generalizing id with
  | zero => rfl
  | succ steps ih =>
    rw [Program.packageWithin, Program.packageWithin, h.decl id hid]
    split
    · rfl
    · next d hd =>
      split
      · next around haround => exact ih (hp.around hd haround)
      · simp [file?, h.files]
      · rfl

theorem Extends.fileWithin (hid : p.Declares id) (steps : Nat) :
    q.fileWithin steps id = p.fileWithin steps id := by
  induction steps generalizing id with
  | zero => rfl
  | succ steps ih =>
    rw [Program.fileWithin, Program.fileWithin, h.decl id hid]
    split
    · rfl
    · next d hd =>
      split
      · next around haround => exact ih (hp.around hd haround)
      · rfl
      · rfl

theorem Extends.chainWithin (hid : p.Declares id) (steps : Nat) (inner : List String) :
    q.chainWithin steps inner id = p.chainWithin steps inner id := by
  induction steps generalizing id inner with
  | zero => rfl
  | succ steps ih =>
    rw [Program.chainWithin, Program.chainWithin, h.decl id hid]
    split
    · rfl
    · next d hd =>
      split
      · split
        · next around haround =>
          have hdeclares := hp.around hd haround
          have hclass : q.isClass around = p.isClass around := by
            unfold isClass class?
            rw [h.decl around hdeclares]
          rw [hclass, ih hdeclares]
        · rfl
      · rfl

theorem Extends.packageOf (hid : p.Declares id) : q.packageOf id = p.packageOf id := by
  have hlimit : p.walkLimit ≤ q.walkLimit := Nat.succ_le_succ h.size
  rw [Program.packageOf, h.packageWithin hp hid]
  exact isWalk_packageWithin.stable declares_of_around? hlimit id

theorem Extends.fileOf? (hid : p.Declares id) : q.fileOf? id = p.fileOf? id := by
  have hlimit : p.walkLimit ≤ q.walkLimit := Nat.succ_le_succ h.size
  rw [Program.fileOf?, h.fileWithin hp hid]
  exact isWalk_fileWithin.stable declares_of_around? hlimit id

theorem Extends.classChain? (hid : p.Declares id) : q.classChain? id = p.classChain? id := by
  have hlimit : p.walkLimit ≤ q.walkLimit := Nat.succ_le_succ h.size
  rw [Program.classChain?, h.chainWithin hp hid]
  exact isWalk_chainWithin.stable declares_of_outerClass? hlimit ([], id)

theorem Extends.fqName? (hid : p.Declares id) : q.fqName? id = p.fqName? id := by
  rw [Program.fqName?, h.classChain? hp hid, h.packageOf hp hid]
  rfl

theorem Extends.binaryName? (hid : p.Declares id) : q.binaryName? id = p.binaryName? id := by
  rw [Program.binaryName?, h.classChain? hp hid, h.packageOf hp hid]
  rfl

end Program

end IrFacts
