import IrFacts.Extraction.Projection
import IrFacts.Proofs.Labels.DefinedFirst
import IrFacts.Proofs.Labels.Faithful

/-!
# Host forms and their labels

What the host sees of a type is a form: a primitive, an array, a class with
arguments, or a type variable. In a store a form has at most one label, which is
looked up by a key that embeds the labels of the forms in it. In a store that
tells its keys apart different forms have different labels.
-/

set_option autoImplicit false

namespace IrFacts

mutual

/-- A type as the host sees it. -/
inductive HostForm where
  /-- What cannot be projected. -/
  | unknown
  | primitive (name : String)
  | array (levels : Nat) (element : HostForm)
  /-- A class by its binary name, with arguments. -/
  | ofClass (name : String) (arguments : List HostArgument)
  | typeVariable (owner : Label) (name : String)

/-- An argument is a type, or a wildcard over its bound. -/
inductive HostArgument where
  /-- The wildcard that is written without a bound. -/
  | star
  | projection (variance : Variance) (form : HostForm)

end

/-- What the rich type system sees of a type over a class. -/
structure RichForm where
  nullable : Bool
  /-- The binary name, which no host class stands in for. -/
  name : String
  arguments : List HostArgument

def instanceText (name : String) (labels : List Label) : String :=
  labels.foldl (fun text l => text ++ ";" ++ l.braced) name

/-- The label of an argument whose type has the label `bound`: this one, or that of
a wildcard over it. -/
def HostArgument.over? (t : LabelTable) (bound : Label) : Variance → Option Label
  | .invariant => some bound
  | .covariant => t.find? ("wildcard;" ++ ("extends" ++ bound.braced))
  | .contravariant => t.find? ("wildcard;" ++ ("super" ++ bound.braced))

mutual

def HostForm.label? (t : LabelTable) : HostForm → Option Label
  | .unknown => some .placeholder
  | .primitive name => t.find? ("type;" ++ name)
  | .array levels element => do
    let l ← element.label? t
    t.find? ("array;" ++ (toString levels ++ ";" ++ l.braced))
  | .ofClass name arguments => do
    let ls ← HostArgument.labels? t arguments
    t.find? ("class;" ++ instanceText name ls)
  | .typeVariable owner name => t.find? ("typevar;" ++ (owner.braced ++ ";" ++ name))

def HostArgument.label? (t : LabelTable) : HostArgument → Option Label
  | .star => t.find? "wildcard;"
  | .projection variance form => do HostArgument.over? t (← form.label? t) variance

def HostArgument.labels? (t : LabelTable) : List HostArgument → Option (List Label)
  | [] => some []
  | a :: rest => do
    let l ← a.label? t
    let ls ← HostArgument.labels? t rest
    return l :: ls

end

def richStart (nullable : Bool) : String :=
  if nullable then "kt_type;nullable;" else "kt_type;notnull;"

def RichForm.label? (t : LabelTable) (r : RichForm) : Option Label := do
  let ls ← HostArgument.labels? t r.arguments
  t.find? (richStart r.nullable ++ instanceText r.name ls)

mutual

/-- The names of classes keep clear of the sign between the parts of a key, and
the owners of type variables are numbered. -/
def HostForm.Plain : HostForm → Prop
  | .unknown => True
  | .primitive _ => True
  | .array _ element => element.Plain
  | .ofClass name arguments => ';' ∉ name.toList ∧ HostArgument.AllPlain arguments
  | .typeVariable owner _ => ∃ n, owner = .number n

def HostArgument.Plain : HostArgument → Prop
  | .star => True
  | .projection _ form => form.Plain

def HostArgument.AllPlain : List HostArgument → Prop
  | [] => True
  | a :: rest => a.Plain ∧ HostArgument.AllPlain rest

end

def RichForm.Plain (r : RichForm) : Prop :=
  ';' ∉ r.name.toList ∧ HostArgument.AllPlain r.arguments

/-! ## Texts of keys -/

theorem eq_of_append_cons {α : Type} {c : α} {as bs rest more : List α} (ha : c ∉ as)
    (hb : c ∉ bs) (h : as ++ c :: rest = bs ++ c :: more) : as = bs ∧ rest = more := by
  have hprefix : as ++ [c] <+: bs ++ c :: more := ⟨rest, by simp [h]⟩
  obtain rfl := Label.eq_of_prefix_of_notMem ha hb hprefix
  exact ⟨rfl, (List.cons.inj (List.append_cancel_left h)).2⟩

namespace Label

theorem braced_append_inj {m n : Nat} {rest more : List Char}
    (h : (number m).braced.toList ++ rest = (number n).braced.toList ++ more) :
    m = n ∧ rest = more := by
  obtain rfl : m = n := eq_of_braced_prefix ⟨rest, h⟩
  exact ⟨rfl, List.append_cancel_left h⟩

theorem braced_inj {l l' : Label} (hl : ∃ n, l = .number n) (hl' : ∃ n, l' = .number n)
    (h : l.braced = l'.braced) : l = l' := by
  obtain ⟨m, rfl⟩ := hl
  obtain ⟨n, rfl⟩ := hl'
  have h : (number m).braced.toList ++ [] = (number n).braced.toList ++ [] := by rw [h]
  rw [(braced_append_inj h).1]

end Label

def keyStarts : List String := ["type;", "array;", "class;", "typevar;", "wildcard;"]

theorem keyStarts_end : ∀ a ∈ keyStarts,
    a.toList = a.toList.dropLast ++ [';'] ∧ ';' ∉ a.toList.dropLast := by
  decide

theorem start_inj {a b x y : String} (ha : a ∈ keyStarts) (hb : b ∈ keyStarts)
    (h : a ++ x = b ++ y) : a = b ∧ x = y := by
  obtain ⟨ha, ha'⟩ := keyStarts_end a ha
  obtain ⟨hb, hb'⟩ := keyStarts_end b hb
  have h := congrArg String.toList h
  rw [String.toList_append, String.toList_append, ha, hb, List.append_assoc, List.append_assoc] at h
  obtain ⟨hstem, hrest⟩ := eq_of_append_cons ha' hb' h
  exact ⟨String.toList_inj.mp (by rw [ha, hb, hstem]), String.toList_inj.mp hrest⟩

theorem toList_instanceText (name : String) (ls : List Label) :
    (instanceText name ls).toList =
      name.toList ++ ls.flatMap fun l => ';' :: l.braced.toList := by
  induction ls generalizing name with
  | nil => simp [instanceText]
  | cons l ls ih =>
    have hstep : instanceText name (l :: ls) = instanceText (name ++ ";" ++ l.braced) ls := rfl
    rw [hstep, ih]
    simp

/-- Labels that each stand behind a separator are told apart, and so is what follows
them, if it does not begin like a separator. -/
theorem labels_inj (c : Char) (sep : List Char) {ls ms : List Label} {rest more : List Char}
    (hl : ∀ l ∈ ls, ∃ n, l = .number n) (hm : ∀ l ∈ ms, ∃ n, l = .number n)
    (hrest : rest.head? ≠ some c) (hmore : more.head? ≠ some c)
    (h : (ls.flatMap fun l => c :: (sep ++ l.braced.toList)) ++ rest =
      (ms.flatMap fun l => c :: (sep ++ l.braced.toList)) ++ more) : ls = ms ∧ rest = more := by
  induction ls generalizing ms with
  | nil =>
    cases ms with
    | nil => exact ⟨rfl, h⟩
    | cons m ms =>
      rw [show rest = _ from h] at hrest
      exact absurd rfl hrest
  | cons l ls ih =>
    cases ms with
    | nil =>
      rw [show more = _ from h.symm] at hmore
      exact absurd rfl hmore
    | cons m ms =>
      rw [List.forall_mem_cons] at hl hm
      obtain ⟨⟨i, rfl⟩, hl⟩ := hl
      obtain ⟨⟨j, rfl⟩, hm⟩ := hm
      simp only [List.flatMap_cons, List.cons_append, List.append_assoc, List.cons.injEq,
        true_and] at h
      obtain ⟨rfl, htail⟩ := Label.braced_append_inj (List.append_cancel_left h)
      obtain ⟨rfl, hrest⟩ := ih hl hm htail
      exact ⟨rfl, hrest⟩

/-- The name ends at the first sign, and the labels are told apart. -/
theorem instanceText_inj {name other : String} {ls ms : List Label} (hn : ';' ∉ name.toList)
    (ho : ';' ∉ other.toList) (hl : ∀ l ∈ ls, ∃ n, l = .number n)
    (hm : ∀ l ∈ ms, ∃ n, l = .number n) (h : instanceText name ls = instanceText other ms) :
    name = other ∧ ls = ms := by
  have hname (cs : List Char) (ks : List Label) (hcs : ';' ∉ cs) :
      (cs ++ ks.flatMap fun l => ';' :: l.braced.toList).takeWhile (· ≠ ';') = cs := by
    have hall : ∀ c ∈ cs, decide (c ≠ ';') = true := by
      intro c hc
      exact decide_eq_true fun he => hcs (he ▸ hc)
    rw [List.takeWhile_append_of_pos hall]
    cases ks <;> simp
  have h := congrArg String.toList h
  rw [toList_instanceText, toList_instanceText] at h
  have hnames := congrArg (List.takeWhile (· ≠ ';')) h
  rw [hname _ _ hn, hname _ _ ho] at hnames
  rw [hnames] at h
  have htail := congrArg (· ++ []) (List.append_cancel_left h)
  exact ⟨String.toList_inj.mp hnames, (labels_inj ';' [] hl hm (by simp) (by simp) htail).1⟩

/-! ## Labels of forms -/

namespace HostForm

variable {t : LabelTable} {f g : HostForm} {l : Label}

def start : HostForm → String
  | .unknown => ""
  | .primitive _ => "type;"
  | .array .. => "array;"
  | .ofClass .. => "class;"
  | .typeVariable .. => "typevar;"

def rest? (t : LabelTable) : HostForm → Option String
  | .unknown => none
  | .primitive name => some name
  | .array levels element =>
    (element.label? t).map fun l => toString levels ++ ";" ++ l.braced
  | .ofClass name arguments => (HostArgument.labels? t arguments).map (instanceText name)
  | .typeVariable owner name => some (owner.braced ++ ";" ++ name)

theorem key_of_label? (h : f.label? t = some l) :
    (f = .unknown ∧ l = .placeholder) ∨ ∃ rest, f.rest? t = some rest ∧ f.start ∈ keyStarts ∧
      f.start ≠ "wildcard;" ∧ t.find? (f.start ++ rest) = some l := by
  cases f with
  | unknown => exact Or.inl ⟨rfl, (Option.some.inj h).symm⟩
  | primitive name => exact Or.inr ⟨_, rfl, by simp [start, keyStarts], by simp [start], h⟩
  | array levels element =>
    obtain ⟨e, he, hkey⟩ := Option.bind_eq_some_iff.mp h
    exact Or.inr ⟨_, by rw [rest?, he]; rfl, by simp [start, keyStarts], by simp [start], hkey⟩
  | ofClass name arguments =>
    obtain ⟨ls, hls, hkey⟩ := Option.bind_eq_some_iff.mp h
    exact Or.inr ⟨_, by rw [rest?, hls]; rfl, by simp [start, keyStarts], by simp [start], hkey⟩
  | typeVariable owner name =>
    exact Or.inr ⟨_, rfl, by simp [start, keyStarts], by simp [start], h⟩

theorem number_of_label? (ht : t.Faithful) (h : f.label? t = some l) : ∃ n, l = .number n := by
  rcases key_of_label? h with ⟨-, rfl⟩ | ⟨rest, -, -, -, hkey⟩
  · exact ⟨0, rfl⟩
  · obtain ⟨n, hn, -⟩ := ht.bound _ _ hkey
    exact ⟨n, hn⟩

theorem key_eq_of_label? (ht : t.Faithful) (hf : f.label? t = some l)
    (hg : g.label? t = some l) : f.start = g.start ∧ f.rest? t = g.rest? t := by
  rcases key_of_label? hf with ⟨rfl, rfl⟩ | ⟨x, hx, hf, -, hfl⟩ <;>
    rcases key_of_label? hg with ⟨rfl, hl⟩ | ⟨y, hy, hg, -, hgl⟩
  · exact ⟨rfl, rfl⟩
  · exact absurd rfl (ht.ne_placeholder hgl)
  · exact absurd hl (ht.ne_placeholder hfl)
  · obtain ⟨hstart, rfl⟩ := start_inj hf hg (ht.distinct _ _ _ hfl hgl)
    exact ⟨hstart, hx.trans hy.symm⟩

theorem not_wildcard (ht : t.Faithful) {rest : String} (hf : f.label? t = some l) :
    t.find? ("wildcard;" ++ rest) ≠ some l := by
  intro hw
  rcases key_of_label? hf with ⟨-, rfl⟩ | ⟨body, -, hstart, hne, hkey⟩
  · exact ht.ne_placeholder hw rfl
  · exact hne (start_inj hstart (by decide) (ht.distinct _ _ _ hkey hw)).1

end HostForm

theorem HostArgument.number_of_label? {t : LabelTable} (ht : t.Faithful) {a : HostArgument}
    {l : Label} (h : a.label? t = some l) : ∃ n, l = .number n := by
  have hbound {key : String} (hk : t.find? key = some l) : ∃ n, l = .number n := by
    obtain ⟨n, hn, -⟩ := ht.bound key l hk
    exact ⟨n, hn⟩
  cases a with
  | star => exact hbound h
  | projection variance form =>
    obtain ⟨bound, hform, h⟩ := Option.bind_eq_some_iff.mp h
    cases variance with
    | invariant =>
      cases h
      exact HostForm.number_of_label? ht hform
    | covariant => exact hbound h
    | contravariant => exact hbound h

theorem HostArgument.numbers_of_labels? {t : LabelTable} (ht : t.Faithful)
    {as : List HostArgument} {ls : List Label} (h : HostArgument.labels? t as = some ls) :
    ∀ l ∈ ls, ∃ n, l = .number n := by
  induction as generalizing ls with
  | nil =>
    cases h
    exact fun _ hl => nomatch hl
  | cons a as ih =>
    obtain ⟨l, hl, h⟩ := Option.bind_eq_some_iff.mp h
    obtain ⟨ms, hms, h⟩ := Option.bind_eq_some_iff.mp h
    cases h
    exact List.forall_mem_cons.mpr ⟨HostArgument.number_of_label? ht hl, ih hms⟩

/-! ## Different forms, different labels -/

theorem digits_inj {m n : Nat} {l l' : Label} (hl : ∃ n, l = .number n) (hl' : ∃ n, l' = .number n)
    (h : toString m ++ ";" ++ l.braced = toString n ++ ";" ++ l'.braced) : m = n ∧ l = l' := by
  have h := congrArg String.toList h
  simp only [String.toList_append, List.append_assoc] at h
  obtain ⟨hm, hbraced⟩ := eq_of_append_cons (Label.notMem_digits (by decide) m)
    (Label.notMem_digits (by decide) n) h
  exact ⟨Nat.repr_injective (String.toList_inj.mp hm),
    Label.braced_inj hl hl' (String.toList_inj.mp hbraced)⟩

theorem braced_name_inj {l l' : Label} {name other : String} (hl : ∃ n, l = .number n)
    (hl' : ∃ n, l' = .number n) (h : l.braced ++ ";" ++ name = l'.braced ++ ";" ++ other) :
    l = l' ∧ name = other := by
  obtain ⟨m, rfl⟩ := hl
  obtain ⟨n, rfl⟩ := hl'
  have h := congrArg String.toList h
  simp only [String.toList_append, List.append_assoc] at h
  obtain ⟨rfl, hrest⟩ := Label.braced_append_inj h
  exact ⟨rfl, String.toList_inj.mp (List.cons.inj hrest).2⟩

namespace HostArgument

variable {t : LabelTable} {f g : HostForm} {l m n : Label} {v w : Variance}

theorem over?_of_find? {u : LabelTable}
    (htu : ∀ key l, t.find? key = some l → u.find? key = some l) (h : over? t m v = some l) :
    over? u m v = some l := by
  cases v with
  | invariant => exact h
  | covariant => exact htu _ _ h
  | contravariant => exact htu _ _ h

theorem text_inj (hm : ∃ i, m = .number i) (hn : ∃ i, n = .number i) {a b : String}
    (ha : '\x7b' ∉ a.toList) (hb : '\x7b' ∉ b.toList) (h : a ++ m.braced = b ++ n.braced) :
    a = b ∧ m = n := by
  obtain ⟨i, rfl⟩ := hm
  obtain ⟨j, rfl⟩ := hn
  have h := congrArg String.toList h
  simp only [String.toList_append, Label.braced_number] at h
  obtain ⟨hab, hrest⟩ := eq_of_append_cons ha hb h
  refine ⟨String.toList_inj.mp hab, ?_⟩
  have hbraced : (Label.number i).braced.toList = (Label.number j).braced.toList := by
    rw [Label.braced_number, Label.braced_number, hrest]
  exact Label.braced_inj ⟨i, rfl⟩ ⟨j, rfl⟩ (String.toList_inj.mp hbraced)

theorem star_ne (ht : t.Faithful) (hm : f.label? t = some m) (hl : over? t m v = some l) :
    t.find? "wildcard;" ≠ some l := by
  intro hstar
  have hkey {text : String} (h : t.find? ("wildcard;" ++ text) = some l) : text = "" := by
    have hkeys := ht.distinct _ ("wildcard;" ++ "") _ h (by simpa using hstar)
    exact (start_inj (by decide) (by decide) hkeys).2
  cases v with
  | invariant =>
    cases hl
    apply HostForm.not_wildcard ht hm
    rwa [String.append_empty]
  | covariant => simpa using congrArg String.toList (hkey hl)
  | contravariant => simpa using congrArg String.toList (hkey hl)

theorem over?_inj (ht : t.Faithful) (hm : f.label? t = some m) (hn : g.label? t = some n)
    (hv : over? t m v = some l) (hw : over? t n w = some l) : v = w ∧ m = n := by
  have hboth {a b : String} (ha : '\x7b' ∉ a.toList) (hb : '\x7b' ∉ b.toList)
      (hv : t.find? ("wildcard;" ++ (a ++ m.braced)) = some l)
      (hw : t.find? ("wildcard;" ++ (b ++ n.braced)) = some l) : a = b ∧ m = n :=
    text_inj (HostForm.number_of_label? ht hm) (HostForm.number_of_label? ht hn) ha hb
      (start_inj (by decide) (by decide) (ht.distinct _ _ _ hv hw)).2
  cases v <;> cases w
  case invariant.invariant => exact ⟨rfl, (Option.some.inj hv).trans (Option.some.inj hw).symm⟩
  case invariant.covariant => cases hv; exact absurd hw (HostForm.not_wildcard ht hm)
  case invariant.contravariant => cases hv; exact absurd hw (HostForm.not_wildcard ht hm)
  case covariant.invariant => cases hw; exact absurd hv (HostForm.not_wildcard ht hn)
  case contravariant.invariant => cases hw; exact absurd hv (HostForm.not_wildcard ht hn)
  case covariant.covariant => exact ⟨rfl, (hboth (by decide) (by decide) hv hw).2⟩
  case contravariant.contravariant => exact ⟨rfl, (hboth (by decide) (by decide) hv hw).2⟩
  case covariant.contravariant => exact absurd (hboth (by decide) (by decide) hv hw).1 (by simp)
  case contravariant.covariant => exact absurd (hboth (by decide) (by decide) hv hw).1 (by simp)

end HostArgument

mutual

/-- By induction on the first form: its key tells how the second one is made. -/
theorem HostForm.eq_of_label? {t : LabelTable} (ht : t.Faithful) (f g : HostForm) {l : Label}
    (hf : f.Plain) (hg : g.Plain) (hfl : f.label? t = some l) (hgl : g.label? t = some l) :
    f = g := by
  obtain ⟨hstart, hrest⟩ := HostForm.key_eq_of_label? ht hfl hgl
  match f, hf, hfl, hstart, hrest with
  | .unknown, _, _, hstart, _ =>
    cases g with
    | unknown => rfl
    | _ => simp [HostForm.start] at hstart
  | .primitive name, _, _, hstart, hrest =>
    cases g with
    | primitive other => rw [Option.some.inj hrest]
    | _ => simp [HostForm.start] at hstart
  | .array levels element, hf, hfl, hstart, hrest =>
    cases g with
    | array others inner =>
      obtain ⟨e, he, -⟩ := Option.bind_eq_some_iff.mp hfl
      obtain ⟨i, hi, -⟩ := Option.bind_eq_some_iff.mp hgl
      simp only [HostForm.rest?, he, hi, Option.map_some, Option.some.injEq] at hrest
      obtain ⟨rfl, rfl⟩ := digits_inj (HostForm.number_of_label? ht he)
        (HostForm.number_of_label? ht hi) hrest
      rw [HostForm.eq_of_label? ht element inner hf hg he hi]
    | _ => simp [HostForm.start] at hstart
  | .ofClass name arguments, hf, hfl, hstart, hrest =>
    cases g with
    | ofClass other others =>
      obtain ⟨ls, hls, -⟩ := Option.bind_eq_some_iff.mp hfl
      obtain ⟨ms, hms, -⟩ := Option.bind_eq_some_iff.mp hgl
      simp only [HostForm.rest?, hls, hms, Option.map_some, Option.some.injEq] at hrest
      obtain ⟨rfl, rfl⟩ := instanceText_inj hf.1 hg.1 (HostArgument.numbers_of_labels? ht hls)
        (HostArgument.numbers_of_labels? ht hms) hrest
      rw [HostArgument.eq_of_labels? ht arguments others hf.2 hg.2 hls hms]
    | _ => simp [HostForm.start] at hstart
  | .typeVariable owner name, hf, _, hstart, hrest =>
    cases g with
    | typeVariable other others =>
      obtain ⟨rfl, rfl⟩ := braced_name_inj hf hg (Option.some.inj hrest)
      rfl
    | _ => simp [HostForm.start] at hstart

/-- An invariant argument has the label of its form, any other the label of a
wildcard, whose key tells the kind and the bound. -/
theorem HostArgument.eq_of_label? {t : LabelTable} (ht : t.Faithful) (a b : HostArgument)
    {l : Label} (ha : a.Plain) (hb : b.Plain) (hal : a.label? t = some l)
    (hbl : b.label? t = some l) : a = b := by
  match a, ha, hal with
  | .star, _, hal =>
    cases b with
    | star => rfl
    | projection variance form =>
      obtain ⟨m, hm, hbl⟩ := Option.bind_eq_some_iff.mp hbl
      exact absurd hal (HostArgument.star_ne ht hm hbl)
  | .projection variance form, ha, hal =>
    obtain ⟨m, hm, hal⟩ := Option.bind_eq_some_iff.mp hal
    cases b with
    | star => exact absurd hbl (HostArgument.star_ne ht hm hal)
    | projection variance' form' =>
      obtain ⟨m', hm', hbl⟩ := Option.bind_eq_some_iff.mp hbl
      obtain ⟨rfl, rfl⟩ := HostArgument.over?_inj ht hm hm' hal hbl
      rw [HostForm.eq_of_label? ht form form' ha hb hm hm']

theorem HostArgument.eq_of_labels? {t : LabelTable} (ht : t.Faithful) (as bs : List HostArgument)
    {ls : List Label} (ha : HostArgument.AllPlain as) (hb : HostArgument.AllPlain bs)
    (has : HostArgument.labels? t as = some ls) (hbs : HostArgument.labels? t bs = some ls) :
    as = bs := by
  match as, ha, has with
  | [], _, has =>
    cases has
    cases bs with
    | nil => rfl
    | cons b bs =>
      obtain ⟨l, -, hbs⟩ := Option.bind_eq_some_iff.mp hbs
      obtain ⟨ms, -, hbs⟩ := Option.bind_eq_some_iff.mp hbs
      cases hbs
  | a :: as, ha, has =>
    obtain ⟨l, hl, has⟩ := Option.bind_eq_some_iff.mp has
    obtain ⟨ls, hls, has⟩ := Option.bind_eq_some_iff.mp has
    cases has
    cases bs with
    | nil => cases hbs
    | cons b bs =>
      obtain ⟨m, hm, hbs⟩ := Option.bind_eq_some_iff.mp hbs
      obtain ⟨ms, hms, hbs⟩ := Option.bind_eq_some_iff.mp hbs
      cases hbs
      rw [HostArgument.eq_of_label? ht a b ha.1 hb.1 hl hm,
        HostArgument.eq_of_labels? ht as bs ha.2 hb.2 hls hms]

end

theorem richStart_inj {a b : Bool} {x y : String} (h : richStart a ++ x = richStart b ++ y) :
    a = b ∧ x = y := by
  have h := congrArg String.toList h
  cases a <;> cases b <;> simp [richStart] at h
  · exact ⟨rfl, String.toList_inj.mp h⟩
  · exact ⟨rfl, String.toList_inj.mp h⟩

theorem RichForm.eq_of_label? {t : LabelTable} (ht : t.Faithful) {r q : RichForm} {l : Label}
    (hr : r.Plain) (hq : q.Plain) (hrl : r.label? t = some l) (hql : q.label? t = some l) :
    r = q := by
  obtain ⟨ls, hls, hrl⟩ := Option.bind_eq_some_iff.mp hrl
  obtain ⟨ms, hms, hql⟩ := Option.bind_eq_some_iff.mp hql
  obtain ⟨hnullable, htext⟩ := richStart_inj (ht.distinct _ _ _ hrl hql)
  obtain ⟨hname, rfl⟩ := instanceText_inj hr.1 hq.1 (HostArgument.numbers_of_labels? ht hls)
    (HostArgument.numbers_of_labels? ht hms) htext
  have harguments := HostArgument.eq_of_labels? ht _ _ hr.2 hq.2 hls hms
  obtain ⟨nullable, name, arguments⟩ := r
  obtain rfl := hnullable
  obtain rfl := hname
  obtain rfl := harguments
  rfl

end IrFacts
