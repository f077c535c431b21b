import IrFacts.Json.Decoder
import IrFacts.Proofs.Json.ReadBack
import Mathlib.Data.List.Forall2

/-!
# Written documents are decoded

A decoder makes a value of a written document, provided that as many brackets may
be opened as the document nests. The lemmas here say so for each way in which
decoders are put together: a record for an object, a variant for a tag, and the
items of a list.
-/

set_option autoImplicit false

namespace IrFacts.Json

/-! ## How deep a document nests -/

namespace Value

mutual

/-- The number of brackets that are open at once. -/
def depth : Value → Nat
  | .null => 0
  | .bool _ => 0
  | .integer _ => 0
  | .real _ => 0
  | .real32 _ => 0
  | .string _ => 0
  | .array items => depthOfAll items + 1
  | .object members => depthOfMembers members + 1

def depthOfAll : List Value → Nat
  | [] => 0
  | item :: rest => max item.depth (depthOfAll rest)

def depthOfMembers : List (String × Value) → Nat
  | [] => 0
  | (_, value) :: rest => max value.depth (depthOfMembers rest)

end

end Value

variable {α β : Type} {levels : Nat} {v : Value} {a : α}

@[simp] theorem fault?_ok (a : α) : fault? (.ok a) = none := rfl

@[simp] theorem ok_bind {ε : Type} (a : α) (f : α → Except ε β) : (Except.ok a >>= f) = f a := rfl

/-- The document can be written and read, and the decoder makes `a` of it wherever
fewer than so many brackets may be opened, but enough for the document. -/
structure Within (levels : Nat) (decode : Decoder α) (v : Value) (a : α) : Prop where
  fits : v.Fits
  decode : ∀ depth, depth < levels → v.depth ≤ depth → decode depth v.node = .ok a

namespace Within

variable {decode : Decoder α}

theorem mono {fewer : Nat} (h : Within levels decode v a) (hle : fewer ≤ levels) :
    Within fewer decode v a :=
  ⟨h.fits, fun depth hdepth => h.decode depth (Nat.lt_of_lt_of_le hdepth hle)⟩

theorem map (h : Within levels decode v a) (f : α → β) :
    Within levels (fun depth node => (decode depth node).map f) v (f a) :=
  ⟨h.fits, fun depth hdepth hle => by rw [h.decode depth hdepth hle, Except.map]⟩

/-- Where no bracket may be opened at all, it is left to say that the document can be written. -/
theorem zero (h : Within levels decode v a) (other : Decoder α) : Within 0 other v a :=
  ⟨h.fits, nofun⟩

/-! ## Single values -/

theorem bool (levels : Nat) (b : Bool) : Within levels Decoder.bool (.bool b) b :=
  ⟨trivial, fun _ _ _ => rfl⟩

theorem string (levels : Nat) (s : String) : Within levels Decoder.string (.string s) s :=
  ⟨trivial, fun _ _ _ => rfl⟩

theorem char (levels : Nat) (c : Char) :
    Within levels Decoder.char (.string (String.singleton c)) c := by
  refine ⟨trivial, fun depth _ _ => ?_⟩
  rw [Value.node, Decoder.char, Decoder.string, ok_bind, String.toList_singleton]
  rfl

theorem integer (levels : Nat) {low high n : Int} (hlow : low ≤ n) (hhigh : n < high)
    (h : (Value.integer n).Fits) : Within levels (Decoder.integer low high) (.integer n) n := by
  refine ⟨h, fun depth _ _ => ?_⟩
  have hnode : Decoder.integer low high depth (Value.integer n).node =
      if low ≤ n ∧ n < high then .ok n else .error .mismatched := by
    by_cases hn : 0 ≤ n
    · rw [Value.node, if_pos hn, ← Int.toNat_of_nonneg hn]
      rfl
    · rw [Value.node, if_neg hn]
      rfl
  rw [hnode, if_pos ⟨hlow, hhigh⟩]

theorem uint32 (levels : Nat) (n : UInt32) :
    Within levels Decoder.uint32 (.integer n.toNat) n := by
  have hlow : (0 : Int) ≤ n.toNat := Int.natCast_nonneg _
  have hhigh : (n.toNat : Int) < 2 ^ 32 := Int.ofNat_lt.mpr n.toNat_lt
  have h := (integer levels hlow hhigh ⟨by omega, by omega⟩).map fun n => UInt32.ofNat n.toNat
  rwa [Int.toNat_natCast, UInt32.ofNat_toNat] at h

theorem uint64 (levels : Nat) (n : UInt64) :
    Within levels Decoder.uint64 (.integer n.toNat) n := by
  have hlow : (0 : Int) ≤ n.toNat := Int.natCast_nonneg _
  have hhigh : (n.toNat : Int) < 2 ^ 64 := Int.ofNat_lt.mpr n.toNat_lt
  have h := (integer levels hlow hhigh ⟨by omega, by omega⟩).map fun n => UInt64.ofNat n.toNat
  rwa [Int.toNat_natCast, UInt64.ofNat_toNat] at h

theorem int8 (levels : Nat) (n : Int8) : Within levels Decoder.int8 (.integer n.toInt) n := by
  have hlow := n.le_toInt
  have hhigh := n.toInt_lt
  have h := (integer levels hlow hhigh ⟨by omega, by omega⟩).map Int8.ofInt
  rwa [Int8.ofInt_toInt] at h

theorem int16 (levels : Nat) (n : Int16) : Within levels Decoder.int16 (.integer n.toInt) n := by
  have hlow := n.le_toInt
  have hhigh := n.toInt_lt
  have h := (integer levels hlow hhigh ⟨by omega, by omega⟩).map Int16.ofInt
  rwa [Int16.ofInt_toInt] at h

theorem int32 (levels : Nat) (n : Int32) : Within levels Decoder.int32 (.integer n.toInt) n := by
  have hlow := n.le_toInt
  have hhigh := n.toInt_lt
  have h := (integer levels hlow hhigh ⟨by omega, by omega⟩).map Int32.ofInt
  rwa [Int32.ofInt_toInt] at h

theorem int64 (levels : Nat) (n : Int64) : Within levels Decoder.int64 (.integer n.toInt) n := by
  have hlow := n.le_toInt
  have hhigh := n.toInt_lt
  have h := (integer levels hlow hhigh ⟨by omega, by omega⟩).map Int64.ofInt
  rwa [Int64.ofInt_toInt] at h

theorem absent : Within levels (Decoder.optionOf decode) .null none := ⟨trivial, fun _ _ _ => rfl⟩

theorem present (h : Within levels decode v a) (hv : v ≠ .null) :
    Within levels (Decoder.optionOf decode) v (some a) := by
  refine ⟨h.fits, fun depth hdepth hle => ?_⟩
  have hdecode := h.decode depth hdepth hle
  cases v with
  | null => exact absurd rfl hv
  | _ => exact congrArg (Except.map some) hdecode

/-! ## Lists -/

theorem list {item : Decoder α} {items : List Value} {as : List α}
    (h : List.Forall₂ (Within levels item) items as) :
    Within (levels + 1) (Decoder.list item) (.array items) as := by
  have hitems : Value.FitsAll items ∧ ∀ depth, depth < levels → Value.depthOfAll items ≤ depth →
      Decoder.items item depth (Value.nodes items) = .ok as := by
    induction h with
    | nil => exact ⟨trivial, fun _ _ _ => rfl⟩
    | cons hfirst _ ih =>
      refine ⟨⟨hfirst.fits, ih.1⟩, fun depth hdepth hle => ?_⟩
      obtain ⟨hle, hrest⟩ := Nat.max_le.mp hle
      rw [Value.nodes, Decoder.items, hfirst.decode depth hdepth hle, ok_bind,
        ih.2 depth hdepth hrest]
      rfl
  refine ⟨hitems.1, fun depth hdepth hle => ?_⟩
  obtain ⟨depth, rfl⟩ := Nat.exists_eq_add_one.mpr (Nat.lt_of_lt_of_le (Nat.succ_pos _) hle)
  have hdecode := hitems.2 depth (Nat.lt_of_succ_lt_succ hdepth) (Nat.le_of_succ_le_succ hle)
  rw [Value.node, Decoder.list, Decoder.enter, hdecode]
  rfl

end Within

/-! ## Records -/

/-- The members of a written record, as the decoder of the record is given them. -/
def Reading.written (depth : Nat) (fields : List (String × Value)) : Reading :=
  { depth, members := fields.map fun field => (field.1, field.2.node), fault := none }

namespace Reading

variable {depth : Nat} {fields : List (String × Value)}

theorem ofMembers_written {names seen : List String}
    (hnames : ∀ field ∈ fields, field.1 ∈ names ∧ field.1 ∉ seen)
    (hnodup : (fields.map (·.1)).Nodup) :
    ofMembers names seen .closed (Value.memberNodes fields) =
      (fields.map fun field => (field.1, field.2.node), none) := by
  induction fields generalizing seen with
  | nil => rfl
  | cons field fields ih =>
    obtain ⟨name, value⟩ := field
    obtain ⟨⟨hname, hseen⟩, hrest⟩ := List.forall_mem_cons.mp hnames
    obtain ⟨hnew, hnodup⟩ := List.nodup_cons.mp hnodup
    have hlater : ∀ other ∈ fields, other.1 ∈ names ∧ other.1 ∉ name :: seen := by
      refine fun other hother => ⟨(hrest other hother).1, fun hmem => ?_⟩
      rcases List.mem_cons.mp hmem with heq | hmem
      · exact hnew (List.mem_map.mpr ⟨other, hother, heq⟩)
      · exact (hrest other hother).2 hmem
    simp [Value.memberNodes, ofMembers, hname, hseen, ih hlater hnodup]

theorem lookup_written (depth : Nat) (name : String) :
    (written depth fields).members.lookup name = (fields.lookup name).map Value.node := by
  rw [written]
  induction fields with
  | nil => rfl
  | cons field fields ih =>
    rw [List.map_cons, List.lookup_cons, List.lookup_cons]
    split
    · rfl
    · exact ih

theorem optional_written {decode : Decoder α} {name : String} (depth : Nat) (absent : α)
    (h : fields.lookup name = none) :
    (written depth fields).optional name decode absent = .ok absent := by
  rw [optional, lookup_written, h]
  rfl

@[simp] theorem settle_written (depth : Nat) {faults : List (String × Option Fault)}
    (h : ∀ entry ∈ faults, entry.2 = none) : (written depth fields).settle faults = .ok () := by
  have hmember (name : String) : (faults.lookup name).join = none := by
    cases hlookup : faults.lookup name with
    | none => rfl
    | some fault =>
      obtain ⟨front, rest, rfl, -⟩ := List.lookup_eq_some_iff.mp hlookup
      exact h (name, fault) (by simp)
  have hmissing : faults.findSome? (fun entry => entry.2) = none :=
    List.findSome?_eq_none_iff.mpr h
  have hpresent : (written depth fields).members.findSome? (fun member =>
      (faults.lookup member.1).join) = none :=
    List.findSome?_eq_none_iff.mpr fun member _ => hmember member.1
  rw [settle, firstFault, hpresent, hmissing]
  rfl

end Reading

namespace Within

open Reading (written)

variable {decode : Decoder α} {fields : List (String × Value)} {name : String} {depth : Nat}

theorem depth_le_of_lookup (h : fields.lookup name = some v) :
    v.depth ≤ Value.depthOfMembers fields := by
  induction fields with
  | nil => cases h
  | cons field fields ih =>
    rw [List.lookup_cons] at h
    split at h
    · exact Option.some.inj h ▸ Nat.le_max_left _ _
    · exact Nat.le_trans (ih h) (Nat.le_max_right _ _)

theorem required (hv : Within levels decode v a) (hdepth : depth < levels)
    (hle : Value.depthOfMembers fields ≤ depth) (h : fields.lookup name = some v) :
    (written depth fields).required name decode = .ok a := by
  rw [Reading.required, Reading.lookup_written, h]
  exact hv.decode depth hdepth (Nat.le_trans (depth_le_of_lookup h) hle)

theorem optional (hv : Within levels decode v a) (hdepth : depth < levels)
    (hle : Value.depthOfMembers fields ≤ depth) (absent : α) (h : fields.lookup name = some v) :
    (written depth fields).optional name decode absent = .ok a := by
  rw [Reading.optional, Reading.lookup_written, h]
  exact hv.decode depth hdepth (Nat.le_trans (depth_le_of_lookup h) hle)

theorem record {names : List String} {fields : List (String × Value)}
    {body : Reading → Except Fault α} (hnodup : names.Nodup)
    (hnames : (fields.map (·.1)).Sublist names) (hfits : Value.FitsMembers fields)
    (h : ∀ depth, depth < levels → Value.depthOfMembers fields ≤ depth →
      body (written depth fields) = .ok a) :
    Within (levels + 1) (fun depth node => Reading.ofNode names depth node >>= body)
      (.object fields) a := by
  refine ⟨hfits, fun depth hdepth hle => ?_⟩
  obtain ⟨depth, rfl⟩ := Nat.exists_eq_add_one.mpr (Nat.lt_of_lt_of_le (Nat.succ_pos _) hle)
  have hknown : ∀ field ∈ fields, field.1 ∈ names ∧ field.1 ∉ ([] : List String) :=
    fun field hfield => ⟨hnames.subset (List.mem_map_of_mem hfield), List.not_mem_nil⟩
  have hmembers := Reading.ofMembers_written hknown (hnames.nodup hnodup)
  have hreading : Reading.ofNode names (depth + 1) (Value.object fields).node =
      .ok (written depth fields) := by
    simp only [Value.node, Reading.ofNode, Decoder.enter, hmembers, written]
  rw [hreading, ok_bind]
  exact h depth (Nat.lt_of_succ_lt_succ hdepth) (Nat.le_of_succ_le_succ hle)

/-! ## Variants -/

theorem bare {variant? : String → Option (Variant α)} {tag : String}
    (h : variant? tag = some (.bare a)) :
    Within levels (Decoder.tagged variant?) (.string tag) a := by
  refine ⟨trivial, fun depth _ _ => ?_⟩
  rw [Value.node, Decoder.tagged, ok_bind, h]
  rfl

theorem holding {variant? : String → Option (Variant α)} {tag : String} {decode : Decoder α}
    (h : variant? tag = some (.holding decode)) (hcontent : Within levels decode v a) :
    Within (levels + 1) (Decoder.tagged variant?) (.object [(tag, v)]) a := by
  refine ⟨⟨hcontent.fits, trivial⟩, fun depth hdepth hle => ?_⟩
  obtain ⟨depth, rfl⟩ := Nat.exists_eq_add_one.mpr (Nat.lt_of_lt_of_le (Nat.succ_pos _) hle)
  have hle : v.depth ≤ depth := Nat.le_trans (Nat.le_max_left _ _) (Nat.le_of_succ_le_succ hle)
  have hdecode := hcontent.decode depth (Nat.lt_of_succ_lt_succ hdepth) hle
  simp only [Value.node, Value.memberNodes, Decoder.tagged, Decoder.enter, ok_bind, h,
    Decoder.content, hdecode]
  rfl

end Within

end IrFacts.Json
