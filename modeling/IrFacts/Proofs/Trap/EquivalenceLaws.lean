import IrFacts.Proofs.Trap.Comparison
import IrFacts.Proofs.Trap.Verdicts

/-!
# Comparison is an equivalence

A file is text just when all of its lines are, since no sign of a text has a line end
among its bytes. So two traps are equivalent just when both are text and their lines
are the same up to comments, and the laws of an equivalence hold for all files: which
one comes first, what ends it and where a line is no text make no difference to them.
-/

set_option autoImplicit false

namespace IrFacts.Trap

/-! ## Text by lines -/

theorem isText_iff_valid {line : Bytes} :
    isText line = true ↔ line.toByteArray.IsValidUTF8 := by
  have hbytes : (⟨line.toArray⟩ : ByteArray) = line.toByteArray :=
    ByteArray.ext List.data_toByteArray.symm
  rw [isText, hbytes, String.fromUTF8?]
  split <;> simp_all

theorem isText_iff_encode {line : Bytes} : isText line = true ↔ ∃ cs, encode cs = line := by
  constructor
  · intro h
    obtain ⟨cs, hcs⟩ := isText_iff_valid.mp h
    refine ⟨cs, ?_⟩
    rw [← List.toList_data_toByteArray (l := line), hcs, List.utf8Encode,
      List.toList_data_toByteArray, encode]
  · rintro ⟨cs, rfl⟩
    exact isText_encode cs

theorem encode_parted {c : Char} {b : UInt8} (hb : b.toNat < 128)
    (hc : String.utf8EncodeChar c = [b]) {cs : List Char} {front rest : Bytes}
    (h : encode cs = front ++ b :: rest) : ∃ xs ys, encode xs = front ∧ encode ys = rest := by
  induction cs generalizing front with
  | nil => simp [encode] at h
  | cons d cs ih =>
    rw [encode_cons] at h
    rcases List.append_eq_append_iff.mp h with ⟨front, rfl, hcs⟩ | ⟨last, hd, hrest⟩
    · obtain ⟨xs, ys, rfl, hys⟩ := ih hcs
      exact ⟨d :: xs, ys, encode_cons d xs, hys⟩
    cases last with
    | nil =>
      obtain ⟨xs, ys, hxs, hys⟩ := @ih [] hrest.symm
      refine ⟨d :: xs, ys, ?_, hys⟩
      rw [encode_cons, hxs, hd, List.append_nil, List.append_nil]
    | cons b' last =>
      -- The byte stands in the first sign, which then is the sign of this byte alone.
      obtain ⟨rfl, hcs⟩ := List.cons_eq_cons.mp hrest
      have hcb : c.toNat = b.toNat := toNat_of_ascii_mem hb (by simp [hc])
      obtain rfl : d = c := eq_of_ascii_mem hcb hb (by simp [hd])
      obtain ⟨rfl, rfl⟩ : front = [] ∧ last = [] := by
        simpa [hc, List.singleton_eq_append_iff] using hd
      exact ⟨[], cs, rfl, hcs.symm⟩

theorem isText_append_cons {c : Char} {b : UInt8} (hb : b.toNat < 128)
    (hc : String.utf8EncodeChar c = [b]) {front rest : Bytes} :
    isText (front ++ b :: rest) = true ↔ isText front = true ∧ isText rest = true := by
  simp only [isText_iff_encode]
  constructor
  · rintro ⟨cs, hcs⟩
    obtain ⟨xs, ys, hxs, hys⟩ := encode_parted hb hc hcs
    exact ⟨⟨xs, hxs⟩, ys, hys⟩
  · rintro ⟨⟨xs, rfl⟩, ys, rfl⟩
    exact ⟨xs ++ c :: ys, by rw [encode_append, encode_cons, hc]; rfl⟩

theorem isText_nil : isText [] = true := isText_encode []

theorem isText_dropReturn {line : Bytes} :
    isText (dropReturn line) = true ↔ isText line = true := by
  rcases List.eq_nil_or_concat line with rfl | ⟨front, b, rfl⟩
  · rfl
  rw [List.concat_eq_append, dropReturn_append (List.cons_ne_nil b []), dropReturn]
  split
  · next hb =>
    subst hb
    have hreturn : String.utf8EncodeChar '\r' = [13] := rfl
    rw [isText_append_cons (by decide) hreturn, List.append_nil]
    exact (and_iff_left isText_nil).symm
  · rfl

theorem isText_linesOf {line bytes : Bytes} :
    (∀ l ∈ linesOf line bytes, isText l = true) ↔ isText (line.reverse ++ bytes) = true := by
  induction bytes generalizing line with
  | nil =>
    rw [linesOf, List.append_nil]
    cases line with
    | nil => simp [isText_nil]
    | cons b line => simp
  | cons b bytes ih =>
    rw [linesOf]
    split
    · next hb =>
      subst hb
      have hnewline : String.utf8EncodeChar '\n' = [10] := rfl
      rw [List.forall_mem_cons, isText_dropReturn, ih, List.reverse_nil, List.nil_append,
        isText_append_cons (by decide) hnewline]
    · rw [ih, List.reverse_cons, List.append_assoc, List.singleton_append]

/-! ## The laws -/

theorem compareLines_eq_true {as bs : List Bytes} :
    compareLines as bs = .ok true ↔ (∀ a ∈ as, isText a = true) ∧ (∀ b ∈ bs, isText b = true) ∧
      as.map blank = bs.map blank := by
  constructor
  · intro h
    induction as generalizing bs with
    | nil =>
      cases bs with
      | nil => simp
      | cons b bs =>
        rw [compareLines] at h
        split at h <;> cases h
    | cons a as ih =>
      cases bs with
      | nil =>
        rw [compareLines] at h
        split at h <;> cases h
      | cons b bs =>
        rw [compareLines] at h
        split at h
        · cases h
        next htext =>
        split at h
        · next hsame =>
          obtain ⟨ha, hb⟩ : isText a = true ∧ isText b = true := by simpa using htext
          obtain ⟨has, hbs, hrest⟩ := ih h
          refine ⟨List.forall_mem_cons.mpr ⟨ha, has⟩, List.forall_mem_cons.mpr ⟨hb, hbs⟩, ?_⟩
          rw [List.map_cons, List.map_cons, sameLine_iff.mp hsame, hrest]
        · cases h
  · rintro ⟨has, hbs, hblank⟩
    obtain ⟨same, heq, hiff⟩ := compareLines_of_text has hbs
    rw [heq, hiff.mpr hblank]

/-- Traps are equivalent if both are text and their lines are the same up to comments. -/
theorem equivalent_eq_true {a b : Bytes} :
    equivalent a b = .ok true ↔ a.toByteArray.IsValidUTF8 ∧ b.toByteArray.IsValidUTF8 ∧
      (linesOf [] a).map blank = (linesOf [] b).map blank := by
  rw [equivalent, compareLines_eq_true, isText_linesOf, isText_linesOf, isText_iff_valid,
    isText_iff_valid, List.reverse_nil, List.nil_append, List.nil_append]

/-- Which file comes first makes no difference to the outcome, a file is equivalent to itself
unless it is no text, what is equivalent to the same is equivalent, and what is told to be
equivalent differs in nothing but comments and the ends of lines. -/
theorem equivalent_isEquivalence :
    (∀ a b, equivalent a b = equivalent b a) ∧
      (∀ a, equivalent a a =
        if a.toByteArray.IsValidUTF8 then .ok true else .error .invalidText) ∧
      (∀ a b c, equivalent a b = .ok true → equivalent b c = .ok true →
        equivalent a c = .ok true) ∧
      ∀ a b, equivalent a b = .ok true ↔ a.toByteArray.IsValidUTF8 ∧
        b.toByteArray.IsValidUTF8 ∧ (linesOf [] a).map blank = (linesOf [] b).map blank := by
  refine ⟨fun a b => compareLines_comm _ _, fun a => ?_, fun a b c hab hbc => ?_,
    fun a b => equivalent_eq_true⟩
  · have htext : (∀ l ∈ linesOf [] a, isText l = true) ↔ a.toByteArray.IsValidUTF8 :=
      isText_linesOf.trans isText_iff_valid
    simp only [equivalent, compareLines_self, htext]
  · obtain ⟨ha, -, hab⟩ := equivalent_eq_true.mp hab
    obtain ⟨-, hc, hbc⟩ := equivalent_eq_true.mp hbc
    exact equivalent_eq_true.mpr ⟨ha, hc, hab.trans hbc⟩

/-- A file of one fact, with a comment in front of it and whatever stands behind it. -/
def remarkedFact (remark rest : String) : Bytes :=
  encode (remark ++ "\nfoo(#1)" ++ rest).toList

theorem valid_remarkedFact (remark rest : String) :
    (remarkedFact remark rest).toByteArray.IsValidUTF8 :=
  isText_iff_valid.mp (isText_encode _)

theorem equivalent_isEquivalence_remarked :
    equivalent (remarkedFact "// é" "\r\n// end") (remarkedFact "// b\r" "\n//\n") = .ok true ∧
      equivalent (remarkedFact "// b\r" "\n//\n") (remarkedFact "//" "\n///\r") = .ok true ∧
      equivalent (remarkedFact "// é" "\r\n// end") (remarkedFact "//" "\n///\r") =
        .ok true := by
  have hfirst : equivalent (remarkedFact "// é" "\r\n// end") (remarkedFact "// b\r" "\n//\n") =
      .ok true :=
    equivalent_eq_true.mpr ⟨valid_remarkedFact _ _, valid_remarkedFact _ _, by decide⟩
  have hsecond : equivalent (remarkedFact "// b\r" "\n//\n") (remarkedFact "//" "\n///\r") =
      .ok true :=
    equivalent_eq_true.mpr ⟨valid_remarkedFact _ _, valid_remarkedFact _ _, by decide⟩
  exact ⟨hfirst, hsecond, equivalent_isEquivalence.2.2.1 _ _ _ hfirst hsecond⟩

end IrFacts.Trap
