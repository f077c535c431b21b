import IrFacts.Proofs.Files.Locations

/-!
# How the names of files end

What a file is for can be told from the ending of its name. Two endings of one
name are endings of each other, so that files with other endings lie apart. A
temporary name has six letters and digits before its own ending.
-/

set_option autoImplicit false

namespace IrFacts

namespace Path

/-- The last name on the way to a location ends so. -/
def NameEnds (ending : String) (location : Location) : Prop :=
  ∃ folder last, location = folder ++ [last ++ ending]

theorem nameEnds_locationFrom (here : Location) (text : String) {ending : String} {c : Char}
    (hslash : '/' ∉ ending.toList) (hlast : ending.toList.getLast? = some c) (hc : c ≠ '.') :
    NameEnds ending (locationFrom here ⟨text ++ ending⟩) := by
  obtain ⟨folder, last, hends⟩ := locationFrom_ending here text
  exact ⟨folder, last, hends hslash hlast hc⟩

theorem suffix_of_nameEnds {a b : String} {location : Location} (ha : NameEnds a location)
    (hb : NameEnds b location) : a.toList <:+ b.toList ∨ b.toList <:+ a.toList := by
  obtain ⟨folder, last, rfl⟩ := ha
  obtain ⟨folder', last', hsame⟩ := hb
  obtain ⟨-, hnames⟩ := List.append_inj' hsame rfl
  have hname : last ++ a = last' ++ b := List.singleton_inj.mp hnames
  have hlist : last.toList ++ a.toList = last'.toList ++ b.toList := by
    rw [← String.toList_append, hname, String.toList_append]
  have hsuffix : a.toList <:+ last'.toList ++ b.toList := hlist ▸ List.suffix_append ..
  exact List.suffix_or_suffix_of_suffix hsuffix (List.suffix_append ..)

theorem not_nameEnds {a b : String} {location : Location} (ha : NameEnds a location)
    (hab : ¬a.toList <:+ b.toList) (hba : ¬b.toList <:+ a.toList) : ¬NameEnds b location :=
  fun hb => (suffix_of_nameEnds ha hb).elim hab hba

theorem NameEnds.of_append {a b : String} {location : Location} (h : NameEnds (a ++ b) location) :
    NameEnds b location := by
  obtain ⟨folder, last, rfl⟩ := h
  exact ⟨folder, last ++ a, by rw [String.append_assoc]⟩

end Path

namespace Disk

theorem length_nameDigits (count n : Nat) : (nameDigits count n).length = count := by
  induction count generalizing n with
  | zero => rfl
  | succ count ih => simp [nameDigits, ih]

theorem plain_of_mem_nameDigits {count n : Nat} {c : Char} (h : c ∈ nameDigits count n) :
    c ≠ '.' ∧ c ≠ '/' := by
  have hdigit : ∀ d < 36,
      Char.ofNat (if d < 10 then '0'.toNat + d else 'a'.toNat + (d - 10)) ≠ '.' ∧
        Char.ofNat (if d < 10 then '0'.toNat + d else 'a'.toNat + (d - 10)) ≠ '/' := by
    decide
  induction count generalizing n with
  | zero => cases h
  | succ count ih =>
    rw [nameDigits] at h
    rcases List.mem_append.mp h with hfront | hlast
    · exact ih hfront
    · rw [List.mem_singleton.mp hlast]
      exact hdigit (n % 36) (Nat.mod_lt n (by decide))

def nameBody (n : Nat) : String := String.ofList (nameDigits 6 n)

theorem nameEnds_temporary (here : Location) (folder : Path) (front back : String) (n : Nat)
    {c : Char} (hslash : '/' ∉ back.toList) (hlast : back.toList.getLast? = some c)
    (hc : c ≠ '.') : Path.NameEnds (nameBody n ++ back)
      ((within folder (temporaryName front back n)).locationFrom here) := by
  obtain ⟨outer, houter⟩ : ∃ outer, within folder (temporaryName front back n) =
      ⟨outer ++ temporaryName front back n⟩ := by
    unfold within Path.join
    split
    · exact ⟨"", by simp⟩
    · split
      · exact ⟨folder.fromHere.text, rfl⟩
      · exact ⟨folder.fromHere.text ++ "/", rfl⟩
  have htext : within folder (temporaryName front back n) =
      ⟨outer ++ front ++ (nameBody n ++ back)⟩ := by
    rw [houter, temporaryName, nameBody]
    simp only [String.append_assoc]
  rw [htext]
  refine Path.nameEnds_locationFrom here _ (c := c) ?_ ?_ hc
  · rw [String.toList_append, nameBody, String.toList_ofList]
    intro hmem
    rcases List.mem_append.mp hmem with hbody | hback
    · exact (plain_of_mem_nameDigits hbody).2 rfl
    · exact hslash hback
  · rw [String.toList_append, List.getLast?_append, hlast]
    rfl

theorem not_suffix_nameBody {ending back : String} (n : Nat) (hdot : '.' ∈ ending.toList) :
    ¬(ending ++ back).toList <:+ (nameBody n ++ back).toList := by
  intro h
  rw [String.toList_append, String.toList_append, nameBody, String.toList_ofList] at h
  have hsuffix : ending.toList <:+ nameDigits 6 n := by
    obtain ⟨front, hfront⟩ := h
    rw [← List.append_assoc] at hfront
    exact ⟨front, List.append_cancel_right hfront⟩
  exact (plain_of_mem_nameDigits (hsuffix.mem hdot)).1 rfl

end Disk

end IrFacts
