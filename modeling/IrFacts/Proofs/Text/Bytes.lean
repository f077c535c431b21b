import IrFacts.Output.Fingerprint

/-!
# Texts as bytes

A text is written in bytes sign by sign. Those below 128 are signs of their own, wherever
they stand, and the bytes tell the text.
-/

set_option autoImplicit false

namespace IrFacts

theorem toList_eq_data (bytes : ByteArray) : bytes.toList = bytes.data.toList := by
  suffices h : ∀ n i read, bytes.size - i = n →
      ByteArray.toList.loop bytes i read = read.reverse ++ bytes.data.toList.drop i by
    simpa [ByteArray.toList] using h bytes.size 0 [] rfl
  intro n
  induction n with
  | zero =>
    intro i read hn
    have hi : ¬i < bytes.size := by omega
    have hdrop : bytes.data.toList.drop i = [] := List.drop_eq_nil_iff.mpr (Nat.not_lt.mp hi)
    rw [ByteArray.toList.loop, if_neg hi, hdrop, List.append_nil]
  | succ n ih =>
    intro i read hn
    have hi : i < bytes.size := by omega
    have hlist : i < bytes.data.toList.length := hi
    have hget : bytes.get! i = bytes.data.toList[i] := by
      rw [ByteArray.get!, getElem!_pos bytes.data i hi, Array.getElem_toList]
    rw [ByteArray.toList.loop, if_pos hi, ih (i + 1) _ (by omega), hget, List.reverse_cons,
      List.append_assoc, List.singleton_append, List.getElem_cons_drop]

theorem bytesOf_eq (text : String) : bytesOf text = text.toList.flatMap String.utf8EncodeChar := by
  rw [bytesOf, toList_eq_data, String.toUTF8_eq_toByteArray, ← String.utf8Encode_toList,
    List.utf8Encode, List.toList_data_toByteArray]

theorem bytesOf_inj {a b : String} (h : bytesOf a = bytesOf b) : a = b := by
  rw [bytesOf, bytesOf, toList_eq_data, toList_eq_data] at h
  exact String.toByteArray_inj.mp (ByteArray.ext (Array.toList_inj.mp h))

theorem toNat_of_ascii_mem {c : Char} {b : UInt8} (hb : b.toNat < 128)
    (h : b ∈ String.utf8EncodeChar c) : c.toNat = b.toNat := by
  have hbyte (n : Nat) (hn : b = UInt8.ofNat n) : n % 256 = b.toNat := by
    simp [hn]
  unfold String.utf8EncodeChar at h
  extract_lets v at h
  have hv : c.toNat = v := rfl
  split at h
  · next hsmall =>
    have := hbyte v (List.mem_singleton.mp h)
    omega
  · split at h
    · simp only [List.mem_cons, List.not_mem_nil, or_false] at h
      rcases h with h | h <;> have := hbyte _ h <;> omega
    · split at h <;> simp only [List.mem_cons, List.not_mem_nil, or_false] at h
      · rcases h with h | h | h <;> have := hbyte _ h <;> omega
      · rcases h with h | h | h | h <;> have := hbyte _ h <;> omega

theorem eq_of_ascii_mem {c d : Char} {b : UInt8} (hd : d.toNat = b.toNat) (hb : b.toNat < 128)
    (h : b ∈ String.utf8EncodeChar c) : c = d :=
  Char.toNat_inj.mp ((toNat_of_ascii_mem hb h).trans hd.symm)

theorem zero_notMem_bytesOf {text : String} (h : '\x00' ∉ text.toList) : 0 ∉ bytesOf text := by
  rw [bytesOf_eq]
  intro hzero
  obtain ⟨c, hc, hbyte⟩ := List.mem_flatMap.mp hzero
  exact h (eq_of_ascii_mem (d := '\x00') rfl (by decide) hbyte ▸ hc)

theorem fromUTF8?_toUTF8 (text : String) : String.fromUTF8? text.toUTF8 = some text := by
  have hvalid : text.toUTF8.IsValidUTF8 := text.isValidUTF8
  rw [String.fromUTF8?, dif_pos hvalid]
  rfl

end IrFacts
