import IrFacts.Proofs.Output.TrapPlaces
import IrFacts.Proofs.Text.Bytes

/-!
# What metadata vouch for

The metadata that are written for a fingerprint vouch for this fingerprint and
for no other. As long as digests do not collide, a fingerprint tells the name
of its class.
-/

set_option autoImplicit false

namespace IrFacts

/-! ## Metadata and fingerprints -/

theorem isBlank_hexDigit : ∀ n < 16, Text.isBlank (Sha256.hexDigit n) = false := by decide

theorem isBlank_of_mem_hexDigest {bytes : List UInt8} {c : Char}
    (h : c ∈ (Sha256.hexDigest bytes).toList) : Text.isBlank c = false := by
  rw [Sha256.hexDigest, String.toList_ofList] at h
  obtain ⟨byte, -, hc⟩ := List.mem_flatMap.mp h
  have hlt : byte.toNat < 256 := byte.toNat_lt
  simp only [Sha256.hexByte, List.mem_cons, List.not_mem_nil, or_false] at hc
  rcases hc with rfl | rfl
  · exact isBlank_hexDigit _ (by omega)
  · exact isBlank_hexDigit _ (by omega)

theorem trimEnd_newline {text : List Char}
    (h : ∀ c, text.getLast? = some c → Text.isBlank c = false) :
    Text.trimEnd (text ++ ['\n']) = text := by
  rw [Text.trimEnd, List.reverse_append, List.reverse_singleton, List.singleton_append,
    List.dropWhile_cons_of_pos (by decide)]
  cases hr : text.reverse with
  | nil => exact (List.reverse_eq_nil_iff.mp hr).symm
  | cons c rest =>
    have hlast : text.getLast? = some c := by rw [← List.head?_reverse, hr, List.head?_cons]
    rw [List.dropWhile_cons_of_neg (by simp [h c hlast]), ← hr, List.reverse_reverse]

namespace ClassTrap

theorem isBlank_of_getLast?_metadataOf {bytes : List UInt8} {c : Char}
    (h : (metadataOf (Sha256.hexDigest bytes)).toList.getLast? = some c) :
    Text.isBlank c = false := by
  rw [metadataOf, String.toList_append, List.getLast?_append] at h
  cases hlast : (Sha256.hexDigest bytes).toList.getLast? with
  | none =>
    rw [hlast] at h
    cases h
    decide
  | some last =>
    rw [hlast] at h
    cases h
    exact isBlank_of_mem_hexDigest (List.mem_of_getLast? hlast)

/-- Metadata vouch for the fingerprint that they were written for only. -/
theorem fingerprint_of_vouches {bytes : List UInt8} {fingerprint : String}
    (h : vouches (metadataOf (Sha256.hexDigest bytes) ++ "\n") fingerprint = true) :
    Sha256.hexDigest bytes = fingerprint := by
  have htrim : Text.trimEnd (metadataOf (Sha256.hexDigest bytes) ++ "\n").toList =
      (metadataOf (Sha256.hexDigest bytes)).toList := by
    rw [String.toList_append]
    exact trimEnd_newline fun c => isBlank_of_getLast?_metadataOf
  have hsame : metadataOf (Sha256.hexDigest bytes) = metadataOf fingerprint := by
    unfold vouches at h
    rw [htrim] at h
    exact String.toList_inj.mp (of_decide_eq_true h)
  exact (String.append_right_inj _).mp hsame

end ClassTrap

namespace Program

variable {p : Program}

def CollisionFree (p : Program) (ids : DeclId → Prop) : Prop :=
  ∀ a b c d, ids a → ids b → p.decl? a = some c → p.decl? b = some d →
    Sha256.hexDigest (p.fingerprintBytes a c) = Sha256.hexDigest (p.fingerprintBytes b d) →
    p.fingerprintBytes a c = p.fingerprintBytes b d

theorem binaryName_of_fingerprintBytes {a b : DeclId} {c d : Declaration} {name other : String}
    (ha : p.binaryName? a = some name) (hb : p.binaryName? b = some other)
    (hname : '\x00' ∉ name.toList) (hother : '\x00' ∉ other.toList)
    (h : p.fingerprintBytes a c = p.fingerprintBytes b d) : name = other := by
  have hfirst (text : String) (ht : '\x00' ∉ text.toList) (rest : List UInt8) :
      (bytesOf text ++ 0 :: rest).takeWhile (· ≠ 0) = bytesOf text := by
    rw [List.takeWhile_append_of_pos, List.takeWhile_cons_of_neg (by simp), List.append_nil]
    intro byte hbyte
    simp only [ne_eq, decide_not, Bool.not_eq_eq_eq_not, Bool.not_true, decide_eq_false_iff_not]
    rintro rfl
    exact zero_notMem_bytesOf ht hbyte
  simp only [fingerprintBytes, ha, hb, Option.getD_some, List.append_assoc, List.cons_append] at h
  apply bytesOf_inj
  rw [← hfirst name hname, ← hfirst other hother, h]

end Program

end IrFacts
