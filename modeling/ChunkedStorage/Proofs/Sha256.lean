import ChunkedStorage.Sha256
import Mathlib.Tactic.IntervalCases

/-!
# Hashing piece by piece

A hasher that is fed the pieces of a message ends with the digest of the message (`finish_foldl_update`).  A digest in
hexadecimal form is a text of sixty-four digits (`isDigest_hex`).
-/

namespace ChunkedStorage.Sha256

/-! ### Complete blocks -/

private theorem drop_eq_nil_iff (bytes : Bytes) : bytes.drop (blockLength - 1) = [] ↔ bytes.length < blockLength := by
  rw [List.drop_eq_nil_iff, blockLength]
  omega

theorem absorb_of_lt {bytes : Bytes} (h : bytes.length < blockLength) (chain : Words) :
    absorb chain bytes = (chain, bytes) := by
  rw [absorb, dif_pos ((drop_eq_nil_iff bytes).2 h)]

theorem absorb_block {bytes : Bytes} (h : blockLength ≤ bytes.length) (chain : Words) :
    absorb chain bytes = absorb (compress chain (bytes.take blockLength)) (bytes.drop blockLength) := by
  rw [absorb, dif_neg]
  rw [drop_eq_nil_iff]
  omega

/-- What lies behind the complete blocks is fed again with what follows. -/
theorem absorb_append (chain : Words) (bytes more : Bytes) :
    absorb chain (bytes ++ more) = absorb (absorb chain bytes).1 ((absorb chain bytes).2 ++ more) := by
  fun_induction absorb chain bytes with
  | case1 => rfl
  | case2 chain bytes hlong ih =>
    have hlength : blockLength ≤ bytes.length := Nat.le_of_not_lt (mt (drop_eq_nil_iff bytes).2 hlong)
    have hboth : blockLength ≤ (bytes ++ more).length := by
      rw [List.length_append]
      omega
    rw [← ih, absorb_block hboth, List.take_append_of_le_length hlength, List.drop_append_of_le_length hlength]

/-! ### Hashers -/

namespace Hasher

/-- The hasher has been fed exactly a message. -/
def Fed (h : Hasher) (message : Bytes) : Prop :=
  (h.chain, h.pending) = absorb initial message ∧ h.length = message.length

theorem fed_empty : empty.Fed [] := by
  refine ⟨?_, rfl⟩
  rw [absorb_of_lt (by decide)]
  rfl

theorem Fed.update {h : Hasher} {message : Bytes} (hfed : h.Fed message) (piece : Bytes) :
    (h.update piece).Fed (message ++ piece) := by
  obtain ⟨hchain, hlength⟩ := hfed
  constructor
  · rw [absorb_append, ← hchain]
    rfl
  · rw [List.length_append, ← hlength]
    rfl

theorem Fed.foldl {h : Hasher} {message : Bytes} (hfed : h.Fed message) (pieces : List Bytes) :
    (pieces.foldl Hasher.update h).Fed (message ++ pieces.flatten) := by
  induction pieces generalizing h message with
  | nil => simpa using hfed
  | cons piece rest ih =>
    rw [List.flatten_cons, ← List.append_assoc]
    exact ih (hfed.update piece)

theorem Fed.finish {h : Hasher} {message : Bytes} (hfed : h.Fed message) : h.finish = hex message := by
  obtain ⟨hchain, hlength⟩ := hfed
  rw [Hasher.finish, hex, digest, absorb_append initial message, ← hchain, hlength]

end Hasher

/-- The digest of the pieces is that of the message they make. -/
theorem finish_foldl_update (pieces : List Bytes) :
    (pieces.foldl Hasher.update Hasher.empty).finish = hex pieces.flatten :=
  (Hasher.fed_empty.foldl pieces).finish

/-! ### Hexadecimal digits -/

/-- The digits of a digest. -/
def hexDigits : List Char := ['0', '1', '2', '3', '4', '5', '6', '7', '8', '9', 'a', 'b', 'c', 'd', 'e', 'f']

private theorem hexDigit_mem {n : UInt8} (h : n.toNat < 16) : hexDigit n ∈ hexDigits := by
  obtain ⟨k, hk, rfl⟩ : ∃ k < 16, n = UInt8.ofNat k := ⟨n.toNat, h, by simp⟩
  interval_cases k <;> decide

theorem mem_hexDigits_of_mem_hex {message : Bytes} {c : Char} (h : c ∈ (hex message).toList) : c ∈ hexDigits := by
  simp only [hex, hexOfBytes, String.toList_ofList, List.mem_flatMap] at h
  obtain ⟨b, -, hc⟩ := h
  have hhigh : (b >>> 4).toNat < 16 := by
    have := b.toNat_lt
    simp only [UInt8.toNat_shiftRight]
    have : (4 : UInt8).toNat % 8 = 4 := rfl
    rw [this, Nat.shiftRight_eq_div_pow]
    omega
  have hlow : (b &&& 15).toNat < 16 := by
    rw [UInt8.toNat_and]
    exact Nat.lt_of_le_of_lt Nat.and_le_right (by decide)
  rcases List.mem_cons.1 hc with rfl | hc
  · exact hexDigit_mem hhigh
  · rw [List.mem_singleton.1 hc]
    exact hexDigit_mem hlow

theorem length_hex (message : Bytes) : (hex message).toList.length = 64 := by
  have hbytes (v : Words) : v.bytes.length = 32 := rfl
  have hdigits (bytes : Bytes) : (hexOfBytes bytes).toList.length = 2 * bytes.length := by
    induction bytes with
    | nil => rfl
    | cons b rest ih =>
      simp only [hexOfBytes, String.toList_ofList, List.flatMap_cons, List.length_append, List.length_cons,
        List.length_nil] at ih ⊢
      omega
  rw [hex, hdigits, digest, hbytes]

/-- A name that a digest may have: sixty-four digits. -/
structure IsDigest (name : String) : Prop where
  length : name.toList.length = 64
  digits : ∀ c ∈ name.toList, c ∈ hexDigits

theorem isDigest_hex (message : Bytes) : IsDigest (hex message) :=
  ⟨length_hex message, fun _ => mem_hexDigits_of_mem_hex⟩

end ChunkedStorage.Sha256
