import ChunkedStorage.Proofs.Disk.Paths
import ChunkedStorage.Proofs.Sha256

/-!
# Names of files

Numbered names and digests are plain names, and short ones (`utf8ByteSize_numbered_le`, `Sha256.IsDigest.utf8ByteSize`).
They are never the same if the numbers stand behind a character that is no digit of a digest (`Sha256.numbered_ne_hex`).
-/

namespace ChunkedStorage

namespace Disk

/-! ### Sizes of names -/

private theorem utf8ByteSize_ofList (chars : List Char) :
    (String.ofList chars).utf8ByteSize = (chars.map Char.utf8Size).sum := by
  induction chars with
  | nil => rfl
  | cons c rest ih =>
    rw [String.ofList_cons, String.utf8ByteSize_append, String.utf8ByteSize_singleton, ih, List.map_cons, List.sum_cons]

/-- A name of characters that take a byte each is as long in bytes as in characters. -/
theorem utf8ByteSize_eq_length {name : String} (h : ∀ c ∈ name.toList, c.utf8Size = 1) :
    name.utf8ByteSize = name.toList.length := by
  have hsizes : name.toList.map Char.utf8Size = List.replicate name.toList.length 1 := List.map_eq_replicate_iff.2 h
  have hsum := utf8ByteSize_ofList name.toList
  rw [String.ofList_toList, hsizes, List.sum_replicate_nat, Nat.mul_one] at hsum
  exact hsum

/-! ### Numbered names -/

theorem numbered_injective (start : String) {n m : Nat} (h : start ++ toString n = start ++ toString m) : n = m := by
  have hdigits : Nat.toDigits 10 n = Nat.toDigits 10 m := by
    have := congrArg String.toList ((String.append_right_inj start).1 h)
    simpa [Nat.toString_eq_ofList_toDigits] using this
  rw [← Nat.ofDigitChars_ten_toDigits (n := n), hdigits, Nat.ofDigitChars_ten_toDigits]

private theorem toList_numbered (start : String) (n : Nat) :
    (start ++ toString n).toList = start.toList ++ Nat.toDigits 10 n := by
  simp

private theorem isDigit_of_mem {n : Nat} {c : Char} (hc : c ∈ Nat.toDigits 10 n) : c.isDigit = true :=
  Nat.isDigit_of_mem_toDigits (by decide) (by decide) hc

theorem utf8ByteSize_numbered_le (start : String) {n k : Nat} (hk : 0 < k) (hn : n < 10 ^ k) :
    (start ++ toString n).utf8ByteSize ≤ start.utf8ByteSize + k := by
  have hdigits : ∀ c ∈ (toString n).toList, c.utf8Size = 1 := by
    intro c hc
    have hdigit : c.isDigit = true := isDigit_of_mem (by simpa using hc)
    rw [Char.utf8Size_eq_one_iff]
    simp only [Char.isDigit, Bool.and_eq_true, decide_eq_true_eq] at hdigit
    exact UInt32.le_trans hdigit.2 (by decide)
  have hlength : (toString n).toList.length ≤ k := by
    have := (Nat.length_toDigits_le_iff (by decide) hk).2 hn
    simpa using this
  rw [String.utf8ByteSize_append, utf8ByteSize_eq_length hdigits]
  omega

/-- A number behind a plain start of some length makes a plain name. -/
theorem isPlain_numbered {start : String} (hlength : 2 ≤ start.toList.length) (hslash : '/' ∉ start.toList)
    (hnul : '\x00' ∉ start.toList) (n : Nat) : IsPlain (start ++ toString n) := by
  have hchars := toList_numbered start n
  have hpositive : 0 < (Nat.toDigits 10 n).length := Nat.length_toDigits_pos
  have hlong : 3 ≤ (start ++ toString n).toList.length := by
    rw [hchars, List.length_append]
    omega
  refine ⟨?_, ?_, ?_, ?_, ?_⟩
  · intro h
    rw [h] at hlong
    exact absurd hlong (by decide)
  · intro h
    rw [h] at hlong
    exact absurd hlong (by decide)
  · intro h
    rw [h] at hlong
    exact absurd hlong (by decide)
  · rw [hchars, List.mem_append]
    rintro (h | h)
    · exact hslash h
    · exact absurd (isDigit_of_mem h) (by decide)
  · rw [hchars, List.mem_append]
    rintro (h | h)
    · exact hnul h
    · exact absurd (isDigit_of_mem h) (by decide)

end Disk

/-! ### Digests -/

namespace Sha256

namespace IsDigest

variable {name : String}

theorem utf8ByteSize (h : IsDigest name) : name.utf8ByteSize = 64 := by
  have hdigits : ∀ c ∈ hexDigits, c.utf8Size = 1 := by simp [hexDigits, Char.utf8Size_eq_one_iff]
  rw [Disk.utf8ByteSize_eq_length fun c hc => hdigits c (h.digits c hc), h.length]

/-- A name with a character that is no digit is no digest. -/
theorem ne_of_mem {other : String} {c : Char} (h : IsDigest name) (hc : c ∈ other.toList) (hdigit : c ∉ hexDigits) :
    name ≠ other := by
  rintro rfl
  exact hdigit (h.digits c hc)

theorem isPlain (h : IsDigest name) : Disk.IsPlain name where
  ne_empty := by
    rintro rfl
    exact absurd h.length (by decide)
  ne_dot := h.ne_of_mem (show '.' ∈ ".".toList by decide) (by decide)
  ne_dots := h.ne_of_mem (show '.' ∈ "..".toList by decide) (by decide)
  slash := fun hc => absurd (h.digits _ hc) (by decide)
  nul := fun hc => absurd (h.digits _ hc) (by decide)

end IsDigest

theorem numbered_ne_hex {start : String} {c : Char} (hc : c ∈ start.toList) (hdigit : c ∉ hexDigits) (n : Nat)
    (message : Bytes) : start ++ toString n ≠ hex message := by
  refine ((isDigest_hex message).ne_of_mem ?_ hdigit).symm
  rw [String.toList_append]
  exact List.mem_append_left _ hc

end Sha256

end ChunkedStorage
