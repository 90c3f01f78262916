import ChunkedStorage.Text.Decimal
import Mathlib.Data.Nat.Digits.Defs
import Mathlib.Tactic.IntervalCases

/-!
# Written numbers

The digits of a number are read back as the number (`Text.digits?_toDigits`), and there is no zero in front of them
(`Text.head?_toDigits`).  The texts that are read as words are digits behind an optional sign (`Text.natural?_iff`,
`Text.integer?_iff`).
-/

namespace ChunkedStorage.Text

variable {c : Char} {n : Nat}

theorem isDigit_iff : isDigit c = true ↔ 48 ≤ c.toNat ∧ c.toNat ≤ 57 := by
  simp [isDigit, Char.le_def, UInt32.le_iff_toNat_le]

/-- There are ten digits. -/
theorem digit_cases (h : isDigit c = true) : c ∈ ['0', '1', '2', '3', '4', '5', '6', '7', '8', '9'] := by
  obtain ⟨hlow, hhigh⟩ := isDigit_iff.1 h
  rw [← Char.ofNat_toNat c]
  interval_cases c.toNat <;> decide

theorem isDigit_of_mem_toDigits (hc : c ∈ Nat.toDigits 10 n) : isDigit c = true := by
  have hdigit := Nat.isDigit_of_mem_toDigits (by decide) (by decide) hc
  simpa [isDigit, Char.isDigit, Char.le_def] using hdigit

theorem digitsValue_toDigits (n : Nat) : digitsValue (Nat.toDigits 10 n) = n := by
  have hvalue := Nat.ofDigitChars_ten_toDigits (n := n)
  rwa [Nat.ofDigitChars_eq_foldl] at hvalue

theorem digits?_toDigits (n : Nat) : digits? (Nat.toDigits 10 n) = some n := by
  have hall : (Nat.toDigits 10 n).all isDigit = true :=
    List.all_eq_true.2 fun c => isDigit_of_mem_toDigits
  rw [digits?, if_pos ⟨Nat.toDigits_ne_nil, hall⟩, digitsValue_toDigits]

/-- There is a zero in front of no number but zero. -/
theorem head?_toDigits (h : (Nat.toDigits 10 n).head? = some '0') : n = 0 := by
  induction n using Nat.strong_induction_on with
  | _ n ih =>
    rw [Nat.toDigits_eq_if (by decide)] at h
    split at h
    · next hsmall =>
      simp only [List.head?_cons, Option.some.injEq] at h
      interval_cases n <;> first | rfl | cases h
    · next hlarge =>
      obtain ⟨d, ds, hds⟩ := List.exists_cons_of_ne_nil (Nat.toDigits_ne_nil : Nat.toDigits 10 (n / 10) ≠ [])
      rw [hds] at h
      have hzero := ih (n / 10) (by omega) (by rw [hds]; exact h)
      omega

/-! ### Signs -/

/-- One or more digits, with their value. -/
structure Digits (s : List Char) (n : Nat) : Prop where
  nonempty : s ≠ []
  digits : ∀ c ∈ s, '0' ≤ c ∧ c ≤ '9'
  value : Nat.ofDigitChars 10 s 0 = n

/-- Digits, perhaps behind a plus sign. -/
inductive Unsigned : List Char → Nat → Prop
  | plain {ds : List Char} {n : Nat} (h : Digits ds n) : Unsigned ds n
  | plus {ds : List Char} {n : Nat} (h : Digits ds n) : Unsigned ('+' :: ds) n

/-- Digits, perhaps behind a sign. -/
inductive Signed : List Char → Int → Prop
  | unsigned {s : List Char} {n : Nat} (h : Unsigned s n) : Signed s n
  | minus {ds : List Char} {n : Nat} (h : Digits ds n) : Signed ('-' :: ds) (-n)

variable {s : List Char}

theorem digits?_iff : digits? s = some n ↔ Digits s n := by
  have hdigits : s.all isDigit = true ↔ ∀ c ∈ s, '0' ≤ c ∧ c ≤ '9' := by
    simp [isDigit]
  have hvalue : digitsValue s = Nat.ofDigitChars 10 s 0 := Nat.ofDigitChars_eq_foldl.symm
  rw [digits?]
  constructor
  · intro h
    split at h
    · next hwhole => exact ⟨hwhole.1, hdigits.1 hwhole.2, hvalue ▸ Option.some.inj h⟩
    · cases h
  · rintro ⟨hne, hall, rfl⟩
    rw [if_pos ⟨hne, hdigits.2 hall⟩, hvalue]

theorem digits_toDigits (n : Nat) : Digits (Nat.toDigits 10 n) n := digits?_iff.1 (digits?_toDigits n)

theorem Digits.isDigit {n : Nat} (h : Digits s n) (hc : c ∈ s) : isDigit c = true := by
  simpa [Text.isDigit] using h.digits c hc

theorem unsigned_plus_iff : Unsigned ('+' :: s) n ↔ Digits s n := by
  constructor
  · intro h
    cases h with
    | plain h => exact absurd (h.isDigit List.mem_cons_self) (by decide)
    | plus h => exact h
  · exact .plus

theorem unsigned_iff (hplus : ∀ rest, s ≠ '+' :: rest) : Unsigned s n ↔ Digits s n := by
  constructor
  · intro h
    cases h with
    | plain h => exact h
    | plus => exact absurd rfl (hplus _)
  · exact .plain

variable {i : Int}

theorem signed_minus_iff : Signed ('-' :: s) i ↔ ∃ n, Digits s n ∧ -(n : Int) = i := by
  constructor
  · intro h
    cases h with
    | unsigned h =>
      have hdigits := (unsigned_iff (by simp)).1 h
      exact absurd (hdigits.isDigit List.mem_cons_self) (by decide)
    | minus h => exact ⟨_, h, rfl⟩
  · rintro ⟨n, h, rfl⟩
    exact .minus h

theorem signed_iff (hminus : ∀ rest, s ≠ '-' :: rest) : Signed s i ↔ ∃ n, Unsigned s n ∧ (n : Int) = i := by
  constructor
  · intro h
    cases h with
    | unsigned h => exact ⟨_, h, rfl⟩
    | minus => exact absurd rfl (hminus _)
  · rintro ⟨n, h, rfl⟩
    exact .unsigned h

private theorem bind_guard_iff {α : Type} {p : α → Prop} [DecidablePred p] {a? : Option α} {a : α} :
    (a?.bind fun a => if p a then some a else none) = some a ↔ a? = some a ∧ p a := by
  cases a? with
  | none => simp
  | some b =>
    rw [Option.bind_some]
    split
    · next hb => exact ⟨fun h => ⟨h, Option.some.inj h ▸ hb⟩, And.left⟩
    · next hb => exact iff_of_false nofun fun ⟨h, ha⟩ => hb (Option.some.inj h ▸ ha)

/-- Words are read with an optional plus sign, and with any zeros in front. -/
theorem natural?_iff : natural? s = some n ↔ Unsigned s n ∧ n < wordLimit := by
  unfold natural?
  simp only [bind]
  split
  · rw [bind_guard_iff, digits?_iff, unsigned_plus_iff]
  · next hplus => rw [bind_guard_iff, digits?_iff, unsigned_iff hplus]

theorem natural?_toDigits (h : n < wordLimit) : natural? (Nat.toDigits 10 n) = some n :=
  natural?_iff.2 ⟨.plain (digits_toDigits n), h⟩

/-- Signed words are read with an optional sign, and with any zeros in front. -/
theorem integer?_iff : integer? s = some i ↔ Signed s i ∧ -(signedLimit : Int) ≤ i ∧ i < signedLimit := by
  unfold integer?
  simp only [bind]
  split
  · rw [bind_guard_iff, Option.map_eq_some_iff, signed_iff (by simp)]
    simp only [digits?_iff, unsigned_plus_iff]
    rfl
  · rw [bind_guard_iff, Option.map_eq_some_iff, signed_minus_iff]
    simp only [digits?_iff]
    rfl
  · next hplus hminus =>
    rw [bind_guard_iff, Option.map_eq_some_iff, signed_iff hminus]
    simp only [digits?_iff, unsigned_iff hplus]
    rfl

end ChunkedStorage.Text
