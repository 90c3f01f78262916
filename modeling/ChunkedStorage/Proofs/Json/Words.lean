import ChunkedStorage.Json.Lexer
import ChunkedStorage.Json.Value
import ChunkedStorage.Proofs.Decimals
import Mathlib.Data.List.DropRight

/-!
# Words that are read back

A quoted string is read back as the string (`string_quote`), and the digits of a word as the word
(`number_toDigits`).  Both are passed over as well, and so is every number (`skipNumber_of_isNumber`).
-/

namespace ChunkedStorage.Json

variable {c : Char} {s rest : Source} {fuel : Nat}

/-! ### Blanks -/

theorem skipBlank_cons {c : Option Char} (hc : isBlank c = false) (s : Source) : skipBlank (c :: s) = c :: s := by
  rw [skipBlank, List.dropWhile_cons_of_neg (by simp [hc])]

@[simp] theorem skipBlank_skipBlank (s : Source) : skipBlank (skipBlank s) = skipBlank s :=
  List.dropWhile_idempotent _ _

/-! ### Strings -/

private theorem hexValue?_digitChar : ∀ n < 16, hexValue? (Nat.digitChar n) = some n := by
  decide

private theorem fourDigits_control {n : Nat} (hn : n < 32) (rest : Source) :
    fourDigits (some '0' :: some '0' :: ((controlDigits n).map some ++ rest)) = .ok (n, rest) := by
  have hhigh := hexValue?_digitChar (n / 16) (by omega)
  have hlow := hexValue?_digitChar (n % 16) (by omega)
  have hzero : hexValue? '0' = some 0 := by decide
  simp only [fourDigits, fourDigits?, controlDigits, hhigh, hlow, hzero, List.map_cons, List.map_nil, List.cons_append,
    List.nil_append, bind, Option.bind]
  simp only [Nat.zero_mul, Nat.zero_add, Nat.div_add_mod']

private theorem escape_control {n : Nat} (hn : n < 32) (rest : Source) :
    escape (some 'u' :: some '0' :: some '0' :: ((controlDigits n).map some ++ rest)) = .ok (Char.ofNat n, rest) := by
  have hlow : isLowSurrogate n = false := by
    simp only [isLowSurrogate, Bool.and_eq_false_iff, decide_eq_false_iff_not]
    omega
  have hhigh : isHighSurrogate n = false := by
    simp only [isHighSurrogate, Bool.and_eq_false_iff, decide_eq_false_iff_not]
    omega
  simp only [escape, fourDigits_control hn rest, hlow, hhigh, Bool.false_eq_true, if_false]

/-- One character of a string is read back. -/
private theorem stringBody_escaped (c : Char) {cs : Option (List Char)} (h : stringBody fuel s = .ok (cs, rest)) :
    stringBody (fuel + 1) ((escaped c).map some ++ s) = .ok (cs.map (c :: ·), rest) := by
  unfold escaped
  split
  · simp [stringBody, escape, shortEscape?, h]
  · simp [stringBody, escape, shortEscape?, h]
  · simp [stringBody, escape, shortEscape?, h]
  · simp [stringBody, escape, shortEscape?, h]
  · simp [stringBody, escape, shortEscape?, h]
  · simp [stringBody, escape, shortEscape?, h]
  · simp [stringBody, escape, shortEscape?, h]
  · next hquote hbackslash _ _ _ _ _ =>
    split
    · next hcontrol =>
      have hchar := escape_control hcontrol s
      rw [Char.ofNat_toNat] at hchar
      have hslash : ¬('\\' = '"') := by decide
      simp only [List.cons_append, List.nil_append, List.map_cons, stringBody, hslash, if_false, if_true, hchar, h]
    · next hplain =>
      have hquote' : ¬(c = '"') := hquote
      have hbackslash' : ¬(c = '\\') := hbackslash
      simp only [List.map_cons, List.map_nil, List.cons_append, List.nil_append, stringBody, hquote', hbackslash',
        hplain, if_false, h]

private theorem skipStringBody_escaped (c : Char) :
    skipStringBody (fuel + 1) ((escaped c).map some ++ s) = skipStringBody fuel s := by
  unfold escaped
  split
  · rfl
  · rfl
  · rfl
  · rfl
  · rfl
  · rfl
  · rfl
  · next hquote hbackslash _ _ _ _ _ =>
    split
    · next hcontrol =>
      have hdigits := fourDigits_control hcontrol s
      have hslash : ¬('\\' = '"') := by decide
      simp only [List.cons_append, List.nil_append, List.map_cons, skipStringBody, hslash, if_false, if_true,
        skipEscape, hdigits, Except.map]
    · next hplain =>
      have hquote' : ¬(c = '"') := hquote
      have hbackslash' : ¬(c = '\\') := hbackslash
      simp only [List.map_cons, List.map_nil, List.cons_append, List.nil_append, skipStringBody, hquote', hbackslash',
        hplain, if_false]

private theorem escaped_ne_nil (c : Char) : escaped c ≠ [] := by
  unfold escaped
  split
  all_goals try simp
  split <;> simp

/-- There is fuel enough for every character. -/
private theorem length_le_flatMap_escaped (cs : List Char) : cs.length ≤ (cs.flatMap escaped).length := by
  induction cs with
  | nil => exact Nat.le_refl 0
  | cons c cs ih =>
    have hpositive := List.length_pos_iff.2 (escaped_ne_nil c)
    rw [List.flatMap_cons, List.length_append, List.length_cons]
    omega

/-- A quoted string is read back. -/
theorem string_quote (text : String) (rest : Source) :
    string ((text.toList.flatMap escaped).map some ++ some '"' :: rest) = .ok (text, rest) := by
  have hbody (cs : List Char) (more : Nat) :
      stringBody (cs.length + 1 + more) ((cs.flatMap escaped).map some ++ some '"' :: rest) = .ok (some cs, rest) := by
    induction cs with
    | nil =>
      rw [List.length_nil, Nat.zero_add, Nat.add_comm]
      rfl
    | cons c cs ih =>
      rw [List.length_cons, Nat.add_right_comm, List.flatMap_cons, List.map_append, List.append_assoc,
        stringBody_escaped c ih]
      rfl
  obtain ⟨more, hmore⟩ := Nat.exists_eq_add_of_le (length_le_flatMap_escaped text.toList)
  have hfuel : ((text.toList.flatMap escaped).map some ++ some '"' :: rest).length + 1 =
      text.toList.length + 1 + (more + (rest.length + 1)) := by
    rw [List.length_append, List.length_map, hmore, List.length_cons]
    omega
  rw [string, hfuel, hbody]
  simp only [String.ofList_toList]

/-- A quoted string is passed over. -/
theorem skipString_quote (text : String) (rest : Source) :
    skipString ((text.toList.flatMap escaped).map some ++ some '"' :: rest) = .ok rest := by
  have hbody (cs : List Char) (more : Nat) :
      skipStringBody (cs.length + 1 + more) ((cs.flatMap escaped).map some ++ some '"' :: rest) = .ok rest := by
    induction cs with
    | nil =>
      rw [List.length_nil, Nat.zero_add, Nat.add_comm]
      rfl
    | cons c cs ih =>
      rw [List.length_cons, Nat.add_right_comm, List.flatMap_cons, List.map_append, List.append_assoc,
        skipStringBody_escaped, ih]
  obtain ⟨more, hmore⟩ := Nat.exists_eq_add_of_le (length_le_flatMap_escaped text.toList)
  have hfuel : ((text.toList.flatMap escaped).map some ++ some '"' :: rest).length + 1 =
      text.toList.length + 1 + (more + (rest.length + 1)) := by
    rw [List.length_append, List.length_map, hmore, List.length_cons]
    omega
  rw [skipString, hfuel, hbody]

/-! ### Numbers -/

/-- A number ends before this text: it goes on with no digit, point or exponent. -/
def Stops (s : Source) : Prop :=
  ∀ c, s.head? = some (some c) → Text.isDigit c = false ∧ c ≠ '.' ∧ c ≠ 'e' ∧ c ≠ 'E'

def IsDigits (ds : List Char) : Prop := ds ≠ [] ∧ ∀ c ∈ ds, Text.isDigit c = true

/-- The digits of a whole number, without a zero in front. -/
def IsWhole (ds : List Char) : Prop := IsDigits ds ∧ (ds.head? = some '0' → ds.length = 1)

/-- The point with the digits behind it, if there are any. -/
def IsFraction (cs : List Char) : Prop := cs = [] ∨ ∃ ds, cs = '.' :: ds ∧ IsDigits ds

/-- The letter with the exponent behind it, if there is one. -/
def IsExponent (cs : List Char) : Prop :=
  cs = [] ∨
    ∃ letter sign ds, cs = letter :: (sign ++ ds) ∧ letter ∈ ['e', 'E'] ∧ sign ∈ [[], ['+'], ['-']] ∧ IsDigits ds

/-- The text of a number. -/
def IsNumber (cs : List Char) : Prop :=
  ∃ sign whole fraction exponent, cs = sign ++ (whole ++ (fraction ++ exponent)) ∧ sign ∈ [[], ['-']] ∧ IsWhole whole ∧
    IsFraction fraction ∧ IsExponent exponent

/-- Digits are taken up to the first character that is none. -/
theorem digits_append {ds : List Char} (hds : ∀ c ∈ ds, Text.isDigit c = true)
    (hrest : ∀ c, rest.head? = some (some c) → Text.isDigit c = false) :
    digits (ds.map some ++ rest) = (ds, rest) := by
  have hall : ∀ c ∈ ds.map some, isDigit c = true := by
    intro c hc
    obtain ⟨d, hd, rfl⟩ := List.mem_map.1 hc
    exact hds d hd
  have hfirst : rest.takeWhile isDigit = [] ∧ rest.dropWhile isDigit = rest := by
    cases rest with
    | nil => exact ⟨rfl, rfl⟩
    | cons c rest =>
      have hc : ¬(isDigit c = true) := by
        cases c with
        | none => simp [isDigit]
        | some c => simp [isDigit, hrest c rfl]
      exact ⟨List.takeWhile_cons_of_neg hc, List.dropWhile_cons_of_neg hc⟩
  rw [digits, List.takeWhile_append_of_pos hall, List.dropWhile_append_of_pos hall, hfirst.1, hfirst.2, List.append_nil]
  simp [List.filterMap_map]

/-- Digits of a word are added up. -/
private theorem extend_of_lt {ds : List Char} {mantissa : Nat}
    (h : ds.foldl (fun n d => 10 * n + Text.digitValue d) mantissa < wordLimit) :
    extend mantissa ds = (ds.foldl (fun n d => 10 * n + Text.digitValue d) mantissa, 0) := by
  induction ds generalizing mantissa with
  | nil => rfl
  | cons d ds ih =>
    have hle : ∀ (ds : List Char) (n : Nat), n ≤ ds.foldl (fun n d => 10 * n + Text.digitValue d) n := by
      intro ds
      induction ds with
      | nil => exact fun n => Nat.le_refl n
      | cons d ds ih =>
        intro n
        have hmore := ih (10 * n + Text.digitValue d)
        rw [List.foldl_cons]
        omega
    rw [List.foldl_cons] at h ⊢
    have hlonger := Nat.lt_of_le_of_lt (hle ds _) h
    simp only [extend, if_pos hlonger, ih h]

private theorem isWhole_toDigits (n : Nat) : IsWhole (Nat.toDigits 10 n) := by
  refine ⟨⟨Nat.toDigits_ne_nil, fun c => Text.isDigit_of_mem_toDigits⟩, ?_⟩
  intro hzero
  rw [Text.head?_toDigits hzero]
  rfl

theorem isNumber_toDigits (n : Nat) : IsNumber (Nat.toDigits 10 n) :=
  ⟨[], Nat.toDigits 10 n, [], [], by simp, by simp, isWhole_toDigits n, .inl rfl, .inl rfl⟩

private theorem Stops.isDigit (h : Stops rest) (c : Char) (hc : rest.head? = some (some c)) :
    Text.isDigit c = false :=
  (h c hc).1

private theorem ne_sign {ds : List Char} (hds : IsDigits ds) {sign : Char} (hsign : Text.isDigit sign = false)
    (s tail : Source) : ds.map some ++ s ≠ some sign :: tail := by
  obtain ⟨hne, hall⟩ := hds
  obtain ⟨d, ds, rfl⟩ := List.exists_cons_of_ne_nil hne
  intro heq
  simp only [List.map_cons, List.cons_append, List.cons.injEq, Option.some.injEq] at heq
  have hd := hall d List.mem_cons_self
  rw [heq.1, hsign] at hd
  cases hd

/-- The digits of a word are read back as the word. -/
theorem number_toDigits {n : Nat} (hn : n < wordLimit) (hrest : Stops rest) :
    number ((Nat.toDigits 10 n).map some ++ rest) = .ok (.integer n, rest) := by
  obtain ⟨hdigits, hzero⟩ := isWhole_toDigits n
  have htaken := digits_append hdigits.2 hrest.isDigit
  have hleading : ¬((Nat.toDigits 10 n).head? = some '0' ∧ 1 < (Nat.toDigits 10 n).length) := by
    rintro ⟨hhead, hlength⟩
    rw [hzero hhead] at hlength
    omega
  have hvalue : (Nat.toDigits 10 n).foldl (fun n d => 10 * n + Text.digitValue d) 0 = n := Text.digitsValue_toDigits n
  have hextend : extend 0 (Nat.toDigits 10 n) = (n, 0) := by
    rw [extend_of_lt (by rwa [hvalue]), hvalue]
  unfold number
  split
  · next heq => exact absurd heq (ne_sign hdigits rfl _ _)
  · simp only [unsigned, htaken, if_neg hdigits.1, if_neg hleading, hextend]
    split
    · exact absurd rfl (hrest _ rfl).2.1
    · exact absurd rfl (hrest _ rfl).2.2.1
    · exact absurd rfl (hrest _ rfl).2.2.2
    · rfl

/-! ### Numbers that are passed over -/

private theorem skipExponent_append {cs : List Char} (h : IsExponent cs) (hrest : Stops rest) :
    skipExponent (cs.map some ++ rest) = .ok rest := by
  rcases h with rfl | ⟨letter, sign, ds, rfl, hletter, hsign, hds⟩
  · unfold skipExponent
    simp only [List.map_nil, List.nil_append]
    split
    · exact absurd rfl (hrest _ rfl).2.2.1
    · exact absurd rfl (hrest _ rfl).2.2.2
    · rfl
  · have htaken := digits_append hds.2 hrest.isDigit
    simp only [List.mem_cons, List.not_mem_nil, or_false] at hletter hsign
    rcases hsign with rfl | rfl | rfl
    · have hunsigned : skipExponent (some 'e' :: (ds.map some ++ rest)) = .ok rest := by
        unfold skipExponent
        simp only
        split
        · next heq => exact absurd heq (ne_sign hds rfl _ _)
        · next heq => exact absurd heq (ne_sign hds rfl _ _)
        · simp only [htaken, if_neg hds.1]
      rcases hletter with rfl | rfl
      · exact hunsigned
      · exact hunsigned
    · rcases hletter with rfl | rfl
      · simp [skipExponent, htaken, hds.1]
      · simp [skipExponent, htaken, hds.1]
    · rcases hletter with rfl | rfl
      · simp [skipExponent, htaken, hds.1]
      · simp [skipExponent, htaken, hds.1]

/-- No digit follows the whole number. -/
private theorem isDigit_behind {fraction exponent : List Char} (hfraction : IsFraction fraction)
    (hexponent : IsExponent exponent) (hrest : Stops rest) (c : Char)
    (hc : (fraction.map some ++ (exponent.map some ++ rest)).head? = some (some c)) : Text.isDigit c = false := by
  rcases hfraction with rfl | ⟨ds, rfl, -⟩
  · rcases hexponent with rfl | ⟨letter, sign, ds, rfl, hletter, -⟩
    · exact hrest.isDigit c hc
    · simp only [List.map_cons, List.cons_append, List.nil_append, List.map_nil, List.head?_cons,
        Option.some.injEq] at hc
      simp only [← hc, List.mem_cons, List.not_mem_nil, or_false] at hletter ⊢
      rcases hletter with rfl | rfl
      · rfl
      · rfl
  · simp only [List.map_cons, List.cons_append, List.head?_cons, Option.some.injEq] at hc
    rw [← hc]
    rfl

private theorem ne_point {exponent : List Char} (hexponent : IsExponent exponent) (hrest : Stops rest) (tail : Source) :
    exponent.map some ++ rest ≠ some '.' :: tail := by
  intro heq
  rcases hexponent with rfl | ⟨letter, sign, ds, rfl, hletter, -⟩
  · rw [List.map_nil, List.nil_append] at heq
    exact (hrest '.' (by rw [heq, List.head?_cons])).2.1 rfl
  · simp only [List.map_cons, List.cons_append, List.cons.injEq, Option.some.injEq] at heq
    rw [heq.1] at hletter
    exact absurd hletter (by decide)

private theorem skipUnsigned_append {whole fraction exponent : List Char} (hwhole : IsWhole whole)
    (hfraction : IsFraction fraction) (hexponent : IsExponent exponent) (hrest : Stops rest) :
    skipUnsigned (whole.map some ++ (fraction.map some ++ (exponent.map some ++ rest))) = .ok rest := by
  obtain ⟨hdigits, hzero⟩ := hwhole
  have htaken := digits_append hdigits.2 (isDigit_behind hfraction hexponent hrest)
  have hmalformed : ¬(whole = [] ∨ whole.head? = some '0' ∧ 1 < whole.length) := by
    rintro (hnil | ⟨hhead, hlength⟩)
    · exact hdigits.1 hnil
    · rw [hzero hhead] at hlength
      omega
  have hexponents := skipExponent_append hexponent hrest
  simp only [skipUnsigned, htaken, if_neg hmalformed]
  rcases hfraction with rfl | ⟨ds, rfl, hds⟩
  · simp only [List.map_nil, List.nil_append]
    split
    · next heq => exact absurd heq (ne_point hexponent hrest _)
    · exact hexponents
  · have hplaces := digits_append hds.2 (isDigit_behind (.inl rfl) hexponent hrest)
    simp only [List.map_nil, List.nil_append] at hplaces
    simp only [List.map_cons, List.cons_append, hplaces, if_neg hds.1, hexponents]

/-- Every number is passed over. -/
theorem skipNumber_of_isNumber {cs : List Char} (h : IsNumber cs) (hrest : Stops rest) :
    skipNumber (cs.map some ++ rest) = .ok rest := by
  obtain ⟨sign, whole, fraction, exponent, rfl, hsign, hwhole, hfraction, hexponent⟩ := h
  have hunsigned := skipUnsigned_append hwhole hfraction hexponent hrest
  simp only [List.mem_cons, List.not_mem_nil, or_false] at hsign
  simp only [List.map_append, List.append_assoc]
  rcases hsign with rfl | rfl
  · unfold skipNumber
    split
    · next heq => exact absurd heq (ne_sign hwhole.1 rfl _ _)
    · exact hunsigned
  · exact hunsigned

end ChunkedStorage.Json
