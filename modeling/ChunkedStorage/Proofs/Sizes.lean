import ChunkedStorage.Proofs.Blanks
import ChunkedStorage.Size
import Mathlib.Data.List.Count

/-!
# Texts of sizes

Every text falls apart into a number and the name of a unit (`Size.Parts`), which decide what it is read as or why it is
refused (`Size.parse_classifies`).  A whole number of units is read exactly, in whatever case the unit is written and
wherever blanks stand (`Size.whole_units`), and the text of a size is such a number (`Size.parse_render`).
-/

namespace ChunkedStorage

/-! ### Units -/

namespace SizeUnit

variable {name : String} {u : SizeUnit}

/-- The names of a unit in uppercase letters. -/
def names : SizeUnit → List String
  | byte => ["", "B"]
  | kibi => ["K", "KB", "KIB"]
  | mebi => ["M", "MB", "MIB"]
  | gibi => ["G", "GB", "GIB"]
  | tebi => ["T", "TB", "TIB"]

/-- The letters of the names. -/
def letters : List Char := ['B', 'G', 'I', 'K', 'M', 'T']

theorem ofName?_eq_some_iff : ofName? name = some u ↔ name ∈ u.names := by
  unfold ofName?
  split
  all_goals cases u <;> simp_all [names]

theorem ofName?_eq_none_iff : ofName? name = none ↔ ∀ u : SizeUnit, name ∉ u.names := by
  rw [Option.eq_none_iff_forall_ne_some]
  exact forall_congr' fun u => not_congr ofName?_eq_some_iff

theorem subset_letters (h : name ∈ u.names) : name.toList ⊆ letters := by
  cases u
  all_goals simp only [names, List.mem_cons, List.not_mem_nil, or_false] at h
  all_goals rcases h with rfl | rfl | rfl <;> decide

theorem bytes_pos (u : SizeUnit) : 0 < u.bytes := Nat.pow_pos (by decide)

end SizeUnit

namespace Size

/-! ### Characters -/

variable {c : Char}

theorem isNumberChar_of_isBlank (hc : Text.isBlank c = true) : isNumberChar c = false := by
  have hpoint : c ≠ '.' := by
    rintro rfl
    exact absurd hc (by decide)
  simp [isNumberChar, Text.isDigit_of_isBlank hc, hpoint]

private theorem toUpper_eq_self (hc : ¬ (97 ≤ c.toNat ∧ c.toNat ≤ 122)) : c.toUpper = c := by
  have hlower : ¬ ('a'.val ≤ c.val ∧ c.val ≤ 'z'.val) := by
    simpa [UInt32.le_iff_toNat_le] using hc
  exact dif_neg hlower

/-- The letters of a unit belong neither to a number nor to the blanks around it. -/
theorem plain_of_letter (hc : c.toUpper ∈ SizeUnit.letters) : isNumberChar c = false ∧ Text.isBlank c = false := by
  by_cases hlower : 97 ≤ c.toNat ∧ c.toNat ≤ 122
  · constructor
    · have hdigit : Text.isDigit c = false := by
        rw [Bool.eq_false_iff, Ne, Text.isDigit_iff]
        omega
      have hpoint : c ≠ '.' := by
        rintro rfl
        exact absurd hlower (by decide)
      simp [isNumberChar, hdigit, hpoint]
    · simp [Text.isBlank]
      omega
  · rw [toUpper_eq_self hlower] at hc
    have hall : SizeUnit.letters.all (fun c => !isNumberChar c && !Text.isBlank c) = true := by decide
    simpa using List.all_eq_true.1 hall c hc

theorem upper_mem_letters {name : List Char} {u : SizeUnit} (h : String.ofList (upper name) ∈ u.names) :
    ∀ c ∈ name, c.toUpper ∈ SizeUnit.letters := by
  intro c hc
  have hupper := SizeUnit.subset_letters h
  rw [String.toList_ofList] at hupper
  exact hupper (List.mem_map_of_mem hc)

/-! ### Numbers -/

variable {number : List Char} {u : SizeUnit} {n : Nat}

/-- The digits of a number with a point, and those behind the point, are the number without its first point. -/
private theorem takeWhile_append_drop_eq_erase (number : List Char) :
    number.takeWhile (· ≠ '.') ++ (number.dropWhile (· ≠ '.')).drop 1 = number.erase '.' := by
  induction number with
  | nil => rfl
  | cons c rest ih =>
    by_cases hpoint : c = '.'
    · subst hpoint
      simp
    · rw [List.takeWhile_cons_of_pos (by simpa using hpoint), List.dropWhile_cons_of_pos (by simpa using hpoint),
        List.cons_append, ih, List.erase_cons_tail (by simpa using hpoint)]

theorem fraction?_eq_none_iff (hnumber : ∀ c ∈ number, isNumberChar c = true) :
    fraction? number = none ↔ (∀ c ∈ number, Text.isDigit c = false) ∨ 1 < number.count '.' := by
  have hchar : ∀ c ∈ number, Text.isDigit c = true ∨ c = '.' := by simpa [isNumberChar] using hnumber
  have hcount : (number.erase '.').count '.' = number.count '.' - 1 := List.count_erase_self
  rw [fraction?, takeWhile_append_drop_eq_erase, Option.map_eq_none_iff, Text.digits?, ite_eq_right_iff]
  simp only [reduceCtorEq, imp_false, not_and, List.all_eq_true]
  constructor
  · intro hnone
    rw [or_iff_not_imp_right, Nat.not_lt]
    intro hone c hc
    -- a digit would be left without the first point
    rw [Bool.eq_false_iff]
    intro hdigit
    have hleft : c ∈ number.erase '.' := by
      refine (List.mem_erase_of_ne ?_).2 hc
      rintro rfl
      exact absurd hdigit (by decide)
    refine hnone (List.ne_nil_of_mem hleft) fun c' hc' => ?_
    rcases hchar c' (List.mem_of_mem_erase hc') with hdigit' | rfl
    · exact hdigit'
    · have := List.count_pos_iff.2 hc'
      omega
  · rintro (hnone | hmore) hne hall
    · obtain ⟨c, hc⟩ := List.exists_mem_of_ne_nil _ hne
      have hdigit := hall c hc
      rw [hnone c (List.mem_of_mem_erase hc)] at hdigit
      cases hdigit
    · have hpoint : '.' ∈ number.erase '.' := List.count_pos_iff.1 (by omega)
      exact absurd (hall '.' hpoint) (by decide)

theorem bytesOf?_of_natural? (h : Text.natural? number = some n) : bytesOf? number u = some (n * u.bytes) := by
  rw [bytesOf?, h]

theorem bytesOf?_of_not_natural? (h : Text.natural? number = none) (u : SizeUnit) :
    bytesOf? number u = (fraction? number).map fun (digits, places) => fractionBytes digits places u := by
  rw [bytesOf?, h]

/-- What is no number of units has no digit, or more than one point. -/
theorem bytesOf?_eq_none_iff (hnumber : ∀ c ∈ number, isNumberChar c = true) :
    bytesOf? number u = none ↔ (∀ c ∈ number, Text.isDigit c = false) ∨ 1 < number.count '.' := by
  cases hnatural : Text.natural? number with
  | none => rw [bytesOf?_of_not_natural? hnatural, Option.map_eq_none_iff, fraction?_eq_none_iff hnumber]
  | some n =>
    have hplus : ∀ rest, number ≠ '+' :: rest := by
      rintro rest rfl
      exact absurd (hnumber '+' List.mem_cons_self) (by decide)
    obtain ⟨hunsigned, -⟩ := Text.natural?_iff.1 hnatural
    have hdigits := (Text.unsigned_iff hplus).1 hunsigned
    rw [bytesOf?_of_natural? hnatural]
    refine iff_of_false nofun ?_
    rintro (hnone | hmore)
    · obtain ⟨c, hc⟩ := List.exists_mem_of_ne_nil _ hdigits.nonempty
      have hdigit := hdigits.isDigit hc
      rw [hnone c hc] at hdigit
      cases hdigit
    · have hpoint := List.count_pos_iff.1 (Nat.zero_lt_of_lt hmore)
      exact absurd (hdigits.isDigit hpoint) (by decide)

/-! ### Texts -/

/-- A text without the blanks around it falls apart into a number, the longest row of digits and points at its start,
and the name of a unit between blanks; its letters do not differ in case. -/
structure Parts (text : String) (trimmed number : List Char) (unit : String) : Prop where
  trims : Text.Trims text.toList trimmed
  isNumber : ∀ c ∈ number, isNumberChar c = true
  behind : ∃ rest name, trimmed = number ++ rest ∧ (∀ c, rest.head? = some c → isNumberChar c = false) ∧
    Text.Trims rest name ∧ unit = String.ofList (upper name)

variable {text unit : String} {trimmed : List Char}

theorem parts_iff : Parts text trimmed number unit ↔ trimmed = Text.trim text.toList ∧
    number = trimmed.takeWhile isNumberChar ∧
    unit = String.ofList (upper (Text.trim (trimmed.dropWhile isNumberChar))) := by
  constructor
  · rintro ⟨htrims, hnumber, rest, name, rfl, hend, hname, rfl⟩
    obtain ⟨htake, hdrop⟩ := Text.span_append hnumber hend
    rw [htake, hdrop, Text.trim_eq_iff.2 hname, Text.trim_eq_iff.2 htrims]
    exact ⟨rfl, rfl, rfl⟩
  · rintro ⟨rfl, rfl, rfl⟩
    refine ⟨Text.trims_trim _, fun c => List.mem_takeWhile_imp, _, _, List.takeWhile_append_dropWhile.symm, ?_,
      Text.trims_trim _, rfl⟩
    intro c hc
    have hstop := List.head?_dropWhile_not isNumberChar (Text.trim text.toList)
    rw [hc] at hstop
    simpa using hstop

theorem Parts.parse_empty (h : Parts text [] number unit) : parse text = .error .empty := by
  obtain ⟨htrimmed, -, -⟩ := parts_iff.1 h
  rw [parse, if_pos htrimmed.symm]

theorem Parts.parse_of_unknown (h : Parts text trimmed number unit) (hne : trimmed ≠ [])
    (hunit : SizeUnit.ofName? unit = none) : parse text = .error (.unknownUnit unit) := by
  obtain ⟨rfl, rfl, rfl⟩ := parts_iff.1 h
  simp only [parse, if_neg hne, hunit]

theorem Parts.parse_of_no_number (h : Parts text trimmed number unit) (hne : trimmed ≠ [])
    (hunit : SizeUnit.ofName? unit = some u) (hbytes : bytesOf? number u = none) :
    parse text = .error (.invalidNumber (String.ofList trimmed)) := by
  obtain ⟨rfl, rfl, rfl⟩ := parts_iff.1 h
  simp only [parse, if_neg hne, hunit, hbytes]

theorem Parts.parse_of_bytes {bytes : Nat} (h : Parts text trimmed number unit) (hne : trimmed ≠ [])
    (hunit : SizeUnit.ofName? unit = some u) (hbytes : bytesOf? number u = some bytes) :
    parse text = if bytes < wordLimit then .ok bytes else .error (.overflow (String.ofList trimmed)) := by
  obtain ⟨rfl, rfl, rfl⟩ := parts_iff.1 h
  simp only [parse, if_neg hne, hunit, hbytes]

/-- What is read has a unit and a number with a digit, and the words of both bring no character but their own. -/
theorem Parts.of_parse_ok {bytes : Nat} (h : Parts text trimmed number unit) (hok : parse text = .ok bytes) :
    (∃ u : SizeUnit, unit ∈ u.names) ∧ (∃ c ∈ number, Text.isDigit c = true) ∧ number.count '.' ≤ 1 ∧
      ∀ c ∈ text.toList, Text.isBlank c = true ∨ isNumberChar c = true ∨ c.toUpper ∈ SizeUnit.letters := by
  have hne : trimmed ≠ [] := by
    rintro rfl
    cases h.parse_empty.symm.trans hok
  cases hunit : SizeUnit.ofName? unit with
  | none => cases (h.parse_of_unknown hne hunit).symm.trans hok
  | some u =>
    have hname := SizeUnit.ofName?_eq_some_iff.1 hunit
    have hbytes : ¬ bytesOf? number u = none := by
      intro hnone
      cases (h.parse_of_no_number hne hunit hnone).symm.trans hok
    rw [bytesOf?_eq_none_iff h.isNumber, not_or, Nat.not_lt] at hbytes
    refine ⟨⟨u, hname⟩, by simpa using hbytes.1, hbytes.2, ?_⟩
    obtain ⟨⟨⟨before, behind, htext, hbefore, hbehind⟩, -, -⟩, hnumber, rest, name, rfl, -, hrest, rfl⟩ := h
    obtain ⟨⟨before', behind', rfl, hbefore', hbehind'⟩, -, -⟩ := hrest
    intro c hc
    simp only [htext, List.mem_append] at hc
    rcases hc with hc | (hc | hc | hc | hc) | hc
    · exact .inl (hbefore c hc)
    · exact .inr (.inl (hnumber c hc))
    · exact .inl (hbefore' c hc)
    · exact .inr (.inr (upper_mem_letters hname c hc))
    · exact .inl (hbehind' c hc)
    · exact .inl (hbehind c hc)

/-- Every text falls apart in one way, and is refused for the first of its faults: it is empty, its unit has no known
name, or its number has no digit or several points.  A whole number that is a word is multiplied with its unit exactly,
and refused only if the product is no word.  So nothing is read that holds a sign, an exponent, or the name of a number
that is infinite or none. -/
theorem parse_classifies (text : String) :
    (∃ trimmed number unit, Parts text trimmed number unit) ∧
    ∀ {trimmed number : List Char} {unit : String}, Parts text trimmed number unit →
      (trimmed = [] → parse text = .error .empty) ∧
      (trimmed ≠ [] → (∀ u : SizeUnit, unit ∉ u.names) → parse text = .error (.unknownUnit unit)) ∧
      (∀ u : SizeUnit, trimmed ≠ [] → unit ∈ u.names →
        ((∀ c ∈ number, Text.isDigit c = false) ∨ 1 < number.count '.' →
          parse text = .error (.invalidNumber (String.ofList trimmed))) ∧
        ((∃ c ∈ number, Text.isDigit c = true) → number.count '.' ≤ 1 →
          (∃ bytes, parse text = .ok bytes) ∨ parse text = .error (.overflow (String.ofList trimmed))) ∧
        ∀ n, Text.Digits number n → n < wordLimit →
          parse text = if n * u.bytes < wordLimit then .ok (n * u.bytes)
            else .error (.overflow (String.ofList trimmed))) ∧
      ∀ bytes, parse text = .ok bytes →
        (∃ u : SizeUnit, unit ∈ u.names) ∧ (∃ c ∈ number, Text.isDigit c = true) ∧ number.count '.' ≤ 1 ∧
          ∀ c ∈ text.toList, Text.isBlank c = true ∨ isNumberChar c = true ∨ c.toUpper ∈ SizeUnit.letters := by
  refine ⟨⟨_, _, _, parts_iff.2 ⟨rfl, rfl, rfl⟩⟩, ?_⟩
  intro trimmed number unit h
  refine ⟨?_, ?_, ?_, fun _ => h.of_parse_ok⟩
  · rintro rfl
    exact h.parse_empty
  · intro hne hunit
    exact h.parse_of_unknown hne (SizeUnit.ofName?_eq_none_iff.2 hunit)
  · intro u hne hname
    have hunit := SizeUnit.ofName?_eq_some_iff.2 hname
    refine ⟨?_, ?_, ?_⟩
    · intro hnone
      exact h.parse_of_no_number hne hunit ((bytesOf?_eq_none_iff h.isNumber).2 hnone)
    · rintro ⟨c, hc, hdigit⟩ hone
      have hsome : bytesOf? number u ≠ none := by
        rw [Ne, bytesOf?_eq_none_iff h.isNumber, not_or, Nat.not_lt]
        exact ⟨fun hnone => absurd hdigit (by simp [hnone c hc]), hone⟩
      obtain ⟨bytes, hbytes⟩ := Option.ne_none_iff_exists'.1 hsome
      rw [h.parse_of_bytes hne hunit hbytes]
      split
      · exact .inl ⟨bytes, rfl⟩
      · exact .inr rfl
    · intro n hdigits hword
      exact h.parse_of_bytes hne hunit (bytesOf?_of_natural? (Text.natural?_iff.2 ⟨.plain hdigits, hword⟩))

/-- A number of 54 bits behind a zero is not rounded. -/
theorem parse_classifies_exact :
    Parts " 018014398509481983 kIb" "018014398509481983 kIb".toList "018014398509481983".toList "KIB" ∧
      Text.Digits "018014398509481983".toList 18014398509481983 ∧
      parse " 018014398509481983 kIb" = .ok 18446744073709550592 := by
  have hparts : Parts " 018014398509481983 kIb" "018014398509481983 kIb".toList "018014398509481983".toList "KIB" :=
    parts_iff.2 ⟨by decide, by decide, by decide⟩
  have hdigits : Text.Digits "018014398509481983".toList 18014398509481983 := Text.digits?_iff.1 (by decide)
  obtain ⟨-, -, hunit, -⟩ := (parse_classifies " 018014398509481983 kIb").2 hparts
  obtain ⟨-, -, hwhole⟩ := hunit .kibi (by decide) (by decide)
  exact ⟨hparts, hdigits, hwhole 18014398509481983 hdigits (by decide)⟩

/-! ### Whole numbers of units -/

/-- A text that is read as a whole number of units: the number is a word without a point, and so is its product with the
unit. -/
inductive Whole (text : String) : Nat → Prop where
  | parts {trimmed number : List Char} {unit : String} {u : SizeUnit} {n : Nat}
      (hparts : Parts text trimmed number unit) (hunit : unit ∈ u.names) (hnumber : Text.natural? number = some n)
      (hword : n * u.bytes < wordLimit) : Whole text (n * u.bytes)

theorem Whole.parse_eq (h : Whole text n) : parse text = .ok n := by
  cases h with
  | @parts trimmed number unit u n hparts hunit hnumber hword =>
    have hne : trimmed ≠ [] := by
      obtain ⟨-, -, rest, name, rfl, -⟩ := hparts
      rintro hnil
      rw [(List.append_eq_nil_iff.1 hnil).1] at hnumber
      cases hnumber
    rw [hparts.parse_of_bytes hne (SizeUnit.ofName?_eq_some_iff.2 hunit) (bytesOf?_of_natural? hnumber), if_pos hword]

/-- The name of a unit may be written in any case, and blanks may stand around it and around the whole. -/
theorem whole_units {before between name behind : String} (hname : String.ofList (upper name.toList) ∈ u.names)
    (hne : name ≠ "") (hn : n * u.bytes < wordLimit) (hbefore : ∀ c ∈ before.toList, Text.isBlank c = true)
    (hbetween : ∀ c ∈ between.toList, Text.isBlank c = true) (hbehind : ∀ c ∈ behind.toList, Text.isBlank c = true) :
    Whole (before ++ toString n ++ between ++ name ++ behind) (n * u.bytes) := by
  have hword : n < wordLimit := Nat.lt_of_le_of_lt (Nat.le_mul_of_pos_right n u.bytes_pos) hn
  have hdigits : ∀ c ∈ Nat.toDigits 10 n, Text.isDigit c = true := fun c => Text.isDigit_of_mem_toDigits
  have hplain : ∀ c ∈ name.toList, isNumberChar c = false ∧ Text.isBlank c = false := fun c hc =>
    plain_of_letter (upper_mem_letters hname c hc)
  have hsome : name.toList ≠ [] := by simpa using hne
  refine .parts ⟨⟨⟨before.toList, behind.toList, ?_, hbefore, hbehind⟩, ?_, ?_⟩, ?_, between.toList ++ name.toList,
    name.toList, rfl, ?_, ⟨⟨between.toList, [], ?_, hbetween, ?_⟩, ?_, ?_⟩, rfl⟩ hname (Text.natural?_toDigits hword) hn
  · simp
  · intro c hc
    rw [List.head?_append_of_ne_nil _ Nat.toDigits_ne_nil] at hc
    exact Text.isBlank_of_isDigit (hdigits c (List.mem_of_head? hc))
  · intro c hc
    rw [← List.append_assoc, List.getLast?_append_of_ne_nil _ hsome] at hc
    exact (hplain c (List.mem_of_getLast? hc)).2
  · intro c hc
    simp [isNumberChar, hdigits c hc]
  · intro c hc
    rcases List.mem_append.1 (List.mem_of_head? hc) with hc | hc
    · exact isNumberChar_of_isBlank (hbetween c hc)
    · exact (hplain c hc).1
  · rw [List.append_nil]
  · exact fun c hc => absurd hc List.not_mem_nil
  · exact fun c hc => (hplain c (List.mem_of_head? hc)).2
  · exact fun c hc => (hplain c (List.mem_of_getLast? hc)).2

/-! ### Texts of sizes -/

/-- The displayed unit divides the size. -/
theorem unitOf_dvd (n : Nat) : (unitOf n).bytes ∣ n := by
  fun_cases unitOf n with
  | case1 => exact Nat.one_dvd n
  | case2 _ hn | case3 _ _ hn | case4 _ _ _ hn | case5 _ _ _ _ hn => exact Nat.dvd_of_mod_eq_zero hn
  | case6 => exact Nat.one_dvd n

/-- No larger unit divides it. -/
theorem bytes_le_unitOf (hn : n ≠ 0) (hdvd : u.bytes ∣ n) : u.bytes ≤ (unitOf n).bytes := by
  have hmod := Nat.mod_eq_zero_of_dvd hdvd
  fun_cases unitOf n with
  | case1 hzero => exact absurd hzero hn
  | case2 => cases u <;> decide
  | case3 | case4 | case5 | case6 => cases u <;> first | decide | contradiction

theorem render_eq (n : Nat) : render n = toString (n / (unitOf n).bytes) ++ (unitOf n).name := rfl

theorem name_mem_names (u : SizeUnit) : String.ofList (upper u.name.toList) ∈ u.names := by
  cases u <;> decide

/-- The text of a size is a whole number of units. -/
theorem whole_render {n : Nat} (hn : n < wordLimit) : Whole (render n) n := by
  have hwhole : n / (unitOf n).bytes * (unitOf n).bytes = n := Nat.div_mul_cancel (unitOf_dvd n)
  have hnone : ∀ c ∈ ("" : String).toList, Text.isBlank c = true := by simp
  have hname : (unitOf n).name ≠ "" := by cases unitOf n <;> decide
  have hunits := whole_units (name_mem_names (unitOf n)) hname (hwhole.symm ▸ hn) hnone hnone hnone
  rw [hwhole] at hunits
  simpa [render_eq] using hunits

/-- A size is read back from its text. -/
theorem parse_render {n : Nat} (hn : n < wordLimit) : parse (render n) = .ok n := (whole_render hn).parse_eq

end Size

end ChunkedStorage
