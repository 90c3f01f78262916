import ChunkedStorage.Duration.Text
import ChunkedStorage.Proofs.Sizes
import Mathlib.Algebra.Order.BigOperators.Group.List
import Mathlib.Tactic.Ring

/-!
# Durations that are read back

The text of a duration is a sum of numbers with units.  Such a sum is read term by term (`addTerms?_intercalate`), and
each term adds its nanoseconds (`addUnits?_eq`), so the duration is read back from its text (`Duration.parse?_render`).
-/

namespace ChunkedStorage.Duration

/-! ### Terms of sums -/

/-- A number of units, with the name that the unit is written by. -/
structure Term where
  count : Nat
  name : String
  unit : Unit

namespace Term

def text (t : Term) : List Char := Nat.toDigits 10 t.count ++ t.name.toList

def nanos (t : Term) : Nat := t.count * t.unit.nanos

end Term

/-- The unit is written by the name, no part of which belongs to a number. -/
structure IsName (name : String) (unit : Unit) : Prop where
  isUnit : Unit.ofName? name = some unit
  nonempty : name.toList ≠ []
  letters : ∀ c ∈ name.toList, isUnitChar c = true ∧ isNumberChar c = false ∧ c ≠ '.'

variable {d d' : Duration} {t : Term} {ts : List Term}

private theorem word?_of_lt {n : Nat} (h : n < wordLimit) : word? n = some n := if_pos h

private theorem whole_seconds (u : Unit) (hu : ¬(u.nanos < perSecond)) :
    u.nanos / perSecond * perSecond = u.nanos := by
  revert hu
  cases u <;> decide

/-- A term adds its nanoseconds, unless there are a second or more of a unit that is shorter. -/
theorem addUnits?_eq (hlength : t.nanos < perSecond ∨ perSecond ≤ t.unit.nanos)
    (hsum : d.nanos + t.nanos ≤ longest.nanos) : d.addUnits? t.count t.unit = some ⟨d.nanos + t.nanos⟩ := by
  have hlongest : longest.nanos + 1 = wordLimit * 1000000000 := rfl
  have hlimit : 2 * 1000000000 ≤ wordLimit := by decide
  have hdiv : d.seconds * 1000000000 + d.subseconds = d.nanos := Nat.div_add_mod' _ _
  have hsubseconds : d.subseconds < 1000000000 := Nat.mod_lt _ (by decide)
  have hsecond : perSecond = 1000000000 := rfl
  unfold addUnits?
  split
  · next hunit =>
    have hterm : t.count * t.unit.nanos = t.nanos := rfl
    have hshort : t.nanos < 1000000000 := by omega
    have hseconds : d.seconds + (d.subseconds + t.nanos) / perSecond < wordLimit := by
      rw [hsecond]
      omega
    rw [hterm, word?_of_lt (by omega), Option.bind_eq_bind, Option.bind_some, word?_of_lt (by omega), Option.bind_some,
      word?_of_lt hseconds, Option.bind_some, ofParts, hsecond]
    simp only [Option.some.injEq, mk.injEq, Nat.mul_comm _ 1000000000] at hdiv ⊢
    omega
  · next hunit =>
    have hwhole := whole_seconds t.unit hunit
    have hterm : t.count * (t.unit.nanos / perSecond) * 1000000000 = t.nanos := by
      rw [← hsecond, Nat.mul_assoc, hwhole]
      rfl
    rw [word?_of_lt (by omega), Option.bind_eq_bind, Option.bind_some, word?_of_lt (by omega), Option.bind_some,
      ofParts]
    simp only [Option.some.injEq, mk.injEq, hsecond, Nat.mul_comm _ 1000000000] at hdiv hterm ⊢
    omega

private theorem addTerms?_skip (fuel : Nat) (d : Duration) (s : List Char) :
    addTerms? fuel d (' ' :: s) = addTerms? fuel d s := by
  cases fuel with
  | zero => rw [addTerms?, addTerms?]
  | succ fuel =>
    rw [addTerms?, addTerms?, List.dropWhile_cons_of_pos (by decide)]

/-- The first term of a sum is read. -/
private theorem addTerms?_text (ht : IsName t.name t.unit) (hword : t.count < wordLimit) (fuel : Nat) (d : Duration)
    {behind : List Char} (hbehind : ∀ c, behind.head? = some c → isUnitChar c = false) :
    addTerms? (fuel + 1) d (t.text ++ behind) =
      (d.addUnits? t.count t.unit).bind fun d => addTerms?.next? fuel d behind := by
  obtain ⟨c, ds, hds⟩ := List.exists_cons_of_ne_nil (Nat.toDigits_ne_nil : Nat.toDigits 10 t.count ≠ [])
  obtain ⟨x, xs, hxs⟩ := List.exists_cons_of_ne_nil ht.nonempty
  have hdigits : ∀ c ∈ Nat.toDigits 10 t.count, Text.isDigit c = true := fun c => Text.isDigit_of_mem_toDigits
  have hnumber : ∀ c ∈ Nat.toDigits 10 t.count, isNumberChar c = true := by
    intro c hc
    simp [isNumberChar, hdigits c hc]
  have hc : Text.isDigit c = true := hdigits c (hds ▸ List.mem_cons_self)
  have hx := ht.letters x (hxs ▸ List.mem_cons_self)
  have htext : t.text ++ behind = Nat.toDigits 10 t.count ++ (t.name.toList ++ behind) := List.append_assoc ..
  have hname : ∀ c, (t.name.toList ++ behind).head? = some c → isNumberChar c = false := by
    rw [hxs]
    rintro c ⟨⟩
    exact hx.2.1
  have hletters : ∀ c ∈ t.name.toList, isUnitChar c = true := fun c hc => (ht.letters c hc).1
  obtain ⟨hcount, hbehindCount⟩ := Text.span_append hnumber hname
  obtain ⟨hunit, hbehindUnit⟩ := Text.span_append hletters hbehind
  have hvalue : Text.digitsValue (digitsOf (Nat.toDigits 10 t.count)) = t.count := by
    rw [digitsOf, List.filter_eq_self.2 hdigits, Text.digitsValue_toDigits]
  rw [hds, List.cons_append] at htext hcount hbehindCount
  rw [addTerms?, htext, List.dropWhile_cons_of_neg (by simp [Text.isBlank_of_isDigit hc])]
  simp only [hc, hcount, hbehindCount, ← hds, hvalue, word?_of_lt hword, Bool.true_eq_false, if_false,
    Option.bind_eq_bind, Option.bind_some]
  split
  · next heq =>
    rw [hxs, List.cons_append, List.cons.injEq] at heq
    exact absurd heq.1 hx.2.2
  · simp only [hunit, hbehindUnit, String.ofList_toList, ht.isUnit, Option.bind_some]

/-- A sum is read term by term. -/
theorem addTerms?_intercalate (hts : ∀ t ∈ ts, IsName t.name t.unit ∧ t.count < wordLimit) (hne : ts ≠ []) {fuel : Nat}
    (hfuel : ts.length ≤ fuel) :
    addTerms? fuel d ([' '].intercalate (ts.map Term.text)) = ts.foldlM (fun d t => d.addUnits? t.count t.unit) d := by
  induction ts generalizing d fuel with
  | nil => exact absurd rfl hne
  | cons t ts ih =>
    obtain ⟨ht, hword⟩ := hts t List.mem_cons_self
    obtain ⟨fuel, rfl⟩ := Nat.exists_eq_succ_of_ne_zero (Nat.ne_zero_of_lt hfuel)
    rw [List.map_cons, List.foldlM_cons]
    cases ts with
    | nil =>
      have hend : ∀ c, ([] : List Char).head? = some c → isUnitChar c = false := by simp
      rw [List.map_nil, List.intercalate_singleton, ← List.append_nil t.text, addTerms?_text ht hword fuel d hend]
      refine congrArg _ (funext fun d => ?_)
      rw [addTerms?.next?]
      rfl
    | cons u ts =>
      have hspace (s : List Char) : ∀ c, (' ' :: s).head? = some c → isUnitChar c = false := by
        rintro c ⟨⟩
        decide
      have hmore (d : Duration) := @ih d (fun t ht => hts t (List.mem_cons_of_mem _ ht)) (by simp) fuel
        (Nat.le_of_succ_le_succ hfuel)
      rw [List.map_cons, List.intercalate_cons_cons, ← List.map_cons, List.append_assoc, List.cons_append,
        List.nil_append, addTerms?_text ht hword fuel d (hspace _)]
      refine congrArg _ (funext fun d => ?_)
      rw [← hmore d, ← addTerms?_skip, addTerms?.next?]
      exact if_pos rfl

/-- A sum of terms that are long enough is the sum of their nanoseconds. -/
theorem foldlM_addUnits? (hts : ∀ t ∈ ts, t.nanos < perSecond ∨ perSecond ≤ t.unit.nanos)
    (hsum : d.nanos + (ts.map Term.nanos).sum ≤ longest.nanos) :
    ts.foldlM (fun d t => d.addUnits? t.count t.unit) d = some ⟨d.nanos + (ts.map Term.nanos).sum⟩ := by
  induction ts generalizing d with
  | nil => rfl
  | cons t ts ih =>
    rw [List.map_cons, List.sum_cons] at hsum ⊢
    have hfirst := addUnits?_eq (hts t List.mem_cons_self) (by omega : d.nanos + t.nanos ≤ longest.nanos)
    rw [← Nat.add_assoc] at hsum ⊢
    rw [List.foldlM_cons, hfirst]
    exact ih (fun t ht => hts t (List.mem_cons_of_mem _ ht)) hsum

theorem Term.nanos_le_sum (ht : t ∈ ts) : t.nanos ≤ (ts.map Term.nanos).sum :=
  List.le_sum_of_mem (List.mem_map_of_mem ht)

private theorem length_le_intercalate (ts : List Term) : ts.length ≤ ([' '].intercalate (ts.map Term.text)).length := by
  induction ts with
  | nil => exact Nat.zero_le _
  | cons t ts ih =>
    have hpositive : 0 < t.text.length := by
      have hdigits : 0 < (Nat.toDigits 10 t.count).length := Nat.length_toDigits_pos
      rw [Term.text, List.length_append]
      omega
    cases ts with
    | nil =>
      rw [List.map_cons, List.map_nil, List.intercalate_singleton]
      exact hpositive
    | cons u ts =>
      rw [List.map_cons, List.map_cons, List.intercalate_cons_cons, ← List.map_cons, List.length_append,
        List.length_append, List.length_cons]
      omega

private theorem mem_intercalate_of_mem {c : Char} (ts : List Term) (hc : c ∈ t.text) :
    c ∈ [' '].intercalate ((t :: ts).map Term.text) := by
  cases ts with
  | nil => simpa using hc
  | cons u ts =>
    rw [List.map_cons, List.map_cons, List.intercalate_cons_cons, List.append_assoc]
    exact List.mem_append_left _ hc

/-- A term of a duration that can be counted has a word as its count. -/
theorem Term.count_lt (hlength : t.nanos < perSecond ∨ perSecond ≤ t.unit.nanos) (hsum : t.nanos ≤ longest.nanos) :
    t.count < wordLimit := by
  have hlongest : longest.nanos + 1 = wordLimit * perSecond := rfl
  rcases hlength with hshort | hlong
  · have hpositive : 0 < t.unit.nanos := by cases t.unit <;> decide
    calc
      t.count ≤ t.nanos := Nat.le_mul_of_pos_right _ hpositive
      _ < perSecond := hshort
      _ ≤ wordLimit := by decide
  · have hnanos : t.count * perSecond ≤ t.nanos := Nat.mul_le_mul_left _ hlong
    exact Nat.lt_of_mul_lt_mul_right (Nat.lt_of_le_of_lt hnanos (by omega))

/-- A sum is read as the duration that its terms add up to. -/
theorem parse?_intercalate (hne : ts ≠ []) (hnamed : ∀ t ∈ ts, IsName t.name t.unit)
    (hlength : ∀ t ∈ ts, t.nanos < perSecond ∨ perSecond ≤ t.unit.nanos)
    (hsum : (ts.map Term.nanos).sum ≤ longest.nanos) {text : String}
    (htext : text.toList = [' '].intercalate (ts.map Term.text)) :
    parse? text = some ⟨(ts.map Term.nanos).sum⟩ := by
  have hts : ∀ t ∈ ts, IsName t.name t.unit ∧ t.count < wordLimit := fun t ht =>
    ⟨hnamed t ht, Term.count_lt (hlength t ht) (Nat.le_trans (Term.nanos_le_sum ht) hsum)⟩
  have hfuel : ts.length ≤ text.toList.length + 1 := by
    have hshort := length_le_intercalate ts
    rw [htext]
    omega
  have hread := @addTerms?_intercalate ⟨0⟩ ts hts hne _ hfuel
  rw [← htext, foldlM_addUnits? hlength (by rwa [Nat.zero_add]), Nat.zero_add] at hread
  obtain ⟨t, ts, rfl⟩ := List.exists_cons_of_ne_nil hne
  obtain ⟨hname, -⟩ := hts t List.mem_cons_self
  have hmem : ∀ c ∈ t.text, c ∈ text.toList := fun c hc => htext ▸ mem_intercalate_of_mem ts hc
  -- The number starts with no blank, and the name is no zero.
  obtain ⟨c, cs, hcs⟩ := List.exists_cons_of_ne_nil (Nat.toDigits_ne_nil : Nat.toDigits 10 t.count ≠ [])
  obtain ⟨x, xs, hxs⟩ := List.exists_cons_of_ne_nil hname.nonempty
  have hdigit : Text.isDigit c = true := Text.isDigit_of_mem_toDigits (hcs ▸ List.mem_cons_self)
  have hletter := hname.letters x (hxs ▸ List.mem_cons_self)
  have hzero : text.toList ≠ ['0'] := by
    intro heq
    have hx := hmem x (List.mem_append_right _ (hxs ▸ List.mem_cons_self))
    rw [heq, List.mem_singleton] at hx
    rw [hx] at hletter
    exact absurd hletter.2.1 (by decide)
  have hblank : ¬(text.toList.all Text.isBlank = true) := by
    intro hall
    have hc := List.all_eq_true.1 hall c (hmem c (List.mem_append_left _ (hcs ▸ List.mem_cons_self)))
    rw [Text.isBlank_of_isDigit hdigit] at hc
    cases hc
  rw [parse?]
  simp only [if_neg hzero, if_neg hblank, hread]

/-! ### The terms of a duration -/

/-- The terms that a duration is written with, and those that are left out because they are zero. -/
def terms (d : Duration) : List Term :=
  let named (count : Nat) (name : String) (unit : Unit) : Term := ⟨count, if 1 < count then name ++ "s" else name, unit⟩
  let inYear := d.seconds % 31557600
  let inMonth := inYear % 2630016
  let inDay := inMonth % 86400
  [ named (d.seconds / 31557600) "year" .year, named (inYear / 2630016) "month" .month,
    named (inMonth / 86400) "day" .day, ⟨inDay / 3600, "h", .hour⟩, ⟨inDay % 3600 / 60, "m", .minute⟩,
    ⟨inDay % 60, "s", .second⟩, ⟨d.subseconds / 1000000, "ms", .millisecond⟩,
    ⟨d.subseconds / 1000 % 1000, "us", .microsecond⟩, ⟨d.subseconds % 1000, "ns", .nanosecond⟩ ]

/-- The terms of a duration add up to it. -/
theorem sum_terms (d : Duration) : (d.terms.map Term.nanos).sum = d.nanos := by
  have hdiv : 1000000000 * d.seconds + d.subseconds = d.nanos := Nat.div_add_mod _ _
  have hterm (count : Nat) (name : String) (unit : Unit) : Term.nanos ⟨count, name, unit⟩ = unit.nanos * count :=
    Nat.mul_comm _ _
  simp only [terms, hterm, Unit.nanos, List.map_cons, List.map_nil, List.sum_cons, List.sum_nil]
  generalize hyear : d.seconds / 31557600 = years
  generalize hmonth : d.seconds % 31557600 / 2630016 = months
  generalize hday : d.seconds % 31557600 % 2630016 / 86400 = days
  generalize hhour : d.seconds % 31557600 % 2630016 % 86400 / 3600 = hours
  generalize hminute : d.seconds % 31557600 % 2630016 % 86400 % 3600 / 60 = minutes
  generalize hsecond : d.seconds % 31557600 % 2630016 % 86400 % 60 = seconds
  generalize hmilli : d.subseconds / 1000000 = millis
  generalize hmicro : d.subseconds / 1000 % 1000 = micros
  generalize hnano : d.subseconds % 1000 = nanos
  have hseconds : 31557600 * years + 2630016 * months + 86400 * days + 3600 * hours + 60 * minutes + seconds =
      d.seconds := by
    omega
  have hsubseconds : 1000000 * millis + 1000 * micros + nanos = d.subseconds := by
    omega
  rw [← hdiv, ← hseconds, ← hsubseconds]
  ring

private theorem isName_terms (d : Duration) : ∀ t ∈ d.terms, IsName t.name t.unit := by
  intro t ht
  simp only [terms, List.mem_cons, List.not_mem_nil, or_false] at ht
  rcases ht with rfl | rfl | rfl | rfl | rfl | rfl | rfl | rfl | rfl <;> dsimp only
  case inl | inr.inl | inr.inr.inl =>
    split <;> exact ⟨by decide, by decide, by simp [isUnitChar, isNumberChar, Text.isDigit, Text.isBlank]⟩
  all_goals exact ⟨by decide, by decide, by simp [isUnitChar, isNumberChar, Text.isDigit, Text.isBlank]⟩

private theorem length_terms (d : Duration) : ∀ t ∈ d.terms, t.nanos < perSecond ∨ perSecond ≤ t.unit.nanos := by
  have hsubseconds : d.subseconds < 1000000000 := Nat.mod_lt _ (by decide)
  intro t ht
  simp only [terms, List.mem_cons, List.not_mem_nil, or_false] at ht
  rcases ht with rfl | rfl | rfl | rfl | rfl | rfl | rfl | rfl | rfl
  case inr.inr.inr.inr.inr.inr.inl | inr.inr.inr.inr.inr.inr.inr.inl | inr.inr.inr.inr.inr.inr.inr.inr =>
    refine .inl ?_
    simp only [Term.nanos, Unit.nanos, perSecond]
    omega
  all_goals exact .inr (by simp only [Unit.nanos]; decide)

/-- A part of a duration, unless it is zero. -/
private def Term.part? (t : Term) : Option String := if t.count = 0 then none else some (toString t.count ++ t.name)

private theorem wordItem_eq (n : Nat) (name : String) (unit : Unit) :
    wordItem n name = Term.part? ⟨n, if 1 < n then name ++ "s" else name, unit⟩ := by
  unfold wordItem Term.part?
  split
  · rfl
  · split
    · exact congrArg some (String.append_assoc ..)
    · rfl

private theorem parts_eq (d : Duration) : d.parts = d.terms.filterMap Term.part? := by
  have hparts : d.parts = (d.terms.map Term.part?).filterMap id := by
    unfold parts terms
    simp only [List.map_cons, List.map_nil]
    rw [wordItem_eq _ _ .year, wordItem_eq _ _ .month, wordItem_eq _ _ .day]
    rfl
  rw [hparts, List.filterMap_map]
  rfl

/-- The parts of a duration are its terms that are not zero. -/
private theorem map_parts (d : Duration) :
    d.parts.map String.toList = (d.terms.filter (·.count ≠ 0)).map Term.text := by
  rw [parts_eq]
  induction d.terms with
  | nil => rfl
  | cons t ts ih =>
    by_cases ht : t.count = 0
    · simp [Term.part?, ht, ih]
    · simp [Term.part?, ht, ih, Term.text]

private theorem sum_filter (ts : List Term) :
    ((ts.filter (·.count ≠ 0)).map Term.nanos).sum = (ts.map Term.nanos).sum := by
  induction ts with
  | nil => rfl
  | cons t ts ih =>
    by_cases ht : t.count = 0
    · rw [List.filter_cons_of_neg (by simp [ht]), ih, List.map_cons, List.sum_cons, Term.nanos, ht, Nat.zero_mul,
        Nat.zero_add]
    · rw [List.filter_cons_of_pos (by simp [ht]), List.map_cons, List.map_cons, List.sum_cons, List.sum_cons, ih]

/-- A duration is read back from its text. -/
theorem parse?_render (hd : d.nanos ≤ longest.nanos) : parse? d.render = some d := by
  have hmem : ∀ t ∈ d.terms.filter (·.count ≠ 0), t ∈ d.terms := fun t ht => (List.mem_filter.1 ht).1
  have hnanos : ((d.terms.filter (·.count ≠ 0)).map Term.nanos).sum = d.nanos := (sum_filter _).trans (sum_terms d)
  by_cases hzero : d.nanos = 0
  · have hterm : Term.nanos ⟨0, "s", .second⟩ = 0 := Nat.zero_mul _
    have hsum : ([⟨0, "s", .second⟩].map Term.nanos).sum = d.nanos := by
      rw [hzero, List.map_cons, hterm]
      rfl
    have hname : ∀ t ∈ [(⟨0, "s", .second⟩ : Term)], IsName t.name t.unit := by
      simpa using ⟨by decide, by decide, by simp [isUnitChar, isNumberChar, Text.isDigit, Text.isBlank]⟩
    have hlength : ∀ t ∈ [(⟨0, "s", .second⟩ : Term)], t.nanos < perSecond ∨ perSecond ≤ t.unit.nanos := by
      simp [hterm, perSecond]
    rw [render, if_pos hzero, parse?_intercalate (List.cons_ne_nil _ _) hname hlength (hsum.symm ▸ hd) rfl, hsum]
  · have hne : d.terms.filter (·.count ≠ 0) ≠ [] := by
      intro hnil
      rw [hnil] at hnanos
      exact hzero hnanos.symm
    have htext : d.render.toList = [' '].intercalate ((d.terms.filter (·.count ≠ 0)).map Term.text) := by
      rw [render, if_neg hzero, String.toList_intercalate, map_parts]
      rfl
    rw [parse?_intercalate hne (fun t ht => isName_terms d t (hmem t ht)) (fun t ht => length_terms d t (hmem t ht))
      (hnanos.symm ▸ hd) htext, hnanos]

end ChunkedStorage.Duration
