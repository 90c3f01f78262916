import ChunkedStorage.Range
import ChunkedStorage.Proofs.Blanks

/-!
# Range headers

The values of a `Range` header that make a request, and the requests they make (`RangeRequest.ofHeader_grammar`).  The
grammar is told level by level, as the text is read: the value without blanks around it, its part behind `bytes=`, and
the two sides of the first dash.
-/

namespace ChunkedStorage.RangeRequest

/-! ### The grammar -/

/-- What the two sides of a dash ask for, without blanks around them. -/
inductive Asks (totalSize : Nat) : (first last : List Char) → RangeRequest → Prop
  /-- The last bytes of the file, or all of them if there are no more. -/
  | suffix {last : List Char} {count : Nat} (hlast : Text.Unsigned last count) (hcount : count < wordLimit)
      (hstart : totalSize - count < signedLimit) : Asks totalSize [] last ⟨(totalSize - count : Nat), .toEnd⟩
  | onwards {first : List Char} {start : Nat} (hfirst : Text.Unsigned first start) (hstart : start < signedLimit) :
      Asks totalSize first [] ⟨start, .toEnd⟩
  /-- Both ends of a range, of which the second one belongs to it. -/
  | between {first last : List Char} {start : Nat} {stop : Int} (hfirst : Text.Unsigned first start)
      (hlast : Text.Signed last stop) (hle : start ≤ stop) (hstop : stop < signedLimit) :
      Asks totalSize first last ⟨start, .bytes (min (stop - start + 1) (signedLimit - 1))⟩

/-- What a text with a dash asks for; blanks may stand around each side of its first dash. -/
inductive IsSpec (totalSize : Nat) : List Char → RangeRequest → Prop
  | sides {before first behind last : List Char} {request : RangeRequest} (hcomma : ',' ∉ before ++ '-' :: behind)
      (hdash : '-' ∉ before) (hfirst : Text.Trims before first) (hlast : Text.Trims behind last)
      (hasks : Asks totalSize first last request) : IsSpec totalSize (before ++ '-' :: behind) request

/-- The request that a header value makes. -/
def IsHeader (header : String) (totalSize : Nat) (request : RangeRequest) : Prop :=
  ∃ spec, Text.Trims header.toList ("bytes=".toList ++ spec) ∧ IsSpec totalSize spec request

/-! ### Sides of a dash -/

theorem splitDash_eq_some_iff {s before behind : List Char} :
    splitDash s = some (before, behind) ↔ s = before ++ '-' :: behind ∧ '-' ∉ before := by
  constructor
  · intro h
    unfold splitDash at h
    split at h
    · cases h
    · next dash rest hdrop =>
      cases h
      have hsplit := List.takeWhile_append_dropWhile (p := (· ≠ '-')) (l := s)
      have hhead := List.head?_dropWhile_not (· ≠ '-') s
      rw [hdrop] at hsplit hhead
      obtain rfl : dash = '-' := by simpa using hhead
      refine ⟨hsplit.symm, fun hmem => ?_⟩
      simpa using List.mem_takeWhile_imp hmem
  · rintro ⟨rfl, hdash⟩
    have hwanted : ∀ c ∈ before, decide (c ≠ '-') = true := by
      intro c hc
      have hne : c ≠ '-' := fun heq => hdash (heq ▸ hc)
      exact decide_eq_true hne
    have hstop : ∀ c, ('-' :: behind).head? = some c → decide (c ≠ '-') = false := by simp
    obtain ⟨htake, hdrop⟩ := Text.span_append hwanted hstop
    rw [splitDash, hdrop, htake]

/-- The request that the two sides of the dash make, without blanks around them. -/
def ofSides? (first last : List Char) (totalSize : Nat) : Option RangeRequest := do
  if first = [] then
    let count ← Text.natural? last
    let start := totalSize - count
    if start < signedLimit then some ⟨start, .toEnd⟩ else none
  else
    let start ← Text.integer? first
    if last = [] then
      some ⟨start, .toEnd⟩
    else
      let stop ← Text.integer? last
      if start ≤ stop then some ⟨start, .bytes (min (stop - start + 1) (signedLimit - 1))⟩ else none

theorem ofSpec?_eq (spec : List Char) (totalSize : Nat) :
    ofSpec? spec totalSize =
      if ',' ∈ spec then none
      else (splitDash spec).bind fun sides => ofSides? (Text.trim sides.1) (Text.trim sides.2) totalSize := by
  unfold ofSpec?
  split
  · rfl
  · rfl

/-- Without a dash in the first side, its number is not negative. -/
theorem integer?_eq_some_iff_of_dash {first : List Char} (hdash : '-' ∉ first) {i : Int} :
    Text.integer? first = some i ↔ ∃ start : Nat, Text.Unsigned first start ∧ start < signedLimit ∧ i = start := by
  have hsign : ∀ rest, first ≠ '-' :: rest := by
    rintro rest rfl
    exact hdash List.mem_cons_self
  rw [Text.integer?_iff, Text.signed_iff hsign]
  constructor
  · rintro ⟨⟨start, hfirst, rfl⟩, -, hlimit⟩
    exact ⟨start, hfirst, by omega, rfl⟩
  · rintro ⟨start, hfirst, hlimit, rfl⟩
    exact ⟨⟨start, hfirst, rfl⟩, by omega, by omega⟩

theorem not_unsigned_nil {n : Nat} : ¬Text.Unsigned [] n := by
  intro h
  cases h with
  | plain h => exact h.nonempty rfl

theorem ofSides?_eq_some_iff {first last : List Char} (hdash : '-' ∉ first) {totalSize : Nat}
    {request : RangeRequest} : ofSides? first last totalSize = some request ↔ Asks totalSize first last request := by
  constructor
  · intro h
    unfold ofSides? at h
    split at h
    · next hempty =>
      subst hempty
      obtain ⟨count, hcount, h⟩ := Option.bind_eq_some_iff.1 h
      obtain ⟨hlast, hword⟩ := Text.natural?_iff.1 hcount
      simp only [Option.ite_none_right_eq_some, Option.some.injEq] at h
      obtain ⟨hstart, rfl⟩ := h
      exact .suffix hlast hword hstart
    · obtain ⟨i, hi, hrest⟩ := Option.bind_eq_some_iff.1 h
      obtain ⟨start, hfirst, hstart, rfl⟩ := (integer?_eq_some_iff_of_dash hdash).1 hi
      split at hrest
      · next hempty =>
        cases hrest
        rw [hempty]
        exact .onwards hfirst hstart
      · obtain ⟨stop, hstop, hrange⟩ := Option.bind_eq_some_iff.1 hrest
        obtain ⟨hlast, -, hlimit⟩ := Text.integer?_iff.1 hstop
        simp only [Option.ite_none_right_eq_some, Option.some.injEq] at hrange
        obtain ⟨hle, rfl⟩ := hrange
        exact .between hfirst hlast hle hlimit
  · intro h
    cases h with
    | suffix hlast hcount hstart =>
      simp [ofSides?, Text.natural?_iff.2 ⟨hlast, hcount⟩, hstart]
    | @onwards _ start hfirst hstart =>
      have hne : first ≠ [] := fun hempty => not_unsigned_nil (hempty ▸ hfirst)
      have hread : Text.integer? first = some (start : Int) :=
        (integer?_eq_some_iff_of_dash hdash).2 ⟨start, hfirst, hstart, rfl⟩
      simp [ofSides?, hne, hread]
    | @between _ _ start stop hfirst hlast hle hstop =>
      have hne : first ≠ [] := fun hempty => not_unsigned_nil (hempty ▸ hfirst)
      have hread : Text.integer? first = some (start : Int) :=
        (integer?_eq_some_iff_of_dash hdash).2 ⟨start, hfirst, by omega, rfl⟩
      have hreadlast : Text.integer? last = some stop := Text.integer?_iff.2 ⟨hlast, by omega, hstop⟩
      have hnelast : last ≠ [] := by
        rintro rfl
        cases hreadlast
      simp [ofSides?, hne, hnelast, hread, hreadlast, hle]

/-! ### Header values -/

theorem ofSpec?_eq_some_iff {spec : List Char} {totalSize : Nat} {request : RangeRequest} :
    ofSpec? spec totalSize = some request ↔ IsSpec totalSize spec request := by
  rw [ofSpec?_eq]
  constructor
  · intro h
    split at h
    · cases h
    · next hcomma =>
      obtain ⟨⟨before, behind⟩, hsplit, hsides⟩ := Option.bind_eq_some_iff.1 h
      obtain ⟨rfl, hdash⟩ := splitDash_eq_some_iff.1 hsplit
      have hfirst := Text.trims_trim before
      have hlast := Text.trims_trim behind
      have hasks := (ofSides?_eq_some_iff fun hmem => hdash (hfirst.subset hmem)).1 hsides
      exact .sides hcomma hdash hfirst hlast hasks
  · rintro ⟨hcomma, hdash, hfirst, hlast, hasks⟩
    have hsides := (ofSides?_eq_some_iff fun hmem => hdash (hfirst.subset hmem)).2 hasks
    rw [if_neg hcomma, splitDash_eq_some_iff.2 ⟨rfl, hdash⟩, Option.bind_some, Text.trim_eq_iff.2 hfirst,
      Text.trim_eq_iff.2 hlast, hsides]

theorem ofHeader_of_spec {header : String} {spec : List Char}
    (htrim : Text.Trims header.toList ("bytes=".toList ++ spec)) (totalSize : Nat) :
    ofHeader header totalSize =
      match ofSpec? spec totalSize with
      | some request => .ok request
      | none => .error (.rangeHeader header) := by
  rw [ofHeader, Text.trim_eq_iff.2 htrim]
  rfl

theorem ofHeader_of_not_spec {header : String}
    (hnone : ∀ spec, ¬Text.Trims header.toList ("bytes=".toList ++ spec)) (totalSize : Nat) :
    ofHeader header totalSize = .error (.rangeHeader header) := by
  unfold ofHeader
  split
  · next spec htrim => exact absurd (Text.trim_eq_iff.1 htrim) (hnone spec)
  · rfl

theorem ofHeader_eq_ok_iff {header : String} {totalSize : Nat} {request : RangeRequest} :
    ofHeader header totalSize = .ok request ↔ IsHeader header totalSize request := by
  by_cases hspec : ∃ spec, Text.Trims header.toList ("bytes=".toList ++ spec)
  · obtain ⟨spec, htrim⟩ := hspec
    rw [ofHeader_of_spec htrim]
    have hread : IsHeader header totalSize request ↔ ofSpec? spec totalSize = some request := by
      rw [ofSpec?_eq_some_iff]
      constructor
      · rintro ⟨spec', htrim', hrequest⟩
        have hsame := (Text.trim_eq_iff.2 htrim').symm.trans (Text.trim_eq_iff.2 htrim)
        rwa [← List.append_cancel_left hsame]
      · exact fun hrequest => ⟨spec, htrim, hrequest⟩
    rw [hread]
    cases ofSpec? spec totalSize <;> simp
  · have hnone : ∀ spec, ¬Text.Trims header.toList ("bytes=".toList ++ spec) := fun spec h => hspec ⟨spec, h⟩
    rw [ofHeader_of_not_spec hnone]
    exact iff_of_false nofun fun ⟨spec, htrim, _⟩ => hnone spec htrim

/-- A header value is refused with its own text. -/
theorem ofHeader_error {header : String} {totalSize : Nat} {failure : Failure}
    (h : ofHeader header totalSize = .error failure) : failure = .rangeHeader header := by
  unfold ofHeader at h
  split at h
  · split at h
    · cases h
    · cases h
      rfl
  · cases h
    rfl

/-! ### Differences that may overflow -/

/-- The difference of two signed words, if it is one. -/
def difference? (a b : Int) : Option Int :=
  if -(signedLimit : Int) ≤ a - b ∧ a - b < signedLimit then some (a - b) else none

/-- Reads the two sides of a dash, unless the difference of two signed words is none. -/
def checkedSides (first last : List Char) (totalSize : Nat) : Option (Option RangeRequest) :=
  if first = [] then
    match Text.natural? last with
    | none => some none
    | some count =>
      let start := totalSize - count
      some (if start < signedLimit then some ⟨start, .toEnd⟩ else none)
  else
    match Text.integer? first with
    | none => some none
    | some start =>
      if last = [] then
        some (some ⟨start, .toEnd⟩)
      else
        match Text.integer? last with
        | none => some none
        | some stop =>
          if start ≤ stop then
            (difference? stop start).map fun count => some ⟨start, .bytes (min (count + 1) (signedLimit - 1))⟩
          else some none

/-- Reads a header value, unless the difference of two signed words is none. -/
def checkedHeader (header : String) (totalSize : Nat) : Option (Except Failure RangeRequest) :=
  let refused := Except.error (.rangeHeader header)
  match Text.trim header.toList with
  | 'b' :: 'y' :: 't' :: 'e' :: 's' :: '=' :: spec =>
    if ',' ∈ spec then some refused
    else
      match splitDash spec with
      | none => some refused
      | some (first, last) =>
        (checkedSides (Text.trim first) (Text.trim last) totalSize).map fun
          | some request => .ok request
          | none => refused
  | _ => some refused

/-- No difference is taken of a range that is reversed or starts below zero. -/
theorem checkedSides_eq {first : List Char} (hdash : '-' ∉ first) (last : List Char) (totalSize : Nat) :
    checkedSides first last totalSize = some (ofSides? first last totalSize) := by
  unfold checkedSides ofSides?
  split
  · cases Text.natural? last <;> rfl
  · cases hfirst : Text.integer? first with
    | none => rfl
    | some i =>
      obtain ⟨start, -, -, rfl⟩ := (integer?_eq_some_iff_of_dash hdash).1 hfirst
      dsimp only [bind, Option.bind_some]
      split
      · rfl
      · cases hlast : Text.integer? last with
        | none => rfl
        | some stop =>
          obtain ⟨-, hlow, hhigh⟩ := Text.integer?_iff.1 hlast
          dsimp only [bind, Option.bind_some]
          split
          -- the range is in order and starts at zero or behind it, so its length is at most its end
          · have hdifference : difference? stop start = some (stop - start) := if_pos (by omega)
            rw [hdifference]
            rfl
          · rfl

theorem checkedHeader_eq (header : String) (totalSize : Nat) :
    checkedHeader header totalSize = some (ofHeader header totalSize) := by
  unfold checkedHeader
  split
  · next spec htrim =>
    rw [ofHeader_of_spec (Text.trim_eq_iff.1 htrim), ofSpec?_eq]
    dsimp only
    split
    · rfl
    · cases hsplit : splitDash spec with
      | none => rfl
      | some sides =>
        obtain ⟨-, hdash⟩ := splitDash_eq_some_iff.1 hsplit
        have htrims := Text.trims_trim sides.1
        dsimp only
        rw [checkedSides_eq fun hmem => hdash (htrims.subset hmem), Option.bind_some]
        cases ofSides? (Text.trim sides.1) (Text.trim sides.2) totalSize <;> rfl
  · next hnone => rw [ofHeader_of_not_spec fun spec htrim => hnone spec (Text.trim_eq_iff.2 htrim)]

/-- The header values that make a request are those of the grammar, and every other one is refused with its text.  No
difference of signed words overflows. -/
theorem ofHeader_grammar (header : String) (totalSize : Nat) :
    (∀ request, ofHeader header totalSize = .ok request ↔ IsHeader header totalSize request) ∧
    (∀ failure, ofHeader header totalSize = .error failure ↔
      failure = .rangeHeader header ∧ ¬∃ request, IsHeader header totalSize request) ∧
    checkedHeader header totalSize = some (ofHeader header totalSize) := by
  refine ⟨fun _ => ofHeader_eq_ok_iff, fun failure => ?_, checkedHeader_eq header totalSize⟩
  simp only [← ofHeader_eq_ok_iff]
  cases h : ofHeader header totalSize with
  | ok request => simp
  | error failure' =>
    obtain rfl := ofHeader_error h
    simp [eq_comm]

end ChunkedStorage.RangeRequest
