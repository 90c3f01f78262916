import ChunkedStorage.Http
import ChunkedStorage.Proofs.RangeHeaders

/-!
# Spans of range headers

The span that a `Range` header asks for holds every byte that the header names: those of the span that a request was
made for, or as many as it wants from the end of the file (`RangeRequest.resolveHeader_exact`).  The number of bytes of
a range and the start of an end are signed words, which bounds both.
-/

namespace ChunkedStorage

namespace RangeRequest

/-- The span of a file that a header value asks for. -/
def resolveHeader (header : String) (totalSize : Nat) : Except Failure Span :=
  (ofHeader header totalSize).bind fun request => request.resolve totalSize

/-! ### Requests -/

variable {start stop count totalSize : Nat}

theorem resolve_toEnd (start totalSize : Nat) :
    (⟨start, .toEnd⟩ : RangeRequest).resolve totalSize =
      if start < totalSize then .ok ⟨start, totalSize⟩
      else .error (.invalidRange start "to-end" totalSize) := by
  simp only [resolve, Int.toNat_natCast, if_neg (Int.not_lt.2 (Int.natCast_nonneg start))]
  split
  · next hbehind =>
    rw [if_neg (Nat.not_lt.2 hbehind)]
    rfl
  · next hinside => rw [if_pos (Nat.lt_of_not_le hinside)]

theorem resolve_bytes (hsum : start + count < wordLimit) (totalSize : Nat) :
    (⟨start, .bytes count⟩ : RangeRequest).resolve totalSize =
      if start < totalSize then .ok ⟨start, min (start + count) totalSize⟩
      else .error (.invalidRange start (toString count) totalSize) := by
  simp only [resolve, Int.toNat_natCast, if_neg (Int.not_lt.2 (Int.natCast_nonneg _)), saturatingAdd_of_lt hsum]
  split
  · next hbehind =>
    rw [if_neg (Nat.not_lt.2 hbehind)]
    rfl
  · next hinside => rw [if_pos (Nat.lt_of_not_le hinside)]

/-! ### Header values -/

private theorem toList_range (start stop : Nat) :
    s!"bytes={start}-{stop}".toList = "bytes=".toList ++ (Nat.toDigits 10 start ++ '-' :: Nat.toDigits 10 stop) := by
  simp [toString]

private theorem toList_suffix (count : Nat) :
    s!"bytes=-{count}".toList = "bytes=".toList ++ '-' :: Nat.toDigits 10 count := by
  simp [toString]

private theorem not_mem_toDigits {c : Char} (hc : Text.isDigit c = false) (n : Nat) : c ∉ Nat.toDigits 10 n := by
  intro hmem
  rw [Text.isDigit_of_mem_toDigits hmem] at hc
  cases hc

private theorem trims_toDigits (n : Nat) : Text.Trims (Nat.toDigits 10 n) (Nat.toDigits 10 n) :=
  Text.trims_self fun _ hc => Text.isBlank_of_isDigit (Text.isDigit_of_mem_toDigits hc)

/-- There are no blanks at the ends of a header value whose last part is a number. -/
private theorem trims_header (middle : List Char) (n : Nat) :
    let header := "bytes=".toList ++ (middle ++ Nat.toDigits 10 n)
    Text.Trims header header where
  parts := ⟨[], [], by simp⟩
  first c hc := by
    cases hc
    decide
  last c hc := by
    rw [← List.append_assoc, List.getLast?_append_of_ne_nil _ Nat.toDigits_ne_nil] at hc
    exact Text.isBlank_of_isDigit (Text.isDigit_of_mem_toDigits (List.mem_of_getLast? hc))

theorem ofHeader_range (hle : start ≤ stop) (hstop : stop < signedLimit) (totalSize : Nat) :
    ofHeader s!"bytes={start}-{stop}" totalSize =
      .ok ⟨start, .bytes (min (stop - start + 1) (signedLimit - 1) : Nat)⟩ := by
  have hcount : ((min (stop - start + 1) (signedLimit - 1) : Nat) : Int) =
      min ((stop : Int) - start + 1) (signedLimit - 1) := by
    have hlimit : 0 < signedLimit := by decide
    omega
  rw [ofHeader_eq_ok_iff, hcount]
  refine ⟨Nat.toDigits 10 start ++ '-' :: Nat.toDigits 10 stop, ?_, ?_⟩
  · have hwhole := trims_header (Nat.toDigits 10 start ++ ['-']) stop
    rw [List.append_assoc, List.singleton_append] at hwhole
    rwa [toList_range]
  · have hcomma : ',' ∉ Nat.toDigits 10 start ++ '-' :: Nat.toDigits 10 stop := by
      simp [not_mem_toDigits (c := ',') (by decide)]
    refine .sides hcomma (not_mem_toDigits (by decide) start) (trims_toDigits start) (trims_toDigits stop) ?_
    exact .between (.plain (Text.digits_toDigits start)) (.unsigned (.plain (Text.digits_toDigits stop)))
      (Int.ofNat_le.2 hle) (Int.ofNat_lt.2 hstop)

theorem ofHeader_suffix (hcount : count < wordLimit) (totalSize : Nat) :
    ofHeader s!"bytes=-{count}" totalSize =
      if totalSize - count < signedLimit then .ok ⟨(totalSize - count : Nat), .toEnd⟩
      else .error (.rangeHeader s!"bytes=-{count}") := by
  have htrim : Text.Trims s!"bytes=-{count}".toList ("bytes=".toList ++ '-' :: Nat.toDigits 10 count) := by
    rw [toList_suffix]
    exact trims_header ['-'] count
  have hcomma : ',' ∉ '-' :: Nat.toDigits 10 count := by
    simp [not_mem_toDigits (c := ',') (by decide)]
  have hsplit : splitDash ('-' :: Nat.toDigits 10 count) = some ([], Nat.toDigits 10 count) :=
    splitDash_eq_some_iff.2 ⟨rfl, List.not_mem_nil⟩
  have hnone : Text.trim [] = [] := rfl
  have hspec : ofSpec? ('-' :: Nat.toDigits 10 count) totalSize =
      if totalSize - count < signedLimit then some ⟨(totalSize - count : Nat), .toEnd⟩ else none := by
    rw [ofSpec?_eq, if_neg hcomma, hsplit, Option.bind_some, hnone, Text.trim_eq_iff.2 (trims_toDigits count)]
    simp [ofSides?, Text.natural?_toDigits hcount]
  rw [ofHeader_of_spec htrim, hspec]
  by_cases hstart : totalSize - count < signedLimit
  · rw [if_pos hstart, if_pos hstart]
  · rw [if_neg hstart, if_neg hstart]

/-! ### Spans -/

/-- The range from `start` to `stop`, both included, whose number of bytes stops at the largest signed word. -/
theorem resolveHeader_range (hle : start ≤ stop) (hstop : stop < signedLimit) (totalSize : Nat) :
    resolveHeader s!"bytes={start}-{stop}" totalSize =
      if start < totalSize then .ok ⟨start, min (start + min (stop - start + 1) (signedLimit - 1)) totalSize⟩
      else .error (.invalidRange start (toString (min (stop - start + 1) (signedLimit - 1))) totalSize) := by
  have hlimit : signedLimit < wordLimit := by decide
  rw [resolveHeader, ofHeader_range hle hstop]
  exact resolve_bytes (by omega) totalSize

theorem resolveHeader_suffix (hcount : count < wordLimit) (hstart : totalSize - count < signedLimit) :
    resolveHeader s!"bytes=-{count}" totalSize =
      if totalSize - count < totalSize then .ok ⟨totalSize - count, totalSize⟩
      else .error (.invalidRange (totalSize - count : Nat) "to-end" totalSize) := by
  rw [resolveHeader, ofHeader_suffix hcount, if_pos hstart]
  exact resolve_toEnd _ totalSize

end RangeRequest

/-- A request for a span states one range. -/
theorem HttpClient.request_range (client : HttpClient) (location : AccessLocation) (start stop : Nat) :
    (client.request location ⟨start, stop + 1⟩).headers.filter (·.1 = "range") =
      [("range", s!"bytes={start}-{stop}")] := by
  simp [request, Header.set, List.filter_filter]

namespace RangeRequest

/-- The header of a request for a span asks for that span, as far as the file reaches, and a number of bytes at the end
of a file for as many bytes as there are.  Left out is the range of the bytes at all signed words, where the file has
one at each of them; an end that starts behind the signed words is refused. -/
theorem resolveHeader_exact (totalSize : Nat) :
    (∀ start stop : Nat, start ≤ stop → stop < signedLimit →
      ¬(start = 0 ∧ stop = signedLimit - 1 ∧ signedLimit ≤ totalSize) →
      (∀ (client : HttpClient) (location : AccessLocation),
        (client.request location ⟨start, stop + 1⟩).headers.filter (·.1 = "range") =
          [("range", s!"bytes={start}-{stop}")]) ∧
      (start < totalSize →
        resolveHeader s!"bytes={start}-{stop}" totalSize = .ok ⟨start, min (stop + 1) totalSize⟩) ∧
      (totalSize ≤ start → ∃ length,
        resolveHeader s!"bytes={start}-{stop}" totalSize = .error (.invalidRange start length totalSize))) ∧
    (∀ count, count < wordLimit → totalSize - count < signedLimit →
      (0 < count → 0 < totalSize →
        resolveHeader s!"bytes=-{count}" totalSize = .ok ⟨totalSize - min count totalSize, totalSize⟩) ∧
      (count = 0 ∨ totalSize = 0 → ∃ length,
        resolveHeader s!"bytes=-{count}" totalSize = .error (.invalidRange totalSize length totalSize))) ∧
    (∀ count, count < wordLimit → signedLimit ≤ totalSize - count →
      resolveHeader s!"bytes=-{count}" totalSize = .error (.rangeHeader s!"bytes=-{count}")) := by
  refine ⟨fun start stop hle hstop hslip => ?_, fun count hcount hstart => ⟨fun hsome hfile => ?_, fun hnone => ?_⟩,
    fun count hcount hstart => ?_⟩
  · refine ⟨fun client location => client.request_range location start stop, fun hinside => ?_, fun hbehind => ?_⟩
    -- the number of bytes is cut off only for the range that is left out, or where the file is shorter
    · have hend : min (start + min (stop - start + 1) (signedLimit - 1)) totalSize = min (stop + 1) totalSize := by
        omega
      rw [resolveHeader_range hle hstop, if_pos hinside, hend]
    · rw [resolveHeader_range hle hstop, if_neg (Nat.not_lt.2 hbehind)]
      exact ⟨_, rfl⟩
  · have hlast : totalSize - count = totalSize - min count totalSize := by omega
    rw [resolveHeader_suffix hcount hstart, if_pos (by omega), hlast]
  · have hall : totalSize - count = totalSize := by omega
    rw [resolveHeader_suffix hcount hstart, if_neg (by omega), hall]
    exact ⟨_, rfl⟩
  · rw [resolveHeader, ofHeader_suffix hcount, if_neg (Nat.not_lt.2 hstart)]
    rfl

/-- The last byte is read at the largest signed word, and the first end that starts behind it is refused. -/
theorem resolveHeader_exact_limits :
    let totalSize := signedLimit + 5
    resolveHeader s!"bytes={1}-{signedLimit - 1}" totalSize = .ok ⟨1, signedLimit⟩ ∧
      resolveHeader s!"bytes=-{6}" totalSize = .ok ⟨signedLimit - 1, totalSize⟩ ∧
      resolveHeader s!"bytes=-{5}" totalSize = .error (.rangeHeader "bytes=-5") := by
  intro totalSize
  obtain ⟨hranges, hends, hrefused⟩ := resolveHeader_exact totalSize
  obtain ⟨-, hinside, -⟩ := hranges 1 (signedLimit - 1) (by decide) (by decide) (by simp)
  exact ⟨hinside (by decide), (hends 6 (by decide) (by decide)).1 (by decide) (by decide),
    hrefused 5 (by decide) (by decide)⟩

/-- The range of the bytes at all signed words loses the last one, and the last byte of the largest file is refused. -/
theorem resolveHeader_not_exact :
    (resolveHeader "bytes=0-9223372036854775807" 9223372036854775808 = .ok ⟨0, 9223372036854775807⟩ ∧
      (⟨0, 9223372036854775807⟩ : Span) ≠ ⟨0, min (9223372036854775807 + 1) 9223372036854775808⟩) ∧
    resolveHeader "bytes=-1" 18446744073709551615 = .error (.rangeHeader "bytes=-1") := by
  have hlimit : 9223372036854775807 < signedLimit := by decide
  have hrange := resolveHeader_range (Nat.zero_le _) hlimit 9223372036854775808
  have hone : 1 < wordLimit := by decide
  have hsuffix := ofHeader_suffix hone 18446744073709551615
  refine ⟨⟨hrange, by decide⟩, ?_⟩
  rw [resolveHeader, show "bytes=-1" = s!"bytes=-{1}" from rfl, hsuffix]
  rfl

end RangeRequest

end ChunkedStorage
