import Mathlib.Algebra.GroupWithZero.Nat
import ChunkedStorage.ChunkedObject

/-!
# Tilings

Spans that meet and cover an interval.  A listing that passes its check tiles the file (`verify_tiles`), and the slices
of a range tile the range (`slicesFrom_tiles`), so that the place of each slice follows from the lengths of those before
it (`Tiles.start_eq`).
-/

namespace ChunkedStorage

/-! ### Cuts -/

namespace Span

theorem cut_append {a b c : Nat} (hab : a ≤ b) (hbc : b ≤ c) (content : Bytes) :
    (⟨a, b⟩ : Span).cut content ++ (⟨b, c⟩ : Span).cut content = (⟨a, c⟩ : Span).cut content := by
  have hdrop : content.drop b = (content.drop a).drop (b - a) := by
    rw [List.drop_drop, Nat.add_sub_cancel' hab]
  have hlength : c - a = (b - a) + (c - b) := by omega
  simp only [cut, length]
  rw [hdrop, hlength, List.take_add]

theorem cut_cut {inner outer : Span} (h : inner.stop ≤ outer.length) (content : Bytes) :
    inner.cut (outer.cut content) =
      (⟨outer.start + inner.start, outer.start + inner.stop⟩ : Span).cut content := by
  simp only [cut, length] at h ⊢
  rw [List.drop_take, List.take_take, List.drop_drop]
  congr 1
  omega

theorem cut_of_length_eq_zero {s : Span} (h : s.length = 0) (content : Bytes) : s.cut content = [] := by
  simp [cut, h]

theorem length_cut_of_stop_le {s : Span} {content : Bytes} (h : s.stop ≤ content.length) :
    (s.cut content).length = s.length := by
  rw [length_cut]
  unfold length
  omega

/-- The front of a cut is the cut of the front. -/
theorem eq_cut_of_append {a b : Nat} {content piece rest : Bytes} (hab : a ≤ b)
    (h : (⟨a, b⟩ : Span).cut content = piece ++ rest) :
    piece = (⟨a, a + piece.length⟩ : Span).cut content ∧ rest = (⟨a + piece.length, b⟩ : Span).cut content := by
  have hlen : piece.length ≤ b - a := by
    have := congrArg List.length h
    simp only [length_cut, length, List.length_append] at this
    omega
  have hcuts := cut_append (Nat.le_add_right a piece.length) (show a + piece.length ≤ b by omega) content
  have htake : piece = ((content.drop a).take (b - a)).take piece.length := by
    have : (content.drop a).take (b - a) = piece ++ rest := h
    rw [this, List.take_left]
  have hpiece : piece = (⟨a, a + piece.length⟩ : Span).cut content := by
    rw [List.take_take, Nat.min_eq_left hlen] at htake
    simpa [cut, length] using htake
  refine ⟨hpiece, ?_⟩
  rw [h, ← hpiece] at hcuts
  exact (List.append_cancel_left hcuts).symm

end Span

/-! ### Spans that cover an interval -/

/-- Whether spans meet and together hold the offsets from `lo` up to, and without, `hi`. -/
def Tiles : (lo : Nat) → List Span → (hi : Nat) → Prop
  | lo, [], hi => lo = hi
  | lo, s :: rest, hi => s.start = lo ∧ s.start ≤ s.stop ∧ Tiles s.stop rest hi

namespace Tiles

theorem add_sum {lo hi : Nat} {spans : List Span} (h : Tiles lo spans hi) :
    lo + (spans.map Span.length).sum = hi := by
  induction spans generalizing lo with
  | nil => simpa [Tiles] using h
  | cons s rest ih =>
    obtain ⟨hstart, hle, hrest⟩ := h
    have := ih hrest
    simp only [List.map_cons, List.sum_cons, Span.length] at this ⊢
    omega

theorem append_iff {lo hi : Nat} {front back : List Span} :
    Tiles lo (front ++ back) hi ↔ ∃ mid, Tiles lo front mid ∧ Tiles mid back hi := by
  induction front generalizing lo with
  | nil => simp [Tiles]
  | cons s rest ih =>
    simp only [List.cons_append, Tiles, ih]
    constructor
    · rintro ⟨hstart, hle, mid, hfront, hback⟩
      exact ⟨mid, ⟨hstart, hle, hfront⟩, hback⟩
    · rintro ⟨mid, ⟨hstart, hle, hfront⟩, hback⟩
      exact ⟨hstart, hle, mid, hfront, hback⟩

theorem lo_le {lo hi : Nat} {spans : List Span} (h : Tiles lo spans hi) : lo ≤ hi := by
  have := h.add_sum
  omega

/-- A span of a tiling starts behind those before it. -/
theorem start_eq {lo hi : Nat} {front back : List Span} {s : Span} (h : Tiles lo (front ++ s :: back) hi) :
    s.start = lo + (front.map Span.length).sum := by
  obtain ⟨mid, hfront, hback⟩ := append_iff.1 h
  have := hfront.add_sum
  have := hback.1
  omega

theorem inside {lo hi : Nat} {spans : List Span} (h : Tiles lo spans hi) :
    ∀ s ∈ spans, s.start ≤ s.stop ∧ s.stop ≤ hi := by
  intro s hs
  obtain ⟨front, back, rfl⟩ := List.append_of_mem hs
  obtain ⟨mid, -, -, hle, hback⟩ := append_iff.1 h
  exact ⟨hle, hback.lo_le⟩

theorem lo_le_start {lo hi : Nat} {spans : List Span} (h : Tiles lo spans hi) : ∀ s ∈ spans, lo ≤ s.start := by
  intro s hs
  obtain ⟨front, back, rfl⟩ := List.append_of_mem hs
  obtain ⟨mid, hfront, hstart, -⟩ := append_iff.1 h
  rw [hstart]
  exact hfront.lo_le

/-- The cuts of a tiling make the cut of the whole. -/
theorem flatten_cut {lo hi : Nat} {spans : List Span} (h : Tiles lo spans hi) (content : Bytes) :
    (spans.map fun s => s.cut content).flatten = (⟨lo, hi⟩ : Span).cut content := by
  induction spans generalizing lo with
  | nil =>
    obtain rfl : lo = hi := h
    exact (Span.cut_of_length_eq_zero (by simp [Span.length]) content).symm
  | cons s rest ih =>
    obtain ⟨rfl, hle, hrest⟩ := h
    rw [List.map_cons, List.flatten_cons, ih hrest]
    exact Span.cut_append hle hrest.lo_le content

end Tiles

/-! ### Listings -/

namespace Listing

/-- What a chunk that passes its check is like. -/
theorem checkChunk_ok_iff {nominal position expected stop : Nat} {isLast : Bool} {c : Chunk} :
    checkChunk nominal position expected isLast c = .ok stop ↔
      c.index = position ∧ c.start = expected ∧ c.start ≤ c.stop ∧ (isLast = false → c.length = nominal) ∧
        c.length ≤ nominal ∧ c.stop = stop := by
  unfold checkChunk
  split
  · next hindex => exact iff_of_false (by simp) fun h => hindex h.1
  · next hindex =>
    split
    · next hplace => exact iff_of_false (by simp) fun ⟨_, hstart, hle, _⟩ => by omega
    · next hplace =>
      split
      · next huneven => exact iff_of_false (by simp) fun ⟨_, _, _, heven, _⟩ => huneven.2 (heven huneven.1)
      · next heven =>
        split
        · next hsize => exact iff_of_false (by simp) fun ⟨_, _, _, _, hle, _⟩ => by omega
        · next hsize =>
          rw [Except.ok.injEq]
          constructor
          · intro hstop
            exact ⟨by omega, by omega, by omega, fun hlast => by_contra fun hne => heven ⟨hlast, hne⟩, by omega, hstop⟩
          · rintro ⟨-, -, -, -, -, hstop⟩
            exact hstop

/-- Chunks pass their check one after the other. -/
theorem checkFrom_cons_ok_iff {nominal position expected covered : Nat} {c : Chunk} {rest : List Chunk} :
    checkFrom nominal position expected (c :: rest) = .ok covered ↔
      (c.index = position ∧ c.start = expected ∧ c.start ≤ c.stop ∧ (rest ≠ [] → c.length = nominal) ∧
        c.length ≤ nominal) ∧ checkFrom nominal (position + 1) c.stop rest = .ok covered := by
  have hlast : (rest.isEmpty = false → c.length = nominal) ↔ (rest ≠ [] → c.length = nominal) := by
    rw [List.isEmpty_eq_false_iff]
  constructor
  · intro h
    rw [checkFrom] at h
    split at h
    · cases h
    · next stop hchunk =>
      obtain ⟨hindex, hstart, hle, heven, hsize, rfl⟩ := checkChunk_ok_iff.1 hchunk
      exact ⟨⟨hindex, hstart, hle, hlast.1 heven, hsize⟩, h⟩
  · rintro ⟨⟨hindex, hstart, hle, heven, hsize⟩, hrest⟩
    have hchunk : checkChunk nominal position expected rest.isEmpty c = .ok c.stop :=
      checkChunk_ok_iff.2 ⟨hindex, hstart, hle, hlast.2 heven, hsize, rfl⟩
    rw [checkFrom, hchunk]
    exact hrest

theorem checkFrom_ok {nominal position expected covered : Nat} {chunks : List Chunk}
    (h : checkFrom nominal position expected chunks = .ok covered) :
    Tiles expected (chunks.map Chunk.span) covered ∧
      ∀ i c, chunks[i]? = some c → c.index = position + i := by
  induction chunks generalizing position expected with
  | nil =>
    cases h
    exact ⟨rfl, by simp⟩
  | cons c rest ih =>
    obtain ⟨⟨hindex, hstart, hle, -⟩, hcheck⟩ := checkFrom_cons_ok_iff.1 h
    obtain ⟨htiles, hindices⟩ := ih hcheck
    refine ⟨⟨hstart, hle, htiles⟩, ?_⟩
    intro i c' hc'
    cases i with
    | zero =>
      simp only [List.getElem?_cons_zero, Option.some.injEq] at hc'
      subst hc'
      omega
    | succ i =>
      have := hindices i c' (by simpa using hc')
      omega

/-- A listing passes its check if it has chunks, the first of which is not empty if there are others, and they pass
theirs up to the end of the file. -/
theorem verify_cons_ok_iff {first : Chunk} {rest : List Chunk} {totalSize : Nat} :
    verify (first :: rest) totalSize = .ok () ↔
      (first.length = 0 → rest = []) ∧ checkFrom first.length 0 0 (first :: rest) = .ok totalSize := by
  rw [verify]
  split
  · next hempty => exact iff_of_false (by simp) fun h => hempty.2 (h.1 hempty.1)
  · next hempty =>
    have hfirst : first.length = 0 → rest = [] := fun hzero => by_contra fun hne => hempty ⟨hzero, hne⟩
    split
    · next hfault => simp [hfault]
    · next covered hcheck =>
      rw [hcheck, Except.ok.injEq]
      split
      · next htotal => exact iff_of_true rfl ⟨hfirst, htotal⟩
      · next htotal => exact iff_of_false (by simp) fun h => htotal h.2

/-- A listing that passes its check tiles the file, and its chunks have their places as indices. -/
theorem verify_tiles {chunks : List Chunk} {totalSize : Nat} (h : verify chunks totalSize = .ok ()) :
    Tiles 0 (chunks.map Chunk.span) totalSize ∧ ∀ (i : Nat) (c : Chunk), chunks[i]? = some c → c.index = i := by
  cases chunks with
  | nil => cases h
  | cons first rest =>
    obtain ⟨htiles, hindices⟩ := checkFrom_ok (verify_cons_ok_iff.1 h).2
    exact ⟨htiles, fun i c hc => by simpa using hindices i c hc⟩

/-- The index of a chunk leads back to it. -/
theorem getElem?_index {chunks : List Chunk} {totalSize : Nat} (h : verify chunks totalSize = .ok ()) {c : Chunk}
    (hc : c ∈ chunks) : chunks[c.index]? = some c := by
  obtain ⟨i, hi⟩ := List.mem_iff_getElem?.1 hc
  rw [(verify_tiles h).2 i c hi, hi]

end Listing

end ChunkedStorage
