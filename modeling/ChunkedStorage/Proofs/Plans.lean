import Mathlib.Algebra.Order.Floor.Semiring
import Mathlib.Data.Rat.Floor
import ChunkedStorage.Proofs.Layout

/-!
# Complete plans

A plan cuts a file into full chunks and at most one shorter one behind them, and no product or sum on the way leaves the
words (`plan_complete`).  The start of a chunk is a product that is not guarded; it fits because the chunk starts within
the file (`Layout.lt_count_iff`), and the sum that would give its end stops at the largest word only where the file ends
before it.
-/

namespace ChunkedStorage

/-- The product of two words, if it is a word. -/
def mul? (a b : Nat) : Option Nat := if a * b < wordLimit then some (a * b) else none

theorem mul?_of_lt {a b : Nat} (h : a * b < wordLimit) : mul? a b = some (a * b) := if_pos h

/-! ### Plans that may overflow -/

namespace Layout

/-- The bounds of a chunk, unless its start is no word. -/
def boundsAt? (l : Layout) (index : Nat) : Option ChunkBounds :=
  (mul? index l.maxChunkSize).map fun start =>
    { index, start, stop := min (saturatingAdd start l.maxChunkSize) l.totalSize }

/-- The bounds of all chunks, unless the start of one is no word. -/
def bounds? (l : Layout) : Option (List ChunkBounds) := (List.range l.count).mapM l.boundsAt?

end Layout

/-- The plan of a file, unless a chunk would start at no word. -/
def plan? (totalSize maxChunkSize : Nat) : Option (Except Failure (List ChunkBounds)) :=
  match Layout.create totalSize maxChunkSize with
  | .error failure => some (.error failure)
  | .ok l => l.bounds?.map .ok

private theorem mapM_eq_some {α β : Type} {f? : α → Option β} {f : α → β} {as : List α}
    (h : ∀ a ∈ as, f? a = some (f a)) : as.mapM f? = some (as.map f) := by
  induction as with
  | nil => rfl
  | cons a as ih =>
    rw [List.forall_mem_cons] at h
    rw [List.mapM_cons, h.1, ih h.2]
    rfl

namespace Layout

variable (l : Layout)

theorem boundsAt?_eq (htotal : l.totalSize < wordLimit) {i : Nat} (hi : i < l.count) :
    l.boundsAt? i = some (l.boundsAt i) := by
  have hstart : i * l.maxChunkSize < wordLimit := Nat.lt_trans (l.lt_count_iff.1 hi) htotal
  rw [boundsAt?, mul?_of_lt hstart]
  rfl

theorem bounds?_eq (htotal : l.totalSize < wordLimit) : l.bounds? = some l.bounds :=
  mapM_eq_some fun _ hi => l.boundsAt?_eq htotal (List.mem_range.1 hi)

end Layout

/-- No chunk of a plan starts beyond the words. -/
theorem plan?_eq {totalSize : Nat} (htotal : totalSize < wordLimit) (maxChunkSize : Nat) :
    plan? totalSize maxChunkSize = some (plan totalSize maxChunkSize) := by
  by_cases hpositive : 0 < maxChunkSize
  · let l : Layout := ⟨totalSize, maxChunkSize, hpositive⟩
    have hcreate : Layout.create totalSize maxChunkSize = .ok l := dif_pos hpositive
    simp only [plan?, plan, hcreate, l.bounds?_eq htotal]
    rfl
  · have hcreate : Layout.create totalSize maxChunkSize = .error (.configuration .zeroLayoutChunkSize) :=
      dif_neg hpositive
    simp only [plan?, plan, hcreate]
    rfl

/-! ### Partitions -/

/-- The bounds of the chunks of a file that is cut into pieces of one size. -/
structure IsPlan (totalSize maxChunkSize : Nat) (bounds : List ChunkBounds) : Prop where
  length_eq : bounds.length = ⌈(totalSize / maxChunkSize : ℚ)⌉₊
  place : ∀ (i : Nat) (b : ChunkBounds), bounds[i]? = some b →
    b = ⟨i, i * maxChunkSize, min (i * maxChunkSize + maxChunkSize) totalSize⟩
  /-- The first chunk starts at zero, each other one where the one before it ends, and the last ends with the file. -/
  tiles : Tiles 0 (bounds.map ChunkBounds.span) totalSize
  nonempty : ∀ b ∈ bounds, b.start < b.stop
  full : ∀ (i : Nat) (b : ChunkBounds), bounds[i]? = some b → i + 1 < bounds.length → b.length = maxChunkSize

namespace Layout

variable (l : Layout)

theorem count_eq_ceil : l.count = ⌈(l.totalSize / l.maxChunkSize : ℚ)⌉₊ := by
  have hpositive : (0 : ℚ) < l.maxChunkSize := Nat.cast_pos.2 l.maxChunkSize_pos
  apply eq_of_forall_lt_iff
  intro i
  rw [lt_count_iff, Nat.lt_ceil, lt_div_iff₀ hpositive]
  norm_cast

theorem count_le_totalSize : l.count ≤ l.totalSize := by
  by_contra hmore
  have hinside := l.lt_count_iff.1 (Nat.lt_of_not_le hmore)
  have := Nat.le_mul_of_pos_right l.totalSize l.maxChunkSize_pos
  omega

theorem getElem?_bounds {i : Nat} {b : ChunkBounds} : l.bounds[i]? = some b ↔ i < l.count ∧ b = l.boundsAt i := by
  rw [bounds, List.getElem?_map, Option.map_eq_some_iff]
  constructor
  · rintro ⟨j, hj, rfl⟩
    obtain ⟨hi, rfl⟩ := List.getElem?_eq_some_iff.1 hj
    rw [List.length_range] at hi
    rw [List.getElem_range]
    exact ⟨hi, rfl⟩
  · rintro ⟨hi, rfl⟩
    exact ⟨i, List.getElem?_range hi, rfl⟩

/-- The chunks from some place on meet, and the last of them ends with the file. -/
private theorem tiles_boundsFrom (htotal : l.totalSize < wordLimit) (i n : Nat) (hn : i + n = l.count) :
    Tiles (min (i * l.maxChunkSize) l.totalSize) (((List.range' i n).map l.boundsAt).map ChunkBounds.span)
      l.totalSize := by
  -- the start is cut off at the end of the file, so that it also says where a row of no chunks has to be
  induction n generalizing i with
  | zero =>
    have hend : l.totalSize ≤ i * l.maxChunkSize := by
      have := l.lt_count_iff (i := i)
      omega
    exact Nat.min_eq_right hend
  | succ n ih =>
    have hinside : i * l.maxChunkSize < l.totalSize := l.lt_count_iff.1 (by omega)
    have hrest := ih (i + 1) (by omega)
    have hstep : (i + 1) * l.maxChunkSize = i * l.maxChunkSize + l.maxChunkSize := Nat.succ_mul ..
    have hstop : (l.boundsAt i).stop = min ((i + 1) * l.maxChunkSize) l.totalSize := l.stop_boundsAt htotal i
    rw [List.range'_succ, List.map_cons, List.map_cons]
    refine ⟨?_, ?_, ?_⟩
    · rw [Nat.min_eq_left (Nat.le_of_lt hinside)]
      rfl
    · change i * l.maxChunkSize ≤ (l.boundsAt i).stop
      omega
    · change Tiles (l.boundsAt i).stop _ _
      rw [hstop]
      exact hrest

/-- The bounds of a layout cut its file into pieces of one size. -/
theorem isPlan_bounds (htotal : l.totalSize < wordLimit) : IsPlan l.totalSize l.maxChunkSize l.bounds where
  length_eq := by rw [length_bounds, count_eq_ceil]
  place i b hb := by
    obtain ⟨-, rfl⟩ := l.getElem?_bounds.1 hb
    have hstop := l.stop_boundsAt htotal i
    rw [Nat.succ_mul] at hstop
    rw [← hstop]
    rfl
  tiles := by
    have htiles := l.tiles_boundsFrom htotal 0 l.count (Nat.zero_add _)
    rw [Nat.zero_mul, Nat.zero_min] at htiles
    rwa [bounds, List.range_eq_range']
  nonempty b hb := by
    obtain ⟨i, hi⟩ := List.mem_iff_getElem?.1 hb
    obtain ⟨hcount, rfl⟩ := l.getElem?_bounds.1 hi
    have hinside := l.lt_count_iff.1 hcount
    have hpositive := l.maxChunkSize_pos
    rw [l.stop_boundsAt htotal, Nat.succ_mul]
    change i * l.maxChunkSize < _
    omega
  full i b hb hnext := by
    obtain ⟨-, rfl⟩ := l.getElem?_bounds.1 hb
    rw [length_bounds, lt_count_iff] at hnext
    rw [ChunkBounds.length, l.boundsAt_of_le htotal (Nat.le_of_lt hnext)]
    have hstep : (i + 1) * l.maxChunkSize = i * l.maxChunkSize + l.maxChunkSize := Nat.succ_mul ..
    change (i + 1) * l.maxChunkSize - i * l.maxChunkSize = l.maxChunkSize
    omega

/-- The chunks from some place on, as many as are asked for, are a part of the row of all chunks. -/
theorem boundsFrom_eq (i limit : Nat) : l.boundsFrom i limit = (l.bounds.drop i).take limit := by
  have hpart : List.range' i (min limit (l.count - i)) = ((List.range l.count).drop i).take limit := by
    rw [List.range_eq_range', List.drop_range', Nat.zero_add, Nat.mul_one]
    rcases Nat.le_total (l.count - i) limit with hle | hle
    · rw [Nat.min_eq_right hle, List.take_range'_of_length_le hle]
    · rw [Nat.min_eq_left hle, List.take_range'_of_length_ge hle]
  rw [boundsFrom, bounds, hpart, List.map_take, List.map_drop]

end Layout

/-- A file of any size is cut completely by chunks of any size but zero: in exactly as many pieces as the layout has
announced, whose bounds are words and are found without a product that is none. -/
theorem plan_complete {totalSize : Nat} (htotal : totalSize < wordLimit) (maxChunkSize : Nat) :
    (maxChunkSize = 0 → plan totalSize maxChunkSize = .error (.configuration .zeroLayoutChunkSize)) ∧
    (0 < maxChunkSize → ∃ l bounds, Layout.create totalSize maxChunkSize = .ok l ∧
      plan totalSize maxChunkSize = .ok bounds ∧ IsPlan totalSize maxChunkSize bounds ∧
      l.count = bounds.length ∧ l.count < wordLimit ∧
      ∀ i limit, l.boundsFrom i limit = (bounds.drop i).take limit) ∧
    plan? totalSize maxChunkSize = some (plan totalSize maxChunkSize) := by
  refine ⟨?_, ?_, plan?_eq htotal maxChunkSize⟩
  · rintro rfl
    rfl
  · intro hpositive
    let l : Layout := ⟨totalSize, maxChunkSize, hpositive⟩
    exact ⟨l, l.bounds, dif_pos hpositive, l.plan_eq, l.isPlan_bounds htotal, l.length_bounds.symm,
      Nat.lt_of_le_of_lt l.count_le_totalSize htotal, l.boundsFrom_eq⟩

/-- The second chunk of the largest file, cut just below its size, ends with the file and not behind the words. -/
theorem plan_complete_largest :
    wordLimit - 1 < wordLimit ∧
      plan (wordLimit - 1) (wordLimit - 2) =
        .ok [⟨0, 0, wordLimit - 2⟩, ⟨1, wordLimit - 2, wordLimit - 1⟩] ∧
      IsPlan (wordLimit - 1) (wordLimit - 2) [⟨0, 0, wordLimit - 2⟩, ⟨1, wordLimit - 2, wordLimit - 1⟩] := by
  have htotal : wordLimit - 1 < wordLimit := by decide
  obtain ⟨-, hpositive, -⟩ := plan_complete htotal (wordLimit - 2)
  obtain ⟨l, bounds, -, hplan, hwhole, -⟩ := hpositive (by decide)
  have hbounds : plan (wordLimit - 1) (wordLimit - 2) =
      .ok [⟨0, 0, wordLimit - 2⟩, ⟨1, wordLimit - 2, wordLimit - 1⟩] := by
    decide +kernel
  obtain rfl := Except.ok.inj (hplan.symm.trans hbounds)
  exact ⟨htotal, hbounds, hwhole⟩

end ChunkedStorage
