import Mathlib.Data.Nat.PSub
import ChunkedStorage.Proofs.Layout

/-!
# Listings that are accepted

A listing passes its check exactly if its chunks have the bounds of a plan, or those of a plan of full chunks and one
more that is empty (`Listing.verify_ok_iff_plan`).  On the way no length is taken of a chunk that is reversed
(`Listing.verify?_eq`).
-/

namespace ChunkedStorage.Listing

/-! ### Lengths that may fail -/

/-- The check of one chunk, with lengths that only chunks have that are not reversed. -/
def checkChunk? (nominal last position expected : Nat) (c : Chunk) : Option (Except LayoutFault Nat) :=
  if c.index ≠ position then
    some (.error (.wrongIndex position c.index))
  else if c.start ≠ expected ∨ c.stop < c.start then
    some (.error (.misplaced c.index c.start c.stop expected))
  else
    (Nat.psub c.stop c.start).map fun length =>
      if position ≠ last ∧ length ≠ nominal then
        .error (.uneven c.index length nominal)
      else if nominal < length then
        .error (.oversized c.index length nominal)
      else
        .ok c.stop

def checkFrom? (nominal last : Nat) : (position expected : Nat) → List Chunk → Option (Except LayoutFault Nat)
  | _, expected, [] => some (.ok expected)
  | position, expected, c :: rest =>
    match checkChunk? nominal last position expected c with
    | none => none
    | some (.error fault) => some (.error fault)
    | some (.ok stop) => checkFrom? nominal last (position + 1) stop rest

/-- The check of a listing, with differences that fail where they would be negative. -/
def verify? (chunks : List Chunk) (totalSize : Nat) : Option (Except Failure Unit) :=
  match chunks with
  | [] => some (.error .emptyListing)
  | first :: _ =>
    (Nat.psub first.stop first.start).bind fun nominal =>
      if nominal = 0 ∧ chunks.length ≠ 1 then
        some (.error (.layoutCorrupted (.emptyFirst chunks.length)))
      else
        (Nat.psub chunks.length 1).bind fun last =>
          (checkFrom? nominal last 0 0 chunks).map fun
            | .error fault => .error (.layoutCorrupted fault)
            | .ok covered =>
              if covered = totalSize then .ok () else .error (.layoutCorrupted (.wrongTotal covered totalSize))

private theorem checkChunk?_eq (nominal last position expected : Nat) (c : Chunk) :
    checkChunk? nominal last position expected c =
      some (checkChunk nominal position expected (decide (position = last)) c) := by
  unfold checkChunk? checkChunk
  split
  · rfl
  · split
    · rfl
    · next hplace =>
      -- the place of the chunk is looked at first, and so it is not reversed
      have hle : c.start ≤ c.stop := by omega
      rw [Nat.psub_eq_sub hle, Option.map_some, ← Chunk.length]
      simp only [decide_eq_false_iff_not, ne_eq]

private theorem checkFrom?_eq (nominal : Nat) {last position : Nat} (expected : Nat) {chunks : List Chunk}
    (hlast : chunks ≠ [] → position + chunks.length = last + 1) :
    checkFrom? nominal last position expected chunks = some (checkFrom nominal position expected chunks) := by
  induction chunks generalizing position expected with
  | nil => rfl
  | cons c rest ih =>
    have hplace := hlast (List.cons_ne_nil _ _)
    rw [List.length_cons] at hplace
    have hsame : decide (position = last) = rest.isEmpty := by
      cases rest with
      | nil =>
        rw [List.length_nil] at hplace
        exact decide_eq_true (by omega)
      | cons =>
        rw [List.length_cons] at hplace
        exact decide_eq_false (by omega)
    rw [checkFrom?, checkFrom, checkChunk?_eq, hsame]
    cases checkChunk nominal position expected rest.isEmpty c with
    | error fault => rfl
    | ok stop => exact ih stop fun _ => by omega

/-- No length is taken of a reversed chunk but perhaps the first. -/
theorem verify?_eq {chunks : List Chunk} (hfirst : ∀ c ∈ chunks.head?, c.start ≤ c.stop) (totalSize : Nat) :
    verify? chunks totalSize = some (verify chunks totalSize) := by
  cases chunks with
  | nil => rfl
  | cons first rest =>
    have hle : first.start ≤ first.stop := hfirst first rfl
    have hothers : (first :: rest).length ≠ 1 ↔ rest ≠ [] := by simp
    have hcheck : checkFrom? first.length rest.length 0 0 (first :: rest) =
        some (checkFrom first.length 0 0 (first :: rest)) := checkFrom?_eq _ _ fun _ => by simp
    simp only [verify?, verify, Nat.psub_eq_sub hle, Option.bind_some, hothers]
    rw [show first.stop - first.start = first.length from rfl]
    split
    · rfl
    · rw [Nat.psub_eq_sub (by simp), Option.bind_some, List.length_cons, Nat.add_sub_cancel, hcheck]
      cases checkFrom first.length 0 0 (first :: rest) <;> rfl

/-! ### Layouts of listings -/

/-- A listing that passes its check has the bounds of a layout, up to a chunk that starts within the file and reaches
its end. -/
theorem layout_of_verify {chunks : List Chunk} {totalSize : Nat} (hword : totalSize < wordLimit)
    (h : verify chunks totalSize = .ok ()) :
    ∃ (l : Layout) (n : Nat), l.totalSize = totalSize ∧ l.maxChunkSize < wordLimit ∧
      chunks.map Chunk.bounds = (List.range (n + 1)).map l.boundsAt ∧ n * l.maxChunkSize ≤ totalSize ∧
      totalSize ≤ (n + 1) * l.maxChunkSize := by
  obtain ⟨htiles, -⟩ := verify_tiles h
  cases chunks with
  | nil => cases h
  | cons first rest =>
    obtain ⟨hothers, hcheck⟩ := verify_cons_ok_iff.1 h
    by_cases hzero : first.length = 0
    · obtain rfl := hothers hzero
      obtain ⟨⟨hindex, hstart, hle, -⟩, hstop⟩ := checkFrom_cons_ok_iff.1 hcheck
      have hstop' : first.stop = totalSize := Except.ok.inj hstop
      obtain rfl : totalSize = 0 := by
        rw [Chunk.length] at hzero
        omega
      let l : Layout := ⟨0, 1, Nat.one_pos⟩
      refine ⟨l, 0, rfl, by decide, ?_, by simp, by simp⟩
      rw [List.map_singleton, Chunk.bounds, hindex, hstart, hstop']
      rfl
    · let l : Layout := ⟨totalSize, first.length, Nat.pos_of_ne_zero hzero⟩
      have hcheck' : checkFrom l.maxChunkSize 0 (0 * l.maxChunkSize) (first :: rest) = .ok l.totalSize := by
        rw [Nat.zero_mul]
        exact hcheck
      obtain ⟨hbounds, hinside, hend⟩ := (l.checkFrom_iff hword).1 hcheck'
      have hsize : first.length ≤ totalSize := by
        have hstop := (htiles.inside first.span (by simp)).2
        rw [Chunk.length]
        simp only [Chunk.span] at hstop
        omega
      rw [Nat.zero_add] at hinside hend
      rw [← List.range_eq_range'] at hbounds
      exact ⟨l, rest.length, rfl, Nat.lt_of_le_of_lt hsize hword, hbounds, hinside, hend⟩

/-- Only at the end of the file may a chunk be empty. -/
theorem stop_eq_of_length_eq_zero {chunks : List Chunk} {totalSize : Nat} (hword : totalSize < wordLimit)
    (h : verify chunks totalSize = .ok ()) {c : Chunk} (hc : c ∈ chunks) (hempty : c.length = 0) :
    c.stop = totalSize := by
  obtain ⟨l, n, rfl, -, hbounds, hinside, hend⟩ := layout_of_verify hword h
  obtain ⟨i, hi, hci⟩ : ∃ i, i < n + 1 ∧ l.boundsAt i = c.bounds := by
    have hmem : c.bounds ∈ (List.range (n + 1)).map l.boundsAt := hbounds ▸ List.mem_map_of_mem hc
    simpa using hmem
  have hstop : c.stop = min ((i + 1) * l.maxChunkSize) l.totalSize := by
    rw [← l.stop_boundsAt hword]
    exact congrArg ChunkBounds.stop hci.symm
  by_cases hlast : i = n
  · rw [hstop, hlast, Nat.min_eq_right hend]
  · have hstart : c.start = i * l.maxChunkSize := congrArg ChunkBounds.start hci.symm
    have hfull : (i + 1) * l.maxChunkSize ≤ l.totalSize :=
      Nat.le_trans (Nat.mul_le_mul_right _ (by omega)) hinside
    have hstep : (i + 1) * l.maxChunkSize = i * l.maxChunkSize + l.maxChunkSize := Nat.succ_mul ..
    have hpositive := l.maxChunkSize_pos
    rw [Chunk.length] at hempty
    omega

/-- A listing that fails its check without being empty is corrupted. -/
private theorem layoutCorrupted_of_verify {chunks : List Chunk} {totalSize : Nat} (hne : chunks ≠ [])
    (h : verify chunks totalSize ≠ .ok ()) :
    ∃ fault, verify chunks totalSize = .error (.layoutCorrupted fault) := by
  cases chunks with
  | nil => exact absurd rfl hne
  | cons first rest =>
    rw [verify] at h ⊢
    split
    · exact ⟨_, rfl⟩
    · next hempty =>
      rw [if_neg hempty] at h
      split
      · exact ⟨_, rfl⟩
      · next covered hcheck =>
        rw [hcheck] at h
        split
        · next htotal => exact absurd (if_pos htotal) h
        · exact ⟨_, rfl⟩

/-- A listing passes its check exactly if it has the bounds that are planned for some chunk size, or, if chunks of that
size fill the file, these and an empty chunk at its end.  Without chunks it is empty, and else it is corrupted.  Only
the first chunk has to be in order for all differences to exist. -/
theorem verify_ok_iff_plan {chunks : List Chunk} {totalSize : Nat} (hword : totalSize < wordLimit)
    (hfirst : ∀ c ∈ chunks.head?, c.start ≤ c.stop) :
    (verify chunks totalSize = .ok () ↔
      ∃ size bounds, 0 < size ∧ size < wordLimit ∧ plan totalSize size = .ok bounds ∧
        (0 < totalSize ∧ chunks.map Chunk.bounds = bounds ∨
          size ∣ totalSize ∧ chunks.map Chunk.bounds = bounds ++ [⟨totalSize / size, totalSize, totalSize⟩])) ∧
    (chunks = [] → verify chunks totalSize = .error .emptyListing) ∧
    (chunks ≠ [] → verify chunks totalSize ≠ .ok () →
      ∃ fault, verify chunks totalSize = .error (.layoutCorrupted fault)) ∧
    verify? chunks totalSize = some (verify chunks totalSize) := by
  refine ⟨⟨?_, ?_⟩, ?_, layoutCorrupted_of_verify, verify?_eq hfirst totalSize⟩
  · intro h
    obtain ⟨l, n, rfl, hsize, hbounds, hinside, hend⟩ := layout_of_verify hword h
    refine ⟨l.maxChunkSize, l.bounds, l.maxChunkSize_pos, hsize, l.plan_eq, ?_⟩
    rcases l.count_of_le hinside hend with ⟨hlast, hcount⟩ | ⟨hfull, hcount⟩
    · left
      rw [hbounds, Layout.bounds, hcount]
      exact ⟨by omega, rfl⟩
    · right
      have htail : l.boundsAt n = ⟨l.totalSize / l.maxChunkSize, l.totalSize, l.totalSize⟩ := by
        rw [l.boundsAt_of_ge hword hend, hfull, ← hfull, Nat.mul_div_cancel n l.maxChunkSize_pos]
      refine ⟨⟨n, by rw [← hfull, Nat.mul_comm]⟩, ?_⟩
      rw [hbounds, List.range_succ, List.map_append, List.map_singleton, htail, Layout.bounds, hcount]
  · rintro ⟨size, bounds, hpositive, hsize, hplan, hchunks⟩
    let l : Layout := ⟨totalSize, size, hpositive⟩
    obtain rfl : l.bounds = bounds := Except.ok.inj (l.plan_eq.symm.trans hplan)
    rcases hchunks with ⟨hsome, hbounds⟩ | ⟨⟨n, htotal⟩, hbounds⟩
    · exact l.verify_bounds hword (Nat.pos_iff_ne_zero.1 hsome) hbounds
    · have hfull : n * l.maxChunkSize = l.totalSize := by rw [Nat.mul_comm, ← htotal]
      have hend : l.totalSize ≤ (n + 1) * l.maxChunkSize := by
        rw [← hfull]
        exact Nat.mul_le_mul_right _ (Nat.le_succ n)
      have hcount : l.count = n := by
        rcases l.count_of_le (Nat.le_of_eq hfull) hend with ⟨hlast, -⟩ | ⟨-, hcount⟩
        · omega
        · exact hcount
      apply l.verify_of_bounds hword (n := n) _ (Nat.le_of_eq hfull) hend
      rw [hbounds, Layout.bounds, hcount, List.range_succ, List.map_append, List.map_singleton,
        l.boundsAt_of_ge hword hend, hfull]
      have hquotient : totalSize / size = n := by rw [htotal, Nat.mul_div_cancel_left n hpositive]
      rw [hquotient]
  · rintro rfl
    rfl

theorem verify_ok_iff_plan_emptyTail :
    let chunks : List Chunk := [⟨0, 0, 4, "a", "", false⟩, ⟨1, 4, 8, "b", "", false⟩, ⟨2, 8, 8, "c", "", false⟩]
    8 < wordLimit ∧ (∀ c ∈ chunks.head?, c.start ≤ c.stop) ∧ verify chunks 8 = .ok () ∧
      verify? chunks 8 = some (.ok ()) := by
  intro chunks
  have hword : 8 < wordLimit := by decide
  have hfirst : ∀ c ∈ chunks.head?, c.start ≤ c.stop := by simp [chunks]
  obtain ⟨hiff, -, -, hchecked⟩ := verify_ok_iff_plan hword hfirst
  have hverify := hiff.2 ⟨4, [⟨0, 0, 4⟩, ⟨1, 4, 8⟩], by decide, by decide, rfl, .inr ⟨by decide, rfl⟩⟩
  rw [hverify] at hchecked
  exact ⟨hword, hfirst, hverify, hchecked⟩

end ChunkedStorage.Listing
