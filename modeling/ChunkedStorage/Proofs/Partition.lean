import ChunkedStorage.Proofs.Listing
import ChunkedStorage.Proofs.Slices

/-!
# Ranges cut into parts of chunks

The slices of a range are a partition of it into parts of chunks (`mapRange_partition`): they meet, none of them is
empty, and a chunk has one exactly if it holds a byte of the range.  A range without bytes has no such partition, and
what becomes of it depends on whether it lies inside a chunk or between two.
-/

namespace ChunkedStorage

/-! ### Requests -/

namespace RangeRequest

/-- The fields of the request are signed words. -/
structure Signed (request : RangeRequest) : Prop where
  start : -(signedLimit : Int) ≤ request.start ∧ request.start < signedLimit
  length : ∀ count, request.length = .bytes count → -(signedLimit : Int) ≤ count ∧ count < signedLimit

variable {request : RangeRequest} {totalSize : Nat} {wanted : Span}

private theorem sum_lt (hsigned : request.Signed) {count : Int} (hlength : request.length = .bytes count) :
    request.start.toNat + count.toNat < wordLimit := by
  have hstart := hsigned.start.2
  have hcount := (hsigned.length count hlength).2
  have hlimit : signedLimit + signedLimit = wordLimit := rfl
  have hpositive : 0 < signedLimit := by decide
  omega

/-- A request can be resolved if it starts within the file and has no negative length. -/
theorem exists_resolve_iff : (∃ wanted, request.resolve totalSize = .ok wanted) ↔
    0 ≤ request.start ∧ request.start < totalSize ∧ ∀ count, request.length = .bytes count → 0 ≤ count := by
  unfold resolve
  simp only
  split
  · next hnegative =>
    refine iff_of_false (by simp) fun h => ?_
    omega
  · next hnegative =>
    split
    · next hbehind =>
      refine iff_of_false (by simp) fun h => ?_
      omega
    · next hinside =>
      cases hlength : request.length with
      | toEnd => exact iff_of_true ⟨_, rfl⟩ ⟨by omega, by omega, by simp⟩
      | bytes count =>
        simp only
        split
        · next hcount =>
          refine iff_of_false (by simp) fun h => ?_
          have := h.2.2 count rfl
          omega
        · next hcount =>
          refine iff_of_true ⟨_, rfl⟩ ⟨by omega, by omega, ?_⟩
          intro count' hsame
          cases hsame
          omega

/-- A request that can be resolved asks for what its fields say, as far as the file reaches. -/
theorem resolve_eq (hsigned : request.Signed) (h : request.resolve totalSize = .ok wanted) :
    (wanted.start : Int) = request.start ∧ wanted.start ≤ wanted.stop ∧
      (wanted.stop : Int) = match request.length with
        | .toEnd => (totalSize : Int)
        | .bytes count => min (request.start + count) totalSize := by
  obtain ⟨hstart, hinside, hcount⟩ := exists_resolve_iff.1 ⟨wanted, h⟩
  simp only [resolve, if_neg (Int.not_lt.2 hstart), if_neg (show ¬ totalSize ≤ request.start.toNat by omega)] at h
  cases hlength : request.length with
  | toEnd =>
    simp only [hlength, Except.ok.injEq] at h
    subst h
    refine ⟨?_, ?_, rfl⟩
    · simp only
      omega
    · simp only
      omega
  | bytes count =>
    have hnonneg := hcount count hlength
    simp only [hlength, if_neg (Int.not_lt.2 hnonneg), saturatingAdd_of_lt (sum_lt hsigned hlength),
      Except.ok.injEq] at h
    subst h
    refine ⟨?_, ?_, ?_⟩
    · simp only
      omega
    · simp only
      omega
    · simp only
      omega

end RangeRequest

/-! ### Differences that may fail -/

/-- The part of a chunk that lies inside `wanted`, if its ends are not before the chunk. -/
def ChunkSlice.ofChunk? (wanted : Span) (position : Nat) (c : Chunk) : Option ChunkSlice :=
  (Nat.psub (max wanted.start c.start) c.start).bind fun first =>
    (Nat.psub (min wanted.stop c.stop) c.start).map fun last =>
      { position, index := c.index, logicalStart := c.start, range := ⟨first, last⟩ }

def slicesFrom? (wanted : Span) : (position : Nat) → List Chunk → Option (List ChunkSlice)
  | _, [] => some []
  | position, c :: rest =>
    (ChunkSlice.ofChunk? wanted position c).bind fun slice =>
      (slicesFrom? wanted (position + 1) rest).map fun slices => slice :: slices

/-- The slices of a range, with differences that fail where they would be negative. -/
def mapRange? (chunks : List Chunk) (totalSize : Nat) (request : RangeRequest) :
    Option (Except Failure (List ChunkSlice)) :=
  match request.resolve totalSize with
  | .error failure => some (.error failure)
  | .ok wanted =>
    (slicesFrom? wanted 0 (chunks.filter (·.overlaps wanted))).map fun
      | [] => .error (.noChunksForRange wanted.start wanted.stop totalSize chunks.length)
      | slices => .ok slices

private theorem ofChunk?_eq {wanted : Span} {c : Chunk} (position : Nat) (hc : c.overlaps wanted = true)
    (hle : c.start ≤ c.stop) : ChunkSlice.ofChunk? wanted position c = some (.ofChunk wanted position c) := by
  rw [Chunk.overlaps_iff] at hc
  have hfirst : c.start ≤ max wanted.start c.start := Nat.le_max_right ..
  have hlast : c.start ≤ min wanted.stop c.stop := by omega
  rw [ChunkSlice.ofChunk?, Nat.psub_eq_sub hfirst, Nat.psub_eq_sub hlast]
  rfl

private theorem slicesFrom?_eq {wanted : Span} (position : Nat) {chunks : List Chunk}
    (h : ∀ c ∈ chunks, c.overlaps wanted = true ∧ c.start ≤ c.stop) :
    slicesFrom? wanted position chunks = some (slicesFrom wanted position chunks) := by
  induction chunks generalizing position with
  | nil => rfl
  | cons c rest ih =>
    obtain ⟨⟨hc, hle⟩, hrest⟩ := List.forall_mem_cons.1 h
    rw [slicesFrom?, ofChunk?_eq position hc hle, ih (position + 1) hrest]
    rfl

/-- All differences exist where no chunk is reversed. -/
theorem mapRange?_eq {chunks : List Chunk} (h : ∀ c ∈ chunks, c.start ≤ c.stop) (totalSize : Nat)
    (request : RangeRequest) : mapRange? chunks totalSize request = some (mapRange chunks totalSize request) := by
  unfold mapRange? mapRange
  cases hresolve : request.resolve totalSize with
  | error failure => rfl
  | ok wanted =>
    have hslices : slicesFrom? wanted 0 (chunks.filter (·.overlaps wanted)) =
        some (slicesFrom wanted 0 (chunks.filter (·.overlaps wanted))) := by
      apply slicesFrom?_eq
      intro c hc
      obtain ⟨hmem, hoverlaps⟩ := List.mem_filter.1 hc
      exact ⟨hoverlaps, h c hmem⟩
    simp only [hslices]
    cases slicesFrom wanted 0 (chunks.filter (·.overlaps wanted)) <;> rfl

/-! ### Partitions -/

/-- Slices that are a partition of a wanted span into parts of the chunks of a listing. -/
structure Partition (chunks : List Chunk) (wanted : Span) (slices : List ChunkSlice) : Prop where
  ne_nil : slices ≠ []
  /-- Each slice has its place as position, and the chunks of the slices follow one another. -/
  order : ∃ first, ∀ (p : Nat) (slice : ChunkSlice), slices[p]? = some slice →
    slice.position = p ∧ slice.index = first + p
  /-- A slice is a part of the chunk with its index, and not empty. -/
  part : ∀ slice ∈ slices, ∃ c, chunks[slice.index]? = some c ∧ c.index = slice.index ∧ slice.logicalStart = c.start ∧
    slice.range.start < slice.range.stop ∧ slice.range.stop ≤ c.length
  /-- The first slice starts where the range does, each other one where the one before it ends, and the last one ends
  where the range does. -/
  tiles : Tiles wanted.start (slices.map ChunkSlice.logicalRange) wanted.stop
  /-- A chunk has a slice exactly if it shares a byte with the range. -/
  shares : ∀ c ∈ chunks, (∃ slice ∈ slices, slice.index = c.index) ↔
    ∃ x, (wanted.start ≤ x ∧ x < wanted.stop) ∧ c.start ≤ x ∧ x < c.stop

section

variable {chunks : List Chunk} {totalSize : Nat} {wanted : Span}

/-- A chunk that overlaps a range of some bytes has one of them. -/
private theorem max_lt_min (hword : totalSize < wordLimit) (hverify : Listing.verify chunks totalSize = .ok ())
    (hstop : wanted.stop ≤ totalSize) (hwanted : wanted.start < wanted.stop) {c : Chunk} (hc : c ∈ chunks)
    (hoverlaps : c.overlaps wanted = true) : max wanted.start c.start < min wanted.stop c.stop := by
  rw [Chunk.overlaps_iff] at hoverlaps
  have hsome : c.start < c.stop := by
    by_contra hempty
    -- an empty chunk lies at the end of the file, and so behind the range
    have hend := Listing.stop_eq_of_length_eq_zero hword hverify hc (by rw [Chunk.length]; omega)
    omega
  omega

private theorem partition_slicesFrom (hword : totalSize < wordLimit)
    (hverify : Listing.verify chunks totalSize = .ok ()) (hstop : wanted.stop ≤ totalSize)
    (hwanted : wanted.start < wanted.stop) :
    Partition chunks wanted (slicesFrom wanted 0 (chunks.filter (·.overlaps wanted))) := by
  have hslicing := slicing_slicesFrom hverify hstop hwanted
  have hne := hslicing.ne_nil hwanted
  refine ⟨hne, hslicing.order, ?_, hslicing.tiles hne, ?_⟩
  · intro slice hslice
    obtain ⟨c, hc, hindex, hstart, -, hlength⟩ := hslicing.chunk slice hslice
    refine ⟨c, hc, hindex, hstart, ?_, hlength⟩
    obtain ⟨c', hc', hslice⟩ := exists_of_mem_slicesFrom hslice
    obtain ⟨hmem, hoverlaps⟩ := List.mem_filter.1 hc'
    have hmeet := max_lt_min hword hverify hstop hwanted hmem hoverlaps
    rw [hslice]
    simp only [ChunkSlice.ofChunk]
    omega
  · intro c hc
    constructor
    · rintro ⟨slice, hslice, hindex⟩
      obtain ⟨c', hc', hslice⟩ := exists_of_mem_slicesFrom hslice
      obtain ⟨hmem, hoverlaps⟩ := List.mem_filter.1 hc'
      -- two chunks of one index are the same
      obtain rfl : c' = c := by
        have hsame : c'.index = c.index := by
          rw [hslice] at hindex
          exact hindex
        have hfound := Listing.getElem?_index hverify hmem
        rw [hsame, Listing.getElem?_index hverify hc] at hfound
        exact (Option.some.inj hfound).symm
      have hmeet := max_lt_min hword hverify hstop hwanted hc hoverlaps
      exact ⟨max wanted.start c'.start, by omega, by omega, by omega⟩
    · rintro ⟨x, ⟨hfirst, hlast⟩, hstart, hend⟩
      have hoverlaps : c.overlaps wanted = true := by
        rw [Chunk.overlaps_iff]
        omega
      have hmem : c ∈ chunks.filter (·.overlaps wanted) := List.mem_filter.2 ⟨hc, hoverlaps⟩
      obtain ⟨p, hp⟩ := List.mem_iff_getElem?.1 hmem
      refine ⟨.ofChunk wanted (0 + p) c, List.mem_of_getElem? (i := p) ?_, rfl⟩
      rw [getElem?_slicesFrom, hp]
      rfl

/-! ### Ranges without bytes -/

/-- The chunks before and behind one of a listing do not overlap what lies within it, its ends included. -/
private theorem filter_overlaps_of_mem (hverify : Listing.verify chunks totalSize = .ok ()) {c : Chunk}
    (hc : c ∈ chunks) (hstart : c.start ≤ wanted.start) (hstop : wanted.stop ≤ c.stop) :
    chunks.filter (·.overlaps wanted) = [c].filter (·.overlaps wanted) := by
  obtain ⟨front, back, rfl⟩ := List.append_of_mem hc
  have htiles := (Listing.verify_tiles hverify).1
  rw [List.map_append, List.map_cons, Tiles.append_iff] at htiles
  obtain ⟨mid, hfront, hmid, -, hback⟩ := htiles
  simp only [Chunk.span] at hmid hback
  rw [List.filter_append, filter_overlaps_eq_nil hfront (.inr (by omega)), List.nil_append, ← List.singleton_append,
    List.filter_append, filter_overlaps_eq_nil hback (.inl hstop), List.append_nil]

end

/-- A request of signed words can be resolved exactly if it starts within the file and has no negative length, and is
then for what its fields say, as far as the file reaches; no sum overflows.  In a listing of the file a range of some
bytes is cut into a partition of slices.  A range of none is cut into one empty slice inside a chunk, but into none at
the start of a chunk, which is a failure.  No difference is negative. -/
theorem mapRange_partition {request : RangeRequest} (hsigned : request.Signed) {totalSize : Nat}
    (hword : totalSize < wordLimit) :
    ((∃ wanted, request.resolve totalSize = .ok wanted) ↔
      0 ≤ request.start ∧ request.start < totalSize ∧ ∀ count, request.length = .bytes count → 0 ≤ count) ∧
    (∀ wanted, request.resolve totalSize = .ok wanted →
      (wanted.start : Int) = request.start ∧ wanted.start ≤ wanted.stop ∧
        (wanted.stop : Int) = match request.length with
          | .toEnd => (totalSize : Int)
          | .bytes count => min (request.start + count) totalSize) ∧
    (∀ count, request.length = .bytes count → request.start.toNat + count.toNat < wordLimit) ∧
    ∀ chunks wanted, Listing.verify chunks totalSize = .ok () → request.resolve totalSize = .ok wanted →
      (wanted.start < wanted.stop → ∃ slices, mapRange chunks totalSize request = .ok slices ∧
        Partition chunks wanted slices) ∧
      (wanted.start = wanted.stop → ∀ c ∈ chunks,
        (c.start < wanted.start → wanted.start < c.stop → mapRange chunks totalSize request =
          .ok [⟨0, c.index, c.start, ⟨wanted.start - c.start, wanted.start - c.start⟩⟩]) ∧
        (c.start = wanted.start → mapRange chunks totalSize request =
          .error (.noChunksForRange wanted.start wanted.stop totalSize chunks.length))) ∧
      mapRange? chunks totalSize request = some (mapRange chunks totalSize request) := by
  refine ⟨RangeRequest.exists_resolve_iff, fun wanted => RangeRequest.resolve_eq hsigned,
    fun count => RangeRequest.sum_lt hsigned, ?_⟩
  intro chunks wanted hverify hresolve
  have hstop := (RangeRequest.resolve_ok hresolve).2
  have htiles := (Listing.verify_tiles hverify).1
  have hle : ∀ c ∈ chunks, c.start ≤ c.stop := fun c hc => (htiles.inside c.span (List.mem_map_of_mem hc)).1
  refine ⟨?_, ?_, mapRange?_eq hle totalSize request⟩
  · intro hwanted
    have hpartition := partition_slicesFrom hword hverify hstop hwanted
    exact ⟨_, mapRange_of_ne_nil hresolve hpartition.ne_nil, hpartition⟩
  · intro hempty c hc
    constructor
    · intro hstart hend
      have hoverlaps : c.overlaps wanted = true := by
        rw [Chunk.overlaps_iff]
        omega
      have hfilter : chunks.filter (·.overlaps wanted) = [c] := by
        rw [filter_overlaps_of_mem hverify hc (Nat.le_of_lt hstart) (by omega)]
        exact List.filter_cons_of_pos hoverlaps
      have hslices : slicesFrom wanted 0 [c] =
          [⟨0, c.index, c.start, ⟨wanted.start - c.start, wanted.start - c.start⟩⟩] := by
        rw [slicesFrom, slicesFrom, ChunkSlice.ofChunk, Nat.max_eq_left (Nat.le_of_lt hstart),
          Nat.min_eq_left (by omega), hempty]
      rw [mapRange_of_ne_nil hresolve (by rw [hfilter, hslices]; exact List.cons_ne_nil _ _), hfilter, hslices]
    · intro hstart
      have hoverlaps : ¬ c.overlaps wanted = true := by
        rw [Chunk.overlaps_iff]
        omega
      have hfilter : chunks.filter (·.overlaps wanted) = [] := by
        have hle' := hle c hc
        rw [filter_overlaps_of_mem hverify hc (by omega) (by omega)]
        exact List.filter_cons_of_neg hoverlaps
      simp only [mapRange, hresolve, hfilter, slicesFrom]

theorem mapRange_partition_twoChunks :
    let chunks : List Chunk := [⟨0, 0, 3, "a", "", false⟩, ⟨1, 3, 5, "b", "", false⟩]
    RangeRequest.Signed ⟨1, .bytes 3⟩ ∧ 5 < wordLimit ∧ Listing.verify chunks 5 = .ok () ∧
      RangeRequest.resolve ⟨1, .bytes 3⟩ 5 = .ok ⟨1, 4⟩ ∧
      ∃ slices, mapRange chunks 5 ⟨1, .bytes 3⟩ = .ok slices ∧ Partition chunks ⟨1, 4⟩ slices := by
  intro chunks
  have hsigned : RangeRequest.Signed ⟨1, .bytes 3⟩ := by
    refine ⟨by decide, ?_⟩
    rintro count ⟨⟩
    decide
  have hword : 5 < wordLimit := by decide
  have hverify : Listing.verify chunks 5 = .ok () := rfl
  have hresolve : RangeRequest.resolve ⟨1, .bytes 3⟩ 5 = .ok ⟨1, 4⟩ := rfl
  obtain ⟨-, -, -, hcut⟩ := mapRange_partition hsigned hword
  obtain ⟨hsome, -, -⟩ := hcut chunks ⟨1, 4⟩ hverify hresolve
  exact ⟨hsigned, hword, hverify, hresolve, hsome (by decide)⟩

end ChunkedStorage
