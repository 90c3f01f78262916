import ChunkedStorage.Proofs.Tiling

/-!
# Slices of a range

The chunks of a listing that overlap a wanted span are consecutive, and their slices tile the span
(`slicesFrom_tiles`).  So a reader made for a range holds slices that cover the range, each of them cut from the chunk
that its index leads to (`rangeRead_slicing`).
-/

namespace ChunkedStorage

/-! ### Overlapping chunks -/

theorem Chunk.overlaps_iff {c : Chunk} {wanted : Span} :
    c.overlaps wanted = true ↔ c.start < wanted.stop ∧ wanted.start < c.stop := by
  simp [overlaps]

/-- Chunks that end before a span, or start behind it, do not overlap it. -/
theorem filter_overlaps_eq_nil {lo hi : Nat} {wanted : Span} {chunks : List Chunk}
    (h : Tiles lo (chunks.map Chunk.span) hi) (houtside : wanted.stop ≤ lo ∨ hi ≤ wanted.start) :
    chunks.filter (·.overlaps wanted) = [] := by
  rw [List.filter_eq_nil_iff]
  intro c hc
  have hlo : lo ≤ c.start := h.lo_le_start c.span (List.mem_map_of_mem hc)
  have hhi : c.stop ≤ hi := (h.inside c.span (List.mem_map_of_mem hc)).2
  rw [Chunk.overlaps_iff]
  omega

private theorem index_of_inside {lo hi k : Nat} {wanted : Span} {chunks : List Chunk}
    (h : Tiles lo (chunks.map Chunk.span) hi) (hlo : wanted.start < lo)
    (hk : ∀ (i : Nat) (c : Chunk), chunks[i]? = some c → c.index = k + i) :
    ∀ (j : Nat) (c : Chunk), (chunks.filter (·.overlaps wanted))[j]? = some c → c.index = k + j := by
  induction chunks generalizing lo k with
  | nil => simp
  | cons c rest ih =>
    obtain ⟨hstart, hle, hrest⟩ := id h
    simp only [Chunk.span] at hstart hle hrest
    -- from the first chunk that starts behind the span on none overlaps it
    by_cases hstop : wanted.stop ≤ lo
    · rw [filter_overlaps_eq_nil h (.inl hstop)]
      simp
    · have hc : c.overlaps wanted = true := by
        rw [Chunk.overlaps_iff]
        omega
      rw [List.filter_cons_of_pos (p := (Chunk.overlaps · wanted)) hc]
      intro j c' hj
      cases j with
      | zero => exact hk 0 c' (by simpa using hj)
      | succ j =>
        have hrest' : ∀ (i : Nat) (c : Chunk), rest[i]? = some c → c.index = (k + 1) + i := by
          intro i c hi
          have := hk (i + 1) c (by simpa using hi)
          omega
        have := ih hrest (by omega) hrest' j c' (by simpa using hj)
        omega

/-- The chunks that overlap a span follow one another. -/
theorem index_filter_overlaps {lo hi k : Nat} {wanted : Span} {chunks : List Chunk}
    (h : Tiles lo (chunks.map Chunk.span) hi)
    (hk : ∀ (i : Nat) (c : Chunk), chunks[i]? = some c → c.index = k + i) :
    ∃ first, ∀ (j : Nat) (c : Chunk),
      (chunks.filter (·.overlaps wanted))[j]? = some c → c.index = first + j := by
  induction chunks generalizing lo k with
  | nil => exact ⟨0, by simp⟩
  | cons c rest ih =>
    obtain ⟨hstart, hle, hrest⟩ := h
    have hrest' : ∀ (i : Nat) (c : Chunk), rest[i]? = some c → c.index = (k + 1) + i := by
      intro i c hi
      have := hk (i + 1) c (by simpa using hi)
      omega
    by_cases hc : c.overlaps wanted = true
    · rw [List.filter_cons_of_pos (p := (Chunk.overlaps · wanted)) hc]
      refine ⟨k, ?_⟩
      intro j c' hj
      cases j with
      | zero => exact hk 0 c' (by simpa using hj)
      | succ j =>
        -- the chunks behind the first one start inside the span
        have := index_of_inside hrest (Chunk.overlaps_iff.1 hc).2 hrest' j c' (by simpa using hj)
        omega
    · rw [List.filter_cons_of_neg (p := (Chunk.overlaps · wanted)) hc]
      exact ih hrest hrest'

/-! ### Their slices -/

theorem getElem?_slicesFrom (wanted : Span) (position : Nat) (chunks : List Chunk) (j : Nat) :
    (slicesFrom wanted position chunks)[j]? = chunks[j]?.map (.ofChunk wanted (position + j)) := by
  induction chunks generalizing position j with
  | nil => rfl
  | cons c rest ih =>
    cases j with
    | zero => rfl
    | succ j =>
      simp only [slicesFrom, List.getElem?_cons_succ, ih]
      rw [Nat.add_assoc, Nat.add_comm 1 j]

theorem exists_of_mem_slicesFrom {wanted : Span} {position : Nat} {chunks : List Chunk} {slice : ChunkSlice}
    (h : slice ∈ slicesFrom wanted position chunks) : ∃ c ∈ chunks, slice = .ofChunk wanted slice.position c := by
  obtain ⟨j, hj⟩ := List.mem_iff_getElem?.1 h
  rw [getElem?_slicesFrom] at hj
  obtain ⟨c, hc, rfl⟩ := Option.map_eq_some_iff.1 hj
  exact ⟨c, List.mem_of_getElem? hc, rfl⟩

private theorem logicalRange_ofChunk {wanted : Span} {position : Nat} {c : Chunk}
    (hc : c.overlaps wanted = true) (hle : c.start ≤ c.stop) :
    (ChunkSlice.ofChunk wanted position c).logicalRange = ⟨max wanted.start c.start, min wanted.stop c.stop⟩ := by
  rw [Chunk.overlaps_iff] at hc
  simp only [ChunkSlice.logicalRange, ChunkSlice.ofChunk, Span.mk.injEq]
  omega

/-- The slices of the chunks that tile an interval tile the part of it that lies inside the wanted span. -/
theorem slicesFrom_tiles {lo hi : Nat} {wanted : Span} (position : Nat) {chunks : List Chunk}
    (h : Tiles lo (chunks.map Chunk.span) hi) (hwanted : wanted.start ≤ wanted.stop) :
    Tiles (min (max lo wanted.start) wanted.stop)
      ((slicesFrom wanted position (chunks.filter (·.overlaps wanted))).map ChunkSlice.logicalRange)
      (min (max hi wanted.start) wanted.stop) := by
  induction chunks generalizing lo position with
  | nil =>
    have : lo = hi := h
    simp [slicesFrom, Tiles, this]
  | cons c rest ih =>
    obtain ⟨hstart, hle, hrest⟩ := h
    simp only [Chunk.span] at hstart hle hrest
    by_cases hc : c.overlaps wanted = true
    · rw [List.filter_cons_of_pos (p := (Chunk.overlaps · wanted)) hc]
      simp only [slicesFrom, List.map_cons, logicalRange_ofChunk hc hle]
      rw [Chunk.overlaps_iff] at hc
      -- the slice ends where the part of the rest starts
      have hmeet : min wanted.stop c.stop = min (max c.stop wanted.start) wanted.stop := by omega
      refine ⟨?_, ?_, ?_⟩
      · simp only
        omega
      · simp only
        omega
      · simp only [hmeet]
        exact ih (position + 1) hrest
    · rw [List.filter_cons_of_neg (p := (Chunk.overlaps · wanted)) hc]
      rw [Chunk.overlaps_iff] at hc
      have hsame : min (max lo wanted.start) wanted.stop = min (max c.stop wanted.start) wanted.stop := by omega
      rw [hsame]
      exact ih position hrest

theorem mapRange_of_ne_nil {chunks : List Chunk} {totalSize : Nat} {request : RangeRequest} {wanted : Span}
    (h : request.resolve totalSize = .ok wanted) (hne : slicesFrom wanted 0 (chunks.filter (·.overlaps wanted)) ≠ []) :
    mapRange chunks totalSize request = .ok (slicesFrom wanted 0 (chunks.filter (·.overlaps wanted))) := by
  simp only [mapRange, h]

theorem eq_slicesFrom_of_mapRange {chunks : List Chunk} {totalSize : Nat} {request : RangeRequest} {wanted : Span}
    {slices : List ChunkSlice} (h : request.resolve totalSize = .ok wanted)
    (hmap : mapRange chunks totalSize request = .ok slices) :
    slices = slicesFrom wanted 0 (chunks.filter (·.overlaps wanted)) := by
  simp only [mapRange, h] at hmap
  split at hmap
  · cases hmap
  · exact (Except.ok.inj hmap).symm

/-! ### The slices of a reader -/

/-- Slices that together are a wanted span, each of them a part of the chunk at its index. -/
structure Slicing (chunks : List Chunk) (wanted : Span) (slices : List ChunkSlice) : Prop where
  tiles : slices ≠ [] → Tiles wanted.start (slices.map ChunkSlice.logicalRange) wanted.stop
  empty : slices = [] → wanted.length = 0
  chunk : ∀ slice ∈ slices, ∃ c, chunks[slice.index]? = some c ∧ c.index = slice.index ∧
    slice.logicalStart = c.start ∧ slice.range.start ≤ slice.range.stop ∧ slice.range.stop ≤ c.length
  order : ∃ first, ∀ (j : Nat) (slice : ChunkSlice), slices[j]? = some slice →
    slice.position = j ∧ slice.index = first + j

theorem Slicing.nil (chunks : List Chunk) {wanted : Span} (h : wanted.length = 0) : Slicing chunks wanted [] where
  tiles := fun hne => absurd rfl hne
  empty := fun _ => h
  chunk := by simp
  order := ⟨0, by simp⟩

theorem Slicing.ne_nil {chunks : List Chunk} {wanted : Span} {slices : List ChunkSlice}
    (h : Slicing chunks wanted slices) (hwanted : wanted.start < wanted.stop) : slices ≠ [] := by
  intro hnil
  have hlength := h.empty hnil
  rw [Span.length] at hlength
  omega

theorem RangeRequest.resolve_ok {request : RangeRequest} {totalSize : Nat} {wanted : Span}
    (h : request.resolve totalSize = .ok wanted) : wanted.start < totalSize ∧ wanted.stop ≤ totalSize := by
  simp only [resolve] at h
  split at h
  · cases h
  · split at h
    · cases h
    · next hstart =>
      cases hlength : request.length with
      | toEnd =>
        simp only [hlength, Except.ok.injEq] at h
        subst h
        exact ⟨Nat.lt_of_not_le hstart, Nat.le_refl _⟩
      | bytes count =>
        simp only [hlength] at h
        split at h
        · cases h
        · cases h
          exact ⟨Nat.lt_of_not_le hstart, Nat.min_le_right ..⟩

theorem RangeRequest.resolve_error {request : RangeRequest} {totalSize : Nat} {failure : Failure}
    (h : request.resolve totalSize = .error failure) :
    failure = .invalidRange request.start request.length.text totalSize := by
  simp only [resolve] at h
  split at h
  · exact (Except.error.inj h).symm
  · split at h
    · exact (Except.error.inj h).symm
    · cases hlength : request.length with
      | toEnd =>
        rw [hlength] at h
        cases h
      | bytes count =>
        simp only [hlength] at h
        split at h
        · exact (Except.error.inj h).symm
        · cases h

theorem slicing_slicesFrom {chunks : List Chunk} {totalSize : Nat} {wanted : Span}
    (h : Listing.verify chunks totalSize = .ok ()) (hstop : wanted.stop ≤ totalSize)
    (hwanted : wanted.start < wanted.stop) :
    Slicing chunks wanted (slicesFrom wanted 0 (chunks.filter (·.overlaps wanted))) := by
  obtain ⟨htiles, hindices⟩ := Listing.verify_tiles h
  have hslices : Tiles wanted.start
      ((slicesFrom wanted 0 (chunks.filter (·.overlaps wanted))).map ChunkSlice.logicalRange) wanted.stop := by
    have := slicesFrom_tiles 0 htiles (Nat.le_of_lt hwanted)
    rwa [show min (max 0 wanted.start) wanted.stop = wanted.start by omega,
      show min (max totalSize wanted.start) wanted.stop = wanted.stop by omega] at this
  obtain ⟨first, hfirst⟩ : ∃ first, ∀ (j : Nat) (c : Chunk),
      (chunks.filter (·.overlaps wanted))[j]? = some c → c.index = first + j :=
    index_filter_overlaps (k := 0) htiles (by simpa using hindices)
  refine ⟨fun _ => hslices, ?_, ?_, first, ?_⟩
  · intro hnil
    rw [hnil] at hslices
    have : wanted.start = wanted.stop := hslices
    omega
  · intro slice hslice
    obtain ⟨c, hc, hslice⟩ := exists_of_mem_slicesFrom hslice
    obtain ⟨hmem, hoverlaps⟩ := List.mem_filter.1 hc
    rw [Chunk.overlaps_iff] at hoverlaps
    rw [hslice]
    refine ⟨c, Listing.getElem?_index h hmem, rfl, rfl, ?_, ?_⟩
    · simp only [ChunkSlice.ofChunk]
      omega
    · simp only [ChunkSlice.ofChunk, Chunk.length]
      omega
  · intro j slice hj
    rw [getElem?_slicesFrom] at hj
    obtain ⟨c, hc, rfl⟩ := Option.map_eq_some_iff.1 hj
    exact ⟨Nat.zero_add j, hfirst j c hc⟩

namespace ChunkedObject

variable {σ β : Type} {o : ChunkedObject} {b : Backend σ β} {request : RangeRequest} {world : σ}

/-- A range that can be resolved can be read, by a reader of slices that are the range. -/
theorem rangeRead_slicing {wanted : Span} (hopen : b.isClosed world = false)
    (h : request.resolve o.totalSize = .ok wanted) :
    ∃ slices, o.rangeRead b request world = .ok (.ofSlices o.chunks slices wanted) ∧
      Slicing o.chunks wanted slices ∧ (slices = [] ∨ mapRange o.chunks o.totalSize request = .ok slices) := by
  obtain ⟨-, hstop⟩ := RangeRequest.resolve_ok h
  by_cases hempty : wanted.isEmpty = true
  · refine ⟨[], by simp [rangeRead, hopen, h, hempty], .nil _ ?_, .inl rfl⟩
    simp only [Span.isEmpty, decide_eq_true_eq] at hempty
    simp only [Span.length]
    omega
  · have hwanted : wanted.start < wanted.stop := by simpa [Span.isEmpty] using hempty
    have hslicing := slicing_slicesFrom o.verify_chunks hstop hwanted
    have hmap := mapRange_of_ne_nil h (hslicing.ne_nil hwanted)
    refine ⟨_, ?_, hslicing, .inr hmap⟩
    simp [rangeRead, hopen, h, hempty, hmap]

/-- A reader of a range comes from a range that can be resolved, and its slices are the range. -/
theorem slicing_of_rangeRead {r : Reader β} (h : o.rangeRead b request world = .ok r) :
    ∃ wanted slices, request.resolve o.totalSize = .ok wanted ∧ r = .ofSlices o.chunks slices wanted ∧
      Slicing o.chunks wanted slices ∧ (slices = [] ∨ mapRange o.chunks o.totalSize request = .ok slices) := by
  by_cases hclosed : b.isClosed world = true
  · simp [rangeRead, hclosed] at h
  · rw [Bool.not_eq_true] at hclosed
    cases hresolve : request.resolve o.totalSize with
    | error failure => simp [rangeRead, hclosed, hresolve] at h
    | ok wanted =>
      obtain ⟨slices, hread, hslicing, hmap⟩ := rangeRead_slicing hclosed hresolve
      rw [hread] at h
      cases h
      exact ⟨wanted, slices, rfl, rfl, hslicing, hmap⟩

end ChunkedObject

end ChunkedStorage
