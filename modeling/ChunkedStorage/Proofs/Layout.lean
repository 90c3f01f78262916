import ChunkedStorage.Upload
import ChunkedStorage.Proofs.Tiling

/-!
# Planned chunks

The bounds that are planned for an upload pass the check of a listing (`ChunkingConfig.verify_bounds`): the `i`-th chunk
starts after `i` full ones, and only the last one may be shorter.  An upload stores and records the chunks that are
planned (`UploadTarget.uploadSource_eq`).
-/

namespace ChunkedStorage

/-- The bounds of a chunk that is recorded. -/
def Chunk.bounds (c : Chunk) : ChunkBounds := ⟨c.index, c.start, c.stop⟩

/-! ### Layouts -/

namespace Layout

variable (l : Layout)

theorem lt_count_iff {i : Nat} : i < l.count ↔ i * l.maxChunkSize < l.totalSize := by
  have hpositive := l.maxChunkSize_pos
  have hstep : (i + 1) * l.maxChunkSize = i * l.maxChunkSize + l.maxChunkSize := Nat.succ_mul ..
  rw [Nat.lt_iff_add_one_le, count, Nat.le_div_iff_mul_le hpositive, hstep]
  omega

theorem count_ne_zero (h : l.totalSize ≠ 0) : l.count ≠ 0 := by
  have : 0 < l.count := by
    rw [lt_count_iff]
    omega
  omega

/-- The number of chunks, the last of which starts at the end of the file if all before it are full. -/
theorem count_of_le {n : Nat} (hinside : n * l.maxChunkSize ≤ l.totalSize)
    (hend : l.totalSize ≤ (n + 1) * l.maxChunkSize) :
    n * l.maxChunkSize < l.totalSize ∧ l.count = n + 1 ∨ n * l.maxChunkSize = l.totalSize ∧ l.count = n := by
  have hbefore := l.lt_count_iff (i := n)
  have hbehind := l.lt_count_iff (i := n + 1)
  by_cases hlast : n * l.maxChunkSize < l.totalSize
  · left
    omega
  · right
    refine ⟨by omega, ?_⟩
    cases n with
    | zero => omega
    | succ n =>
      have hpositive := l.maxChunkSize_pos
      have hstep : (n + 1) * l.maxChunkSize = n * l.maxChunkSize + l.maxChunkSize := Nat.succ_mul ..
      have hfull := l.lt_count_iff (i := n)
      omega

theorem plan_eq : plan l.totalSize l.maxChunkSize = .ok l.bounds := by
  rw [plan, Layout.create, dif_pos l.maxChunkSize_pos]
  rfl

/-- A chunk ends where the next one would start, or with the file. -/
theorem stop_boundsAt (htotal : l.totalSize < wordLimit) (i : Nat) :
    (l.boundsAt i).stop = min ((i + 1) * l.maxChunkSize) l.totalSize := by
  have hstep : (i + 1) * l.maxChunkSize = i * l.maxChunkSize + l.maxChunkSize := Nat.succ_mul ..
  simp only [boundsAt, saturatingAdd]
  omega

/-- A chunk that ends within the file is a full one. -/
theorem boundsAt_of_le (htotal : l.totalSize < wordLimit) {i : Nat} (h : (i + 1) * l.maxChunkSize ≤ l.totalSize) :
    l.boundsAt i = ⟨i, i * l.maxChunkSize, (i + 1) * l.maxChunkSize⟩ := by
  have hstop := l.stop_boundsAt htotal i
  rw [Nat.min_eq_left h] at hstop
  rw [← hstop]
  rfl

/-- A chunk behind which no full one would fit ends with the file. -/
theorem boundsAt_of_ge (htotal : l.totalSize < wordLimit) {i : Nat} (h : l.totalSize ≤ (i + 1) * l.maxChunkSize) :
    l.boundsAt i = ⟨i, i * l.maxChunkSize, l.totalSize⟩ := by
  have hstop := l.stop_boundsAt htotal i
  rw [Nat.min_eq_right h] at hstop
  rw [← hstop]
  rfl

/-- Chunks of the size that they are checked against pass the check if they lie within the bounds of the layout, from
some chunk on to one that starts within the file and reaches its end. -/
theorem checkFrom_iff (htotal : l.totalSize < wordLimit) {i : Nat} {c : Chunk} {rest : List Chunk} :
    Listing.checkFrom l.maxChunkSize i (i * l.maxChunkSize) (c :: rest) = .ok l.totalSize ↔
      (c :: rest).map Chunk.bounds = (List.range' i (rest.length + 1)).map l.boundsAt ∧
        (i + rest.length) * l.maxChunkSize ≤ l.totalSize ∧
        l.totalSize ≤ (i + rest.length + 1) * l.maxChunkSize := by
  have hstep : (i + 1) * l.maxChunkSize = i * l.maxChunkSize + l.maxChunkSize := Nat.succ_mul ..
  rw [Listing.checkFrom_cons_ok_iff, List.range'_succ, List.map_cons, List.map_cons, List.cons.injEq]
  induction rest generalizing i c with
  | nil =>
    simp only [Listing.checkFrom, List.length_nil, List.range'_zero, List.map_nil, Nat.add_zero, Except.ok.injEq,
      Chunk.length, and_true]
    constructor
    · rintro ⟨⟨hindex, hstart, hle, -, hsize⟩, hstop⟩
      have hend : l.totalSize ≤ (i + 1) * l.maxChunkSize := by omega
      rw [l.boundsAt_of_ge htotal hend]
      exact ⟨by rw [Chunk.bounds, hindex, hstart, hstop], by omega, hend⟩
    · rintro ⟨hc, hle, hend⟩
      rw [l.boundsAt_of_ge htotal hend, Chunk.bounds, ChunkBounds.mk.injEq] at hc
      obtain ⟨hindex, hstart, hstop⟩ := hc
      exact ⟨⟨hindex, hstart, by omega, by simp, by omega⟩, hstop⟩
  | cons next rest ih =>
    have hplaces : i + (next :: rest).length = i + 1 + rest.length := by
      rw [List.length_cons]
      omega
    have hnext : (i + 1 + 1) * l.maxChunkSize = (i + 1) * l.maxChunkSize + l.maxChunkSize := Nat.succ_mul ..
    rw [hplaces, List.length_cons, List.map_cons, List.range'_succ, List.map_cons, List.cons.injEq]
    -- all but the last chunk are full, so that the next one starts where the layout has it
    constructor
    · rintro ⟨⟨hindex, hstart, hle, heven, -⟩, hrest⟩
      have hlength := heven (List.cons_ne_nil _ _)
      have hstop : c.stop = (i + 1) * l.maxChunkSize := by
        rw [Chunk.length] at hlength
        omega
      rw [hstop, Listing.checkFrom_cons_ok_iff] at hrest
      obtain ⟨hbounds, hinside, hend⟩ := (ih hnext).1 hrest
      have hfull : (i + 1) * l.maxChunkSize ≤ l.totalSize :=
        Nat.le_trans (Nat.mul_le_mul_right _ (Nat.le_add_right _ _)) hinside
      refine ⟨⟨?_, hbounds⟩, hinside, hend⟩
      rw [l.boundsAt_of_le htotal hfull, Chunk.bounds, hindex, hstart, hstop]
    · rintro ⟨⟨hc, hbounds⟩, hinside, hend⟩
      have hfull : (i + 1) * l.maxChunkSize ≤ l.totalSize :=
        Nat.le_trans (Nat.mul_le_mul_right _ (Nat.le_add_right _ _)) hinside
      rw [l.boundsAt_of_le htotal hfull, Chunk.bounds, ChunkBounds.mk.injEq] at hc
      obtain ⟨hindex, hstart, hstop⟩ := hc
      have hlength : c.length = l.maxChunkSize := by
        rw [Chunk.length]
        omega
      refine ⟨⟨hindex, hstart, by omega, fun _ => hlength, Nat.le_of_eq hlength⟩, ?_⟩
      rw [hstop, Listing.checkFrom_cons_ok_iff]
      exact (ih hnext).2 ⟨hbounds, hinside, hend⟩

end Layout

/-- One chunk that holds all bytes is a listing of the file. -/
theorem Listing.verify_whole {chunks : List Chunk} {totalSize : Nat}
    (hchunks : chunks.map Chunk.bounds = [⟨0, 0, totalSize⟩]) : verify chunks totalSize = .ok () := by
  obtain ⟨chunk, rfl, hchunk⟩ := List.map_eq_singleton_iff.1 hchunks
  have hindex : chunk.index = 0 := congrArg ChunkBounds.index hchunk
  have hstart : chunk.start = 0 := congrArg ChunkBounds.start hchunk
  have hstop : chunk.stop = totalSize := congrArg ChunkBounds.stop hchunk
  simp [verify, checkFrom, checkChunk, Chunk.length, hindex, hstart, hstop]

namespace Layout

variable (l : Layout)

/-- Chunks within the bounds of a layout are a listing of the file, if the last of them starts within the file and
reaches its end. -/
theorem verify_of_bounds (htotal : l.totalSize < wordLimit) {n : Nat} {chunks : List Chunk}
    (hchunks : chunks.map Chunk.bounds = (List.range (n + 1)).map l.boundsAt)
    (hinside : n * l.maxChunkSize ≤ l.totalSize) (hend : l.totalSize ≤ (n + 1) * l.maxChunkSize) :
    Listing.verify chunks l.totalSize = .ok () := by
  by_cases hone : n = 0
  · subst hone
    rw [Nat.zero_add] at hend
    apply Listing.verify_whole
    rw [hchunks, List.range_one, List.map_singleton, l.boundsAt_of_ge htotal (by omega), Nat.zero_mul]
  · cases chunks with
    | nil => simp at hchunks
    | cons first rest =>
      have hlength : rest.length = n := by
        have := congrArg List.length hchunks
        simpa using this
      rw [List.range_eq_range', ← hlength] at hchunks
      -- there is another chunk, so the first one is full
      have hfull : (0 + 1) * l.maxChunkSize ≤ l.totalSize :=
        Nat.le_trans (Nat.mul_le_mul_right _ (by omega)) hinside
      have hfirst : first.length = l.maxChunkSize := by
        rw [List.range'_succ, List.map_cons, List.map_cons, List.cons.injEq, l.boundsAt_of_le htotal hfull] at hchunks
        have hstart : first.start = 0 * l.maxChunkSize := congrArg ChunkBounds.start hchunks.1
        have hstop : first.stop = (0 + 1) * l.maxChunkSize := congrArg ChunkBounds.stop hchunks.1
        rw [Chunk.length, hstart, hstop]
        omega
      have hpositive := l.maxChunkSize_pos
      have hcheck := (l.checkFrom_iff htotal (i := 0)).2 ⟨hchunks, by rwa [Nat.zero_add, hlength],
        by rwa [Nat.zero_add, hlength]⟩
      rw [Nat.zero_mul] at hcheck
      rw [Listing.verify_cons_ok_iff, hfirst]
      exact ⟨fun hzero => by omega, hcheck⟩

/-- Chunks within the planned bounds are a listing of the file. -/
theorem verify_bounds (htotal : l.totalSize < wordLimit) (hne : l.totalSize ≠ 0) {chunks : List Chunk}
    (hchunks : chunks.map Chunk.bounds = l.bounds) : Listing.verify chunks l.totalSize = .ok () := by
  obtain ⟨n, hcount⟩ := Nat.exists_eq_succ_of_ne_zero (l.count_ne_zero hne)
  have hinside : n * l.maxChunkSize < l.totalSize := l.lt_count_iff.1 (by omega)
  have hend : ¬ (n + 1) * l.maxChunkSize < l.totalSize := (not_congr l.lt_count_iff).1 (by omega)
  refine l.verify_of_bounds htotal (n := n) ?_ (by omega) (by omega)
  rw [hchunks, bounds, hcount]

end Layout

/-! ### Configurations -/

namespace ChunkingConfig

/-- The bounds that an upload is planned with. -/
def bounds (c : ChunkingConfig) (totalSize : Nat) : List ChunkBounds :=
  if requiresChunking totalSize c.chunkThreshold then ((plan totalSize c.maxChunkSize).toOption).getD []
  else [⟨0, 0, totalSize⟩]

/-- The chunk size that an upload is recorded with. -/
def chunkSize (c : ChunkingConfig) (totalSize : Nat) : Nat :=
  if requiresChunking totalSize c.chunkThreshold then c.maxChunkSize else totalSize

variable {c : ChunkingConfig} {totalSize : Nat}

theorem requiresChunking_iff : requiresChunking totalSize c.chunkThreshold = true ↔ c.chunkThreshold ≤ totalSize := by
  simp [requiresChunking]

theorem bounds_of_le (hsize : 0 < c.maxChunkSize) (hlarge : c.chunkThreshold ≤ totalSize) :
    c.bounds totalSize = (Layout.mk totalSize c.maxChunkSize hsize).bounds := by
  have hplan := (Layout.mk totalSize c.maxChunkSize hsize).plan_eq
  rw [bounds, if_pos (requiresChunking_iff.2 hlarge), hplan]
  rfl

theorem bounds_of_lt (hsmall : totalSize < c.chunkThreshold) : c.bounds totalSize = [⟨0, 0, totalSize⟩] := by
  rw [bounds, if_neg (mt requiresChunking_iff.1 (Nat.not_le.2 hsmall))]

theorem maxChunkSize_pos (hvalid : c.validate = .ok ()) : 0 < c.maxChunkSize := by
  unfold validate at hvalid
  split at hvalid
  · cases hvalid
  · next hpositive => exact Nat.pos_of_ne_zero hpositive

/-- What is stored within the planned bounds is a listing of the file. -/
theorem verify_bounds (hvalid : c.validate = .ok ()) (hsome : totalSize ≠ 0 ∨ c.chunkThreshold ≠ 0)
    (htotal : totalSize < wordLimit) {chunks : List Chunk} (hchunks : chunks.map Chunk.bounds = c.bounds totalSize) :
    Listing.verify chunks totalSize = .ok () := by
  rcases Nat.lt_or_ge totalSize c.chunkThreshold with hsmall | hlarge
  · rw [bounds_of_lt hsmall] at hchunks
    exact Listing.verify_whole hchunks
  · have hne : totalSize ≠ 0 := by omega
    rw [bounds_of_le (maxChunkSize_pos hvalid) hlarge] at hchunks
    exact Layout.verify_bounds _ htotal hne hchunks

end ChunkingConfig

/-- An upload stores and records the chunks that are planned for its source. -/
theorem UploadTarget.uploadSource_eq {σ : Type} (t : UploadTarget σ) {c : ChunkingConfig} (hsize : 0 < c.maxChunkSize)
    (source : StagedSource) (hsome : source.length ≠ 0 ∨ c.chunkThreshold ≠ 0) (name : String) (d : Disk) (world : σ) :
    t.uploadSource c name source d world =
      t.storeAndRecord name (requiresChunking source.length c.chunkThreshold) (c.chunkSize source.length) source
        (c.bounds source.length) d world := by
  rw [uploadSource, ChunkingConfig.chunkSize]
  rcases Nat.lt_or_ge source.length c.chunkThreshold with hsmall | hlarge
  · have hsingle : requiresChunking source.length c.chunkThreshold = false := by
      simpa [requiresChunking] using hsmall
    rw [hsingle, ChunkingConfig.bounds_of_lt hsmall]
    rfl
  · have hne : source.length ≠ 0 := by omega
    have hplan := (Layout.mk source.length c.maxChunkSize hsize).plan_eq
    rw [ChunkingConfig.requiresChunking_iff.2 hlarge, ChunkingConfig.bounds_of_le hsize hlarge, if_pos rfl, if_pos rfl,
      uploadChunked, if_neg hne, hplan]

end ChunkedStorage
