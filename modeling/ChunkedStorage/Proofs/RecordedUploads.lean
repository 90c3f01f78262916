import ChunkedStorage.Proofs.Plans
import ChunkedStorage.Proofs.StoreCalls

/-!
# Records of uploads

Whatever the store answers, the records of an upload that succeeds have the bounds that were planned for its source
(`UploadTarget.recorded_of_uploadStaged`), and so they are a listing of the file whose numbers are words
(`UploadTarget.Recorded.verified`, `UploadTarget.Recorded.words`).
-/

namespace ChunkedStorage

/-- Nothing about a planned chunk is larger than the file. -/
theorem ChunkingConfig.le_of_mem_bounds {c : ChunkingConfig} (hsize : 0 < c.maxChunkSize) {totalSize : Nat}
    {b : ChunkBounds} (hb : b ∈ c.bounds totalSize) :
    b.index ≤ totalSize ∧ b.start ≤ totalSize ∧ b.stop ≤ totalSize := by
  rcases Nat.lt_or_ge totalSize c.chunkThreshold with hsmall | hlarge
  · rw [bounds_of_lt hsmall, List.mem_singleton] at hb
    subst hb
    exact ⟨Nat.zero_le _, Nat.zero_le _, Nat.le_refl _⟩
  · let l : Layout := ⟨totalSize, c.maxChunkSize, hsize⟩
    rw [bounds_of_le hsize hlarge] at hb
    obtain ⟨i, hi⟩ := List.mem_iff_getElem?.1 hb
    obtain ⟨hcount, rfl⟩ := l.getElem?_bounds.1 hi
    have hindex := l.count_le_totalSize
    have hstart := l.lt_count_iff.1 hcount
    exact ⟨Nat.le_of_lt (Nat.lt_of_lt_of_le hcount hindex), Nat.le_of_lt hstart, Nat.min_le_right _ _⟩

namespace UploadTarget

variable {σ : Type} {t : UploadTarget σ} {c : ChunkingConfig} {name : String} {source : StagedSource}
variable {d d' : Disk} {world world' : σ} {uploaded : UploadedFile}

/-- What is recorded of an upload: the file, and chunks with the planned bounds. -/
structure Recorded (c : ChunkingConfig) (name : String) (source : StagedSource) (uploaded : UploadedFile) : Prop where
  valid : c.validate = .ok ()
  /-- An empty file is not stored in chunks. -/
  nonempty : source.length ≠ 0 ∨ c.chunkThreshold ≠ 0
  file : uploaded.file = ⟨name, source.length, c.chunkSize source.length,
    requiresChunking source.length c.chunkThreshold, source.checksum?, false⟩
  bounds : uploaded.chunks.map Chunk.bounds = c.bounds source.length

private theorem of_storeAndRecord {chunked : Bool} {chunkSize : Nat} {bounds : List ChunkBounds}
    (h : t.storeAndRecord name chunked chunkSize source bounds d world = (.ok uploaded, d', world')) :
    uploaded.file = ⟨name, source.length, chunkSize, chunked, source.checksum?, false⟩ ∧
      uploaded.chunks.map Chunk.bounds = bounds := by
  unfold storeAndRecord at h
  split at h
  · cases h
  · next chunks d₁ world₁ hchunks =>
    obtain ⟨hbounds, -⟩ := records_of_storeChunks hchunks
    simp only [Prod.mk.injEq] at h
    obtain ⟨hfile, rfl⟩ := eq_of_record (Prod.ext h.1 rfl)
    exact ⟨hfile, hbounds⟩

/-- An upload that succeeds has recorded what was planned. -/
theorem recorded_of_uploadStaged (h : t.uploadStaged c name source d world = (.ok uploaded, d', world')) :
    Recorded c name source uploaded := by
  unfold uploadStaged at h
  split at h
  · cases h
  · next hvalid =>
    have hsize := ChunkingConfig.maxChunkSize_pos hvalid
    have hsome : source.length ≠ 0 ∨ c.chunkThreshold ≠ 0 := by
      by_contra hnone
      rw [not_or, not_not, not_not] at hnone
      have hchunked : requiresChunking source.length c.chunkThreshold = true := by
        simp [requiresChunking, hnone]
      rw [uploadSource, if_pos hchunked, uploadChunked, if_pos hnone.1] at h
      cases h
    rw [t.uploadSource_eq hsize source hsome] at h
    obtain ⟨hfile, hbounds⟩ := of_storeAndRecord h
    exact ⟨hvalid, hsome, hfile, hbounds⟩

namespace Recorded

theorem verified (h : Recorded c name source uploaded) (hlength : source.length < wordLimit) :
    Listing.verify uploaded.chunks uploaded.file.totalSize = .ok () := by
  rw [h.file]
  exact ChunkingConfig.verify_bounds h.valid h.nonempty hlength h.bounds

/-- The numbers of the chunks are words. -/
theorem words (h : Recorded c name source uploaded) (hlength : source.length < wordLimit) :
    ∀ chunk ∈ uploaded.chunks, chunk.index < wordLimit ∧ chunk.start < wordLimit ∧ chunk.stop < wordLimit := by
  intro chunk hchunk
  have hplanned : chunk.bounds ∈ c.bounds source.length := h.bounds ▸ List.mem_map_of_mem hchunk
  obtain ⟨hindex, hstart, hstop⟩ := ChunkingConfig.le_of_mem_bounds (ChunkingConfig.maxChunkSize_pos h.valid) hplanned
  exact ⟨Nat.lt_of_le_of_lt hindex hlength, Nat.lt_of_le_of_lt hstart hlength, Nat.lt_of_le_of_lt hstop hlength⟩

end Recorded

end UploadTarget

end ChunkedStorage
