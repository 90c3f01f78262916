import ChunkedStorage.Proofs.Manifests
import ChunkedStorage.Proofs.RecordedUploads
import ChunkedStorage.Proofs.ResultFiles

/-!
# Manifest files

A manifest is read back from its text and from every other text that gives it, and so the manifest that is written when
a file is stored holds the records of the upload, and opens (`Manifest.reads_back`).
-/

namespace ChunkedStorage

theorem ChunkedObject.create_ok {totalSize : Nat} {chunks : List Chunk}
    (h : Listing.verify chunks totalSize = .ok ()) : create totalSize chunks = .ok ⟨totalSize, chunks, h⟩ := by
  unfold create
  split
  · next failure hfailed =>
    rw [h] at hfailed
    cases hfailed
  · rfl

namespace UploadTarget.Recorded

variable {c : ChunkingConfig} {name : String} {source : StagedSource} {uploaded : UploadedFile}

/-- The records of an upload make a manifest whose numbers are words. -/
theorem wellFormed (h : Recorded c name source uploaded) (hlength : source.length < wordLimit)
    (hsize : c.maxChunkSize < wordLimit) : Manifest.WellFormed ⟨uploaded.file, uploaded.chunks⟩ where
  file := by
    rw [h.file]
    refine ⟨hlength, ?_⟩
    rw [ChunkingConfig.chunkSize]
    split
    · exact hsize
    · exact hlength
  chunks chunk hchunk := by
    obtain ⟨hindex, hstart, hstop⟩ := h.words hlength chunk hchunk
    exact ⟨hindex, hstart, hstop⟩

end UploadTarget.Recorded

namespace PutCommand

variable {p : PutCommand} {config : Config} {s s₁ s' : Session} {uploaded : UploadedFile}

theorem recorded_of_ok (h : p.upload config s = (.ok uploaded, s₁)) :
    ∃ source, StagedSource.ofPath s.disk p.file = .ok source ∧
      UploadTarget.Recorded config.chunking p.name source uploaded := by
  unfold upload at h
  split at h
  · cases h
  · next source hsource =>
    rcases hupload : (Session.target ⟨p.store⟩).uploadStaged config.chunking p.name source s.disk s with
      ⟨result, d, s₂⟩
    simp only [hupload, Prod.mk.injEq] at h
    obtain ⟨rfl, -⟩ := h
    exact ⟨source, hsource, UploadTarget.recorded_of_uploadStaged hupload⟩

/-- A file that is stored was uploaded, and its manifest was written. -/
theorem upload_of_run (hsound : s.disk.Sound) (h : p.run config s = (.ok (), s')) :
    ∃ uploaded s₁, p.upload config s = (.ok uploaded, s₁) ∧
      s'.disk.contentAt p.manifest = .ok (Text.encode (Manifest.render ⟨uploaded.file, uploaded.chunks⟩)) := by
  rcases hupload : p.upload config s with ⟨failure | uploaded, s₁⟩
  · simp [run, hupload] at h
  · rcases hwrite : s₁.disk.writeFile p.manifest (manifestOf uploaded) with fault | d
    · rw [run_of_unwritten hupload hwrite] at h
      cases h
    · obtain ⟨s'', hrun, hdisk, hcontent⟩ := run_of_written hsound hupload hwrite
      obtain rfl : s'' = s' := congrArg Prod.snd (hrun.symm.trans h)
      exact ⟨uploaded, s₁, rfl, hdisk ▸ hcontent⟩

end PutCommand

theorem GetCommand.readManifest_of_content {g : GetCommand} {d : Disk} {m : Manifest}
    (hcontent : d.contentAt g.manifest = .ok (Text.encode m.render)) (hm : m.WellFormed) :
    g.readManifest d = .ok m := by
  simp only [readManifest, hcontent, Manifest.parse_render hm]
  rfl

/-- Manifests are read back.  A manifest is got from the text that is written for it, and from every other text that
gives its records in some order, without what is understood and among keys that mean nothing.  When a file is stored,
its manifest is read as the records of the upload, which are a listing of the file. -/
theorem Manifest.reads_back :
    (∀ m : Manifest, m.WellFormed → parse (Text.decode (Text.encode m.render)) = .ok m ∧
      ∀ d s, m.IsDocument d → Json.IsText d s → parse s = .ok m) ∧
    ∀ (p : PutCommand) (config : Config) (s s' : Session), s.disk.Sound → config.chunking.maxChunkSize < wordLimit →
      (∀ source, StagedSource.ofPath s.disk p.file = .ok source → source.length < wordLimit) →
      p.run config s = (.ok (), s') →
      ∃ uploaded s₁, p.upload config s = (.ok uploaded, s₁) ∧ ∀ g : GetCommand, g.manifest = p.manifest →
        g.readManifest s'.disk = .ok ⟨uploaded.file, uploaded.chunks⟩ ∧
        ∃ o, ChunkedObject.create uploaded.file.totalSize uploaded.chunks = .ok o ∧
          o.totalSize = uploaded.file.totalSize ∧ o.chunks = uploaded.chunks := by
  refine ⟨fun m hm => ⟨parse_render hm, fun d s => parse_of_isText hm⟩, ?_⟩
  intro p config s s' hsound hsize hlength hrun
  obtain ⟨uploaded, s₁, hupload, hcontent⟩ := PutCommand.upload_of_run hsound hrun
  obtain ⟨source, hsource, hrecorded⟩ := PutCommand.recorded_of_ok hupload
  have hword := hlength source hsource
  refine ⟨uploaded, s₁, hupload, fun g hg => ⟨?_, _, ChunkedObject.create_ok (hrecorded.verified hword), rfl, rfl⟩⟩
  rw [← hg] at hcontent
  exact GetCommand.readManifest_of_content hcontent (hrecorded.wellFormed hword hsize)

/-- A manifest of the largest file, with characters that have to be escaped. -/
def Manifest.largest : Manifest :=
  ⟨⟨"\x01é\"\\𝄞", wordLimit - 1, wordLimit - 1, false, none, false⟩, [⟨0, 0, wordLimit - 1, "\n", "", true⟩]⟩

/-- Its file and its chunk in another order, without what is understood, and with a key that means nothing. -/
def Manifest.largestFile : Json.Value :=
  .object
    [ ("chunked", .boolean false), ("total_size", .number (wordLimit - 1)), ("owner", .list [.null]),
      ("chunk_size", .number (wordLimit - 1)), ("name", .text "\x01é\"\\𝄞") ]

def Manifest.largestChunk : Json.Value :=
  .object
    [ ("deleted", .boolean true), ("remote_ref", .text "\n"), ("checksum", .text ""), ("index", .number 0),
      ("end_offset", .number (wordLimit - 1)), ("start_offset", .number 0) ]

def Manifest.largestValue : Json.Value :=
  .object [("chunks", .list [largestChunk]), ("zone", .object []), ("file", largestFile)]

private theorem Manifest.wellFormed_largest : largest.WellFormed where
  file := ⟨by decide, by decide⟩
  chunks := by
    intro c hc
    obtain rfl := List.mem_singleton.1 hc
    exact ⟨by decide, by decide, by decide⟩

private theorem Manifest.isDocument_largest : largest.IsDocument largestValue.document := by
  have hfile : largest.file.IsDocument largestFile.document := by
    refine ⟨_, rfl, by simp [Json.Value.namedDocuments], by decide, ?_, ?_⟩
    · simp [LogicalFile.entries, Json.Value.namedDocuments, Json.Value.document, largest]
    · simp [LogicalFile.entries, Json.Value.namedDocuments, LogicalFile.blank, largest]
  have hchunk : Chunk.IsDocument ⟨0, 0, wordLimit - 1, "\n", "", true⟩ largestChunk.document := by
    refine ⟨_, rfl, by simp [Json.Value.namedDocuments], by decide, ?_, ?_⟩
    · simp [Chunk.entries, Json.Value.namedDocuments, Json.Value.document]
    · simp [Chunk.entries, Json.Value.namedDocuments]
  have hchunks : ∃ ds, (Json.Value.list [largestChunk]).document = .list ds ∧
      List.Forall₂ (fun d c => Chunk.IsDocument c d) ds largest.chunks :=
    ⟨_, rfl, .cons hchunk .nil⟩
  refine ⟨_, rfl, by simp [Json.Value.namedDocuments], by decide, ?_, ?_⟩
  · simpa [entries, Json.Value.namedDocuments] using ⟨hfile, hchunks⟩
  · simp [entries, Json.Value.namedDocuments]

/-- A disk with a file of three bytes, and a directory for objects. -/
def Disk.threeBytes : Disk where
  entries := [(["f"], .file 0), (["o"], .directory)]
  contents := [[1, 2, 3]]
  seekLimit := ext4SeekLimit

theorem Manifest.reads_back_largest :
    let p : PutCommand := ⟨"f", "o", "m", none⟩
    let config : Config := { Config.usual "" with chunking := ⟨2, 0, "", 1⟩ }
    let s : Session := ⟨.threeBytes, [], none, ⟨0⟩, ⟨0⟩, .empty, {}, []⟩
    parse (Text.decode (Text.encode largest.render)) = .ok largest ∧
      parse (largestValue.pretty.toList.map some) = .ok largest ∧
      ∃ s' m, p.run config s = (.ok (), s') ∧
        GetCommand.readManifest ⟨"m", .directory "o", none, none⟩ s'.disk = .ok m ∧
        m.chunks.map Chunk.bounds = [⟨0, 0, 2⟩, ⟨1, 2, 3⟩] := by
  intro p config s
  obtain ⟨hmanifests, hputs⟩ := reads_back
  obtain ⟨hwritten, hothers⟩ := hmanifests largest wellFormed_largest
  refine ⟨hwritten, hothers _ _ isDocument_largest largestValue.isText_pretty, ?_⟩
  have hstored : (p.run config s).1.toOption = some () := by decide +kernel
  have hbounds : ((p.upload config s).1.toOption.map fun uploaded => uploaded.chunks.map Chunk.bounds) =
      some [⟨0, 0, 2⟩, ⟨1, 2, 3⟩] := by decide +kernel
  rcases hrun : p.run config s with ⟨failure | _, s'⟩
  · simp [hrun, Except.toOption] at hstored
  · have hlength : ∀ source, StagedSource.ofPath s.disk p.file = .ok source → source.length < wordLimit := by
      have hthree : (StagedSource.ofPath s.disk p.file).toOption.map StagedSource.length = some 3 := by decide +kernel
      intro source hsource
      have hlength : source.length = 3 := by simpa [hsource, Except.toOption] using hthree
      rw [hlength]
      decide
    have hsound : s.disk.Sound := Disk.sound_of_entries (by decide)
    obtain ⟨uploaded, s₁, hupload, hreads⟩ := hputs p config s s' hsound (by decide) hlength hrun
    obtain ⟨hread, -⟩ := hreads ⟨"m", .directory "o", none, none⟩ rfl
    refine ⟨s', _, rfl, hread, ?_⟩
    simpa [hupload, Except.toOption] using hbounds

end ChunkedStorage
