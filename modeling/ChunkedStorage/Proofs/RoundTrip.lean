import ChunkedStorage.Command.Get
import ChunkedStorage.Proofs.Direct
import ChunkedStorage.Proofs.Upload

/-!
# What is uploaded can be read

A stream that is uploaded to a directory makes an object, and a copy of any range of the object has the bytes of the
stream in that range (`Session.uploadStream_reads_back`).
-/

namespace ChunkedStorage

theorem Sink.gathering_takesAll : Sink.gathering.TakesAll id where
  write := fun _ _ => ⟨_, rfl, rfl⟩
  flush := fun _ => ⟨_, rfl, rfl⟩

namespace Session

variable {o : ObjectDirectory} {content : Bytes} {s : Session}

theorem surroundings_calm : ObjectDirectory.Calm surroundings Session.disk where
  live := fun _ => rfl
  pause := fun _ _ => rfl
  count := fun _ _ _ => rfl

/-- A range of an object whose chunks a directory has can be copied as a whole. -/
private theorem rangeRead_copies {object : ChunkedObject} (hroom : o.HasRoom)
    (hlimit : content.length ≤ s.disk.lastPosition) (htotal : object.totalSize = content.length)
    (hchunks : ∀ c ∈ object.chunks, c.remoteRef = Sha256.hex (c.span.cut content) ∧ o.Has s.disk (c.span.cut content))
    (policy : RetryPolicy) {request : RangeRequest} {wanted : Span}
    (hwanted : request.resolve content.length = .ok wanted) :
    ∃ r, object.rangeRead (o.backend disk policy surroundings) request s = .ok r ∧
      ∀ {τ : Type} {sink : Sink τ} {taken : τ → Bytes}, sink.TakesAll taken → ∀ target₀, ∃ r' s' target',
        r.copyTo (o.backend disk policy surroundings) sink s target₀ = (.ok wanted.length, r', s', target') ∧
          taken target' = taken target₀ ++ wanted.cut content := by
  rw [← htotal] at hwanted
  obtain ⟨-, hstop⟩ := RangeRequest.resolve_ok hwanted
  rw [htotal] at hstop
  have hlive : (o.backend disk policy surroundings).isClosed s = false := rfl
  obtain ⟨slices, hread, hslicing, -⟩ := ChunkedObject.rangeRead_slicing hlive hwanted
  obtain ⟨htiles, -⟩ := Listing.verify_tiles object.verify_chunks
  -- the directory serves the chunks without a fault, each with the bytes of its span
  have hflawless : (o.backend disk policy surroundings).Flawless object.chunks (o.objectOf s.disk)
      (fun world => disk world = s.disk) (ObjectDirectory.Held s.disk) ObjectDirectory.Announced := by
    refine ObjectDirectory.backend_flawless surroundings_calm hroom ?_
    intro c hc
    have hinside := htiles.inside c.span (List.mem_map_of_mem hc)
    have hlength : c.length ≤ content.length := by
      simp only [Chunk.span] at hinside
      rw [Chunk.length]
      omega
    exact ⟨Nat.le_trans hlength hlimit, _, (hchunks c hc).1, (hchunks c hc).2⟩
  have hobject : ∀ c ∈ object.chunks, o.objectOf s.disk c.remoteRef = c.span.cut content := by
    intro c hc
    obtain ⟨href, hhas⟩ := hchunks c hc
    obtain ⟨number, hentry, hcontent⟩ := hhas.openEntry hroom
    unfold ObjectDirectory.objectOf
    rw [href, hentry]
    exact hcontent
  refine ⟨_, hread, ?_⟩
  intro τ sink taken hsink target₀
  exact Reader.Fine.copyTo hflawless hobject hslicing hstop hsink target₀ rfl

/-- Nothing hinders an upload to the working directory of an empty disk. -/
theorem unhindered_empty {c : ChunkingConfig} {stream : InputStream} (hdirectory : c.stagingDir = "")
    (hstream : stream.Delivers content) (hlimit : content.length ≤ Disk.empty.lastPosition) :
    Unhindered ⟨""⟩ c stream content.length Disk.empty [] := by
  have hmade (d : Disk) : d.makeDirectories "" = (.ok (), d) := rfl
  have hstage := StagedSource.stage_ok (hmade Disk.empty) (Disk.leads_empty _) hstream c.stageBufferSize
  have hroot : makeRoot ⟨""⟩ c stream content.length Disk.empty =
      (.ok (), StagedSource.withCopy Disk.empty [] content) := by
    rw [makeRoot, hdirectory, hstage]
    exact hmade _
  refine ⟨Disk.sound_empty, ?_, ?_, ?_, ?_, ?_, ?_, ?_, hlimit⟩
  · rw [hdirectory, hmade]
  · rw [hdirectory]
    decide
  · rw [hdirectory, hmade]
    decide
  · rw [hroot]
  · rw [hroot]
    exact Disk.leads_empty _
  · intro message
    rw [hroot, StagedSource.withCopy, Disk.entry?_withFile _ (StagedSource.copyPath_ne_nil Disk.empty [])]
    split
    · simp
    · simp [Disk.entry?, Disk.empty]
  · exact (by decide : "".utf8ByteSize + 1 + 64 < Disk.pathLimit)

/-- What is uploaded can be read.  However a stream is cut into pieces and its content into chunks, the upload succeeds,
the object that it makes can be opened, and a copy of any range of the object is that range of the content, byte for
byte.  Digests have to tell the chunks and the objects that were there before from one another. -/
theorem uploadStream_reads_back {c : ChunkingConfig} {stream : InputStream} {d : Disk} {here : Path}
    (hvalid : c.validate = .ok ()) (hsome : content ≠ [] ∨ c.chunkThreshold ≠ 0) (hstream : stream.Delivers content)
    (hfiles : Unhindered o c stream content.length d here)
    (hnames : ∀ message number, d.entry? (here ++ [Sha256.hex message]) = some (.file number) →
      Sha256.hex (d.content number) = Sha256.hex message)
    (hdistinct : ∀ a b, Involved c content d here a → Involved c content d here b → Sha256.hex a = Sha256.hex b → a = b)
    (hpatience : s.patience? = none) (hnumbered : s.metadata.Numbered) (name : String) :
    ∃ uploaded d' s' object, (target o).uploadStream c name stream content.length d s = (.ok uploaded, d', s') ∧
      ChunkedObject.ofMetadata (target o).metadata uploaded.id { s' with disk := d' } = .ok object ∧
      ∀ (policy : RetryPolicy) (request : RangeRequest) (wanted : Span), request.resolve content.length = .ok wanted →
        ∃ r, object.rangeRead (o.backend disk policy surroundings) request { s' with disk := d' } = .ok r ∧
          ∀ {τ : Type} {sink : Sink τ} {taken : τ → Bytes}, sink.TakesAll taken → ∀ target₀, ∃ r' s'' target',
            r.copyTo (o.backend disk policy surroundings) sink { s' with disk := d' } target₀ =
                (.ok wanted.length, r', s'', target') ∧
              taken target' = taken target₀ ++ wanted.cut content := by
  obtain ⟨uploaded, d', s', object, hupload, hopened, htotal, hposition, hchunks⟩ :=
    uploadStream_ok hvalid hsome hstream hfiles hnames hdistinct hpatience hnumbered name
  refine ⟨uploaded, d', s', object, hupload, hopened, ?_⟩
  intro policy request wanted hwanted
  exact rangeRead_copies hfiles.rootRoom (hposition ▸ hfiles.limit) htotal hchunks policy hwanted

theorem uploadStream_reads_back_sevens :
    let c : ChunkingConfig := ⟨1, 0, "", 1⟩
    let stream : InputStream := ⟨[[7], [7]], none⟩
    let b := (ObjectDirectory.mk "").backend disk ⟨3, .ofSeconds 1, 3⟩ surroundings
    ∃ uploaded d' s' object r r' s'',
      (target ⟨""⟩).uploadStream c "f" stream 2 Disk.empty ⟨Disk.empty, [], none, ⟨0⟩, ⟨0⟩, .empty, {}, []⟩ =
        (.ok uploaded, d', s') ∧
      ChunkedObject.ofMetadata (target ⟨""⟩).metadata uploaded.id { s' with disk := d' } = .ok object ∧
      object.rangeRead b ⟨1, .bytes 5⟩ { s' with disk := d' } = .ok r ∧
      r.copyTo b .gathering { s' with disk := d' } [] = (.ok 1, r', s'', [7]) := by
  intro c stream b
  have hstream : stream.Delivers [7, 7] := ⟨rfl, rfl⟩
  have hbounds : c.bounds 2 = [⟨0, 0, 1⟩, ⟨1, 1, 2⟩] := by decide
  have hsame : ∀ a, Involved c [7, 7] Disk.empty [] a → a = [7] := by
    rintro a (⟨bounds, hmem, rfl⟩ | ⟨message, number, hentry, -⟩)
    · have hmem : bounds ∈ c.bounds 2 := hmem
      rw [hbounds] at hmem
      simp only [List.mem_cons, List.not_mem_nil, or_false] at hmem
      rcases hmem with rfl | rfl <;> rfl
    · simp [Disk.entry?, Disk.empty] at hentry
  obtain ⟨uploaded, d', s', object, hupload, hopened, hreads⟩ :=
    uploadStream_reads_back (c := c) (s := ⟨Disk.empty, [], none, ⟨0⟩, ⟨0⟩, .empty, {}, []⟩) rfl (.inl (by decide))
      hstream (unhindered_empty rfl hstream (by decide))
      (by intro message number hentry; simp [Disk.entry?, Disk.empty] at hentry)
      (by intro a b ha hb _; rw [hsame a ha, hsame b hb]) rfl Metadata.numbered_empty "f"
  obtain ⟨r, hread, hcopies⟩ := hreads ⟨3, .ofSeconds 1, 3⟩ ⟨1, .bytes 5⟩ ⟨1, 2⟩ rfl
  obtain ⟨r', s'', target', hcopy, htaken⟩ := hcopies Sink.gathering_takesAll []
  obtain rfl : target' = [7] := htaken
  exact ⟨uploaded, d', s', object, r, r', s'', hupload, hopened, hread, hcopy⟩

end Session

end ChunkedStorage
