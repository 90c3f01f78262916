import ChunkedStorage.ChunkedObject
import ChunkedStorage.Command.Session
import ChunkedStorage.Proofs.Layout
import ChunkedStorage.Proofs.Metadata
import ChunkedStorage.Proofs.ObjectDirectory
import ChunkedStorage.Proofs.Staging

/-!
# Uploads to a directory

An upload that nobody interrupts stores each planned chunk under its digest (`Session.storeChunks_ok`) and records what
it has stored (`Session.uploadStream_ok`).
-/

namespace ChunkedStorage

/-- The record of a planned chunk of some content, once it is stored. -/
def ChunkBounds.stored (content : Bytes) (b : ChunkBounds) : Chunk :=
  ⟨b.index, b.start, b.stop, Sha256.hex (b.span.cut content), Sha256.hex (b.span.cut content), false⟩

theorem ChunkedObject.ofMetadata_ok {μ : Type} {store : MetadataStore μ} {id totalSize : Nat} {world : μ}
    {file : LogicalFile} {chunks : List Chunk} (hfile : store.file? id world = .ok (some file))
    (hlist : store.list id world = .ok chunks) (htotal : file.totalSize = totalSize) (hdeleted : file.deleted = false)
    (hverify : Listing.verify chunks totalSize = .ok ()) :
    ofMetadata store id world = .ok ⟨totalSize, chunks, hverify⟩ := by
  subst htotal
  simp only [ofMetadata, hfile, hdeleted, hlist, Bool.false_eq_true, if_false]
  unfold create
  split
  · next hfailure =>
    rw [hverify] at hfailure
    cases hfailure
  · rfl

namespace Session

variable {o : ObjectDirectory} {kept : Bytes → Prop} {here : Path} {content : Bytes} {source : StagedSource}
variable {d : Disk} {s : Session}

/-! ### Storing -/

section

variable (hdistinct : ∀ a b, kept a → kept b → Sha256.hex a = Sha256.hex b → a = b) (hroom : o.HasRoom)
include hdistinct hroom

private theorem storeChunk_ok (hlimit : content.length ≤ d.lastPosition) (h : o.Ready kept d here)
    (hsource : source.Stands d content)
    (hpatience : s.patience? = none) {b : ChunkBounds} (hkept : kept (b.span.cut content)) (hle : b.start ≤ b.stop)
    (hstop : b.stop ≤ content.length)
    (name : String) (chunked : Bool) (total : Nat) :
    ∃ d' s', (target o).storeChunk name chunked total source b d s = (.ok (b.stored content), d', s') ∧
      s'.patience? = none ∧ s'.metadata = s.metadata ∧ o.Ready kept d' here ∧ d.Preserves d' ∧
      o.Has d' (b.span.cut content) := by
  obtain ⟨w, hwindow, hholds, hwhole⟩ := hsource.window (s := b.span) hstop
    (Nat.le_trans hle (Nat.le_trans hstop hlimit))
  have hlength : b.length = (b.span.cut content).length := (Span.length_cut_of_stop_le (s := b.span) hstop).symm
  obtain ⟨made, d', hstore, hready, hpreserves, hhas⟩ := ObjectDirectory.store_ok
    ⟨b.index, UploadTarget.objectName name chunked b.index, b.length, .window w, ⟨b.index, total⟩⟩
    Disk.readLimit hdistinct hroom h hkept rfl hholds hwhole hlength
  unfold UploadTarget.storeChunk
  simp only [hwindow, target, hstore]
  exact ⟨_, _, rfl, by simp [hpatience, count], rfl, hready, hpreserves, hhas⟩

/-- The planned chunks are stored one after the other, and none of them is lost on the way. -/
theorem storeChunks_ok (name : String) (chunked : Bool) (total completed : Nat) {bounds : List ChunkBounds}
    (hbounds : ∀ b ∈ bounds, kept (b.span.cut content) ∧ b.start ≤ b.stop ∧ b.stop ≤ content.length)
    (hlimit : content.length ≤ d.lastPosition) (h : o.Ready kept d here) (hsource : source.Stands d content)
    (hpatience : s.patience? = none) :
    ∃ d' s', (target o).storeChunks name chunked total source completed bounds d s =
        (.ok (bounds.map (ChunkBounds.stored content)), d', s') ∧
      s'.patience? = none ∧ s'.metadata = s.metadata ∧ d.Preserves d' ∧
      ∀ b ∈ bounds, o.Has d' (b.span.cut content) := by
  induction bounds generalizing completed d s with
  | nil => exact ⟨d, s, rfl, hpatience, rfl, .refl d, by simp⟩
  | cons b rest ih =>
    obtain ⟨⟨hkept, hle, hstop⟩, hrest⟩ := List.forall_mem_cons.1 hbounds
    obtain ⟨d₁, s₁, hstore, hpatience₁, hmetadata₁, hready, hpreserves, hhas⟩ :=
      storeChunk_ok hdistinct hroom hlimit h hsource hpatience hkept hle hstop name chunked total
    obtain ⟨d₂, s₂, hstores, hpatience₂, hmetadata₂, hpreserves', hothers⟩ :=
      ih (completed + 1) hrest (hpreserves.lastPosition ▸ hlimit) hready (hsource.mono hpreserves) hpatience₁
    refine ⟨d₂, s₂, ?_, hpatience₂, hmetadata₂.trans hmetadata₁, hpreserves.trans hpreserves', ?_⟩
    · have hgoing : (target o).isCancelled s = false := by
        simp [target, isInterrupted, hpatience]
      simp only [UploadTarget.storeChunks, hgoing, hstore, hstores, Bool.false_eq_true, if_false, List.map_cons]
    · exact List.forall_mem_cons.2 ⟨hhas.mono hpreserves', hothers⟩

end

/-! ### Recording -/

private theorem record_ok (hnumbered : s.metadata.Numbered) (file : LogicalFile) {chunks : List Chunk}
    (hindices : ∀ (i : Nat) (c : Chunk), chunks[i]? = some c → c.index = i)
    (hdeleted : ∀ c ∈ chunks, c.deleted = false) :
    ∃ id s', (target o).record file chunks s = (.ok ⟨id, file, chunks⟩, s') ∧
      (target o).metadata.file? id s' = .ok (some file) ∧ (target o).metadata.list id s' = .ok chunks := by
  obtain ⟨m, hcreate, hfile, hlist, -⟩ := hnumbered.createChunks_list file hindices hdeleted
  refine ⟨(s.metadata.create file).1, { s with metadata := m }, ?_, ?_, ?_⟩
  · simp only [UploadTarget.record, target, MetadataStore.inMemory, hcreate]
    rfl
  · simp only [target, MetadataStore.inMemory, hfile]
  · simp only [target, MetadataStore.inMemory, hlist]

/-! ### Whole uploads -/

/-- The directory of the objects is made once the stream is staged. -/
def makeRoot (o : ObjectDirectory) (c : ChunkingConfig) (stream : InputStream) (declared : Nat) (d : Disk) :
    Except IoFault Unit × Disk :=
  (StagedSource.stage d stream declared c.stagingDir c.stageBufferSize).2.makeDirectories o.root

/-- The files that an upload of a stream works with: the directories can be made, no directory has the name of an
object, and names and offsets stay within the limits of the system. -/
structure Unhindered (o : ObjectDirectory) (c : ChunkingConfig) (stream : InputStream) (declared : Nat) (d : Disk)
    (here : Path) : Prop where
  sound : d.Sound
  staging : (d.makeDirectories c.stagingDir).1 = .ok ()
  stagingRoom : c.stagingDir.utf8ByteSize + 1 + 37 < Disk.pathLimit
  countable : (d.makeDirectories c.stagingDir).2.entries.length < wordLimit
  root : (makeRoot o c stream declared d).1 = .ok ()
  leads : (makeRoot o c stream declared d).2.Leads o.root here
  free : ∀ message, Disk.entry? (makeRoot o c stream declared d).2 (here ++ [Sha256.hex message]) ≠ some .directory
  rootRoom : o.HasRoom
  limit : declared ≤ d.lastPosition

/-- What an upload stores, and the objects that the directory has already. -/
def Involved (c : ChunkingConfig) (content : Bytes) (d : Disk) (here : Path) (bytes : Bytes) : Prop :=
  (∃ b ∈ c.bounds content.length, bytes = b.span.cut content) ∨
    ∃ message number, d.entry? (here ++ [Sha256.hex message]) = some (.file number) ∧ bytes = d.content number

/-- A stream that is staged leaves the directory of the objects as it was. -/
private theorem ready_of_stage {c : ChunkingConfig} {stream : InputStream} {d₁ : Disk} {there : Path}
    (h : Unhindered o c stream content.length d here) (hmade : d.makeDirectories c.stagingDir = (.ok (), d₁))
    (hstage : (StagedSource.stage d stream content.length c.stagingDir c.stageBufferSize).2 =
      StagedSource.withCopy d₁ there content)
    (hnames : ∀ message number, d.entry? (here ++ [Sha256.hex message]) = some (.file number) →
      Sha256.hex (d.content number) = Sha256.hex message) :
    o.Ready (Involved c content d here) (StagedSource.withCopy d₁ there content) here := by
  have hpath := StagedSource.copyPath_ne_nil d₁ there
  have hextends := Disk.Extends.of_makeDirectories d c.stagingDir
  rw [hmade] at hextends
  have hsound := hextends.sound h.sound
  rcases hroot : makeRoot o c stream content.length d with ⟨result, d₂⟩
  have hresult := h.root
  have hleads := h.leads
  have hfree := h.free
  rw [hroot] at hresult hleads hfree
  rw [makeRoot, hstage] at hroot
  have hextends' := Disk.Extends.of_makeDirectories (StagedSource.withCopy d₁ there content) o.root
  rw [hroot] at hextends'
  refine ⟨d₂, by rw [hroot, ← hresult], hextends'.sound (hsound.withFile hpath content), hleads, ?_⟩
  intro message entry hentry
  cases entry with
  | directory => exact absurd hentry (hfree message)
  | file number =>
    have hentry₁ : d₁.entry? (here ++ [Sha256.hex message]) = some (.file number) := by
      have hstaged := hextends'.files _ _ hentry
      rwa [StagedSource.withCopy, d₁.entry?_withFile hpath, if_neg (StagedSource.copyPath_ne_hex d₁ here there message)]
        at hstaged
    have hcontent : d₂.content number = d.content number := by
      rw [Disk.content, hextends'.contents, ← Disk.content, StagedSource.withCopy,
        hsound.content_withFile _ _ hentry₁, Disk.content, hextends.contents, ← Disk.content]
    have hold := hextends.files _ _ hentry₁
    refine ⟨number, rfl, ?_⟩
    rw [hcontent]
    exact ⟨.inr ⟨message, number, hold, rfl⟩, hnames message number hold⟩

/-- What is stored is recorded, and the record can be opened. -/
private theorem storeAndRecord_ok {bounds : List ChunkBounds}
    (hdistinct : ∀ a b, kept a → kept b → Sha256.hex a = Sha256.hex b → a = b) (hroom : o.HasRoom)
    (hlimit : content.length ≤ d.lastPosition) (h : o.Ready kept d here) (hsource : source.Stands d content)
    (hpatience : s.patience? = none) (hnumbered : s.metadata.Numbered)
    (hkept : ∀ b ∈ bounds, kept (b.span.cut content))
    (hverify : Listing.verify (bounds.map (ChunkBounds.stored content)) content.length = .ok ())
    (name : String) (chunked : Bool) (chunkSize : Nat) :
    ∃ uploaded d' s', (target o).storeAndRecord name chunked chunkSize source bounds d s = (.ok uploaded, d', s') ∧
      d.Preserves d' ∧
      ChunkedObject.ofMetadata (target o).metadata uploaded.id s' =
        .ok ⟨content.length, bounds.map (ChunkBounds.stored content), hverify⟩ ∧
      ∀ b ∈ bounds, o.Has d' (b.span.cut content) := by
  obtain ⟨htiles, hindices⟩ := Listing.verify_tiles hverify
  have hinside : ∀ b ∈ bounds, b.start ≤ b.stop ∧ b.stop ≤ content.length := by
    intro b hb
    exact htiles.inside b.span (List.mem_map.2 ⟨b.stored content, List.mem_map_of_mem hb, rfl⟩)
  obtain ⟨d', s₁, hstore, -, hmetadata, hpreserves, hhas⟩ := storeChunks_ok hdistinct hroom name chunked
    bounds.length 0 (fun b hb => ⟨hkept b hb, hinside b hb⟩) hlimit h hsource hpatience
  let file : LogicalFile := ⟨name, source.length, chunkSize, chunked, source.checksum?, false⟩
  obtain ⟨id, s₂, hrecord, hfile, hlist⟩ := record_ok (s := s₁) (o := o) (by rwa [hmetadata]) file hindices
    (by simp [ChunkBounds.stored])
  have hall : (target o).storeAndRecord name chunked chunkSize source bounds d s =
      (.ok ⟨id, file, bounds.map (ChunkBounds.stored content)⟩, d', s₂) := by
    simp only [UploadTarget.storeAndRecord, hstore, hrecord, file]
  exact ⟨_, d', s₂, hall, hpreserves, ChunkedObject.ofMetadata_ok hfile hlist hsource.length rfl hverify, hhas⟩

/-- A stream is uploaded whatever its pieces are, and the object that it makes can be opened.  The directory has the
chunks of the object afterwards. -/
theorem uploadStream_ok {c : ChunkingConfig} {stream : InputStream} (hvalid : c.validate = .ok ())
    (hsome : content ≠ [] ∨ c.chunkThreshold ≠ 0) (hstream : stream.Delivers content)
    (hfiles : Unhindered o c stream content.length d here)
    (hnames : ∀ message number, d.entry? (here ++ [Sha256.hex message]) = some (.file number) →
      Sha256.hex (d.content number) = Sha256.hex message)
    (hdistinct : ∀ a b, Involved c content d here a → Involved c content d here b → Sha256.hex a = Sha256.hex b → a = b)
    (hpatience : s.patience? = none) (hnumbered : s.metadata.Numbered) (name : String) :
    ∃ uploaded d' s' object, (target o).uploadStream c name stream content.length d s = (.ok uploaded, d', s') ∧
      ChunkedObject.ofMetadata (target o).metadata uploaded.id s' = .ok object ∧ object.totalSize = content.length ∧
      d'.lastPosition = d.lastPosition ∧
      ∀ chunk ∈ object.chunks, chunk.remoteRef = Sha256.hex (chunk.span.cut content) ∧
        o.Has d' (chunk.span.cut content) := by
  have hsize : content.length ≠ 0 ∨ c.chunkThreshold ≠ 0 := by
    rwa [ne_eq, List.length_eq_zero_iff]
  have hword : content.length < wordLimit :=
    Nat.lt_of_le_of_lt hfiles.limit (Nat.lt_trans d.lastPosition_lt_signedLimit (by decide))
  have hverify :
      Listing.verify ((c.bounds content.length).map (ChunkBounds.stored content)) content.length = .ok () := by
    refine ChunkingConfig.verify_bounds hvalid hsize hword ?_
    rw [List.map_map]
    exact List.map_id _
  -- the stream is staged
  rcases hmade : d.makeDirectories c.stagingDir with ⟨result, d₁⟩
  obtain rfl : result = .ok () := by
    have := hfiles.staging
    rwa [hmade] at this
  have hextends := Disk.Extends.of_makeDirectories d c.stagingDir
  rw [hmade] at hextends
  have hsound := hextends.sound hfiles.sound
  have hcountable := hfiles.countable
  rw [hmade] at hcountable
  obtain ⟨there, hthere⟩ := Disk.leads_of_makeDirectories hmade
  have hstage := StagedSource.stage_ok hmade hthere hstream c.stageBufferSize
  have hstands := StagedSource.stands_copyOf hsound hthere
    (StagedSource.hasRoom_copyName there hfiles.stagingRoom hcountable) content
  have hready := ready_of_stage hfiles hmade (by rw [hstage]) hnames
  have hkept := hextends.preserves.trans (StagedSource.preserves_withCopy hsound there content)
  -- its chunks are stored
  have hsource := (target o).uploadSource_eq (ChunkingConfig.maxChunkSize_pos hvalid)
    (StagedSource.copyOf c.stagingDir d₁ there content) hsize name (StagedSource.withCopy d₁ there content) s
  obtain ⟨uploaded, d', s', hstored, hpreserves, hopened, hhas⟩ :=
    storeAndRecord_ok hdistinct hfiles.rootRoom (hkept.lastPosition ▸ hfiles.limit) hready hstands hpatience hnumbered
      (fun b hb => .inl ⟨b, hb, rfl⟩) hverify name (requiresChunking content.length c.chunkThreshold)
      (c.chunkSize content.length)
  -- and the copy is removed
  have hcopy := hpreserves.entries _ _ (StagedSource.entry?_withCopy d₁ there content)
  have hupload : (target o).uploadStream c name stream content.length d s =
      (.ok uploaded, d'.unlink (StagedSource.copyPath d₁ there), s') := by
    rw [show (StagedSource.copyOf c.stagingDir d₁ there content).length = content.length from rfl, hstored] at hsource
    simp only [UploadTarget.uploadStream, hvalid, hstage, hsource]
    rfl
  refine ⟨uploaded, _, s', _, hupload, hopened, rfl, (hkept.trans hpreserves).lastPosition, ?_⟩
  intro chunk hchunk
  obtain ⟨b, hb, rfl⟩ := List.mem_map.1 hchunk
  exact ⟨rfl, (hhas b hb).unlink (StagedSource.copyPath_ne_nil d₁ there)
    (fun here => StagedSource.copyPath_ne_hex d₁ here there _) hcopy⟩

end Session

end ChunkedStorage
