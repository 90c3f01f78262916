import Mathlib.Data.List.Forall2
import ChunkedStorage.Command.Session
import ChunkedStorage.Proofs.Layout
import ChunkedStorage.Proofs.Metadata
import ChunkedStorage.Proofs.Window

/-!
# What uploads store and record

The storing of a chunk can go three ways (`UploadTarget.StoresChunk`), and chunks are stored one after the other
(`UploadTarget.storeChunks_cons_ok_iff`).  Any target can be made to note the calls of its store
(`UploadTarget.noting`), which changes nothing else.  An upload that succeeds has called the store once for each planned
chunk, with a body that drains to the bytes of the chunk, and records what the store answered
(`UploadTarget.Completed`).
-/

namespace ChunkedStorage

variable {σ : Type}

/-! ### Notes of calls -/

/-- One call of a store: what it is given, the disk that it works on, and what it answers. -/
structure StoreCall where
  upload : ChunkUpload
  disk : Disk
  answer : Except Cause StoredObject

/-- All that the body of a call delivers. -/
def StoreCall.drained (call : StoreCall) (grant max : Nat) : Bytes :=
  (call.upload.body.drain call.disk grant max).1.flatten

/-- The call is for a planned chunk of a content, under a name. -/
structure StoreCall.Stores (call : StoreCall) (name : String) (content : Bytes) (b : ChunkBounds) : Prop where
  index : call.upload.index = b.index
  named : call.upload.name = name
  length : call.upload.length = b.length
  /-- The body comes to its end without a fault, however much is read at a time. -/
  ends : ∀ grant max, (call.upload.body.drain call.disk grant max).2.1 = .ok none
  drained : ∀ grant max, call.drained grant max = b.span.cut content

/-- The record of a planned chunk, once it is stored. -/
def ChunkBounds.record (b : ChunkBounds) (stored : StoredObject) : Chunk :=
  ⟨b.index, b.start, b.stop, stored.remoteRef, stored.checksum, false⟩

namespace UploadTarget

/-- The same target, with every call of the store noted behind the world. -/
def noting (t : UploadTarget σ) : UploadTarget (σ × List StoreCall) where
  store := fun upload d w =>
    let (answer, d', world) := t.store upload d w.1
    (answer, d', world, w.2 ++ [⟨upload, d, answer⟩])
  report := fun report w => (t.report report w.1, w.2)
  isCancelled := fun w => t.isCancelled w.1
  count := fun counter n w => (t.count counter n w.1, w.2)
  metadata :=
    { create := fun file w =>
        let (answer, world) := t.metadata.create file w.1
        (answer, world, w.2)
      createChunks := fun id chunks w =>
        let (answer, world) := t.metadata.createChunks id chunks w.1
        (answer, world, w.2)
      file? := fun id w => t.metadata.file? id w.1
      list := fun id w => t.metadata.list id w.1 }

/-- What the store is given for a planned chunk. -/
def chunkUpload (name : String) (chunked : Bool) (total : Nat) (b : ChunkBounds) (w : FileWindow) : ChunkUpload :=
  ⟨b.index, objectName name chunked b.index, b.length, .window w, ⟨b.index, total⟩⟩

/-- The ways in which the storing of one chunk may go: the calls of the store that it makes, and what it comes to. -/
inductive StoresChunk (t : UploadTarget σ) (name : String) (chunked : Bool) (total : Nat) (source : StagedSource)
    (b : ChunkBounds) (d : Disk) (world : σ) : List StoreCall → Except Failure Chunk × Disk × σ → Prop where
  /-- The source cannot be opened at the chunk. -/
  | unopened {fault : IoFault} (hwindow : FileWindow.ofFile d source.path b.span = .error fault) :
      StoresChunk t name chunked total source b d world []
        (.error (.staging fault), d, t.report ⟨⟨b.index, total⟩, 0, 1⟩ world)
  | refused {w : FileWindow} {cause : Cause} {d' : Disk} {world' : σ}
      (hwindow : FileWindow.ofFile d source.path b.span = .ok w)
      (hstore : t.store (chunkUpload name chunked total b w) d (t.report ⟨⟨b.index, total⟩, 0, 1⟩ world) =
        (.error cause, d', world')) :
      StoresChunk t name chunked total source b d world [⟨chunkUpload name chunked total b w, d, .error cause⟩]
        (.error (.storage b.index cause), d', world')
  | stored {w : FileWindow} {stored : StoredObject} {d' : Disk} {world' : σ}
      (hwindow : FileWindow.ofFile d source.path b.span = .ok w)
      (hstore : t.store (chunkUpload name chunked total b w) d (t.report ⟨⟨b.index, total⟩, 0, 1⟩ world) =
        (.ok stored, d', world')) :
      StoresChunk t name chunked total source b d world [⟨chunkUpload name chunked total b w, d, .ok stored⟩]
        (.ok (b.record stored), d', t.count .bytesStored b.length
          (t.count .chunksStored 1 (t.report ⟨⟨b.index, total⟩, 1, 1⟩ world')))

/-- The second target works like the first one, and notes every call of the store behind the world. -/
structure NotedBy (t : UploadTarget σ) {ε : Type} (note : StoreCall → ε) (t' : UploadTarget (σ × List ε)) : Prop where
  store : ∀ upload d world notes, t'.store upload d (world, notes) =
    ((t.store upload d world).1, (t.store upload d world).2.1, (t.store upload d world).2.2,
      notes ++ [note ⟨upload, d, (t.store upload d world).1⟩])
  report : ∀ report world notes, t'.report report (world, notes) = (t.report report world, notes)
  isCancelled : ∀ world notes, t'.isCancelled (world, notes) = t.isCancelled world
  count : ∀ counter n world notes, t'.count counter n (world, notes) = (t.count counter n world, notes)

/-- A view of the world that nothing but the metadata has a part in. -/
structure Apart (t : UploadTarget σ) {α : Type} (view : σ → α) : Prop where
  store : ∀ upload d world, view (t.store upload d world).2.2 = view world
  report : ∀ report world, view (t.report report world) = view world
  count : ∀ counter n world, view (t.count counter n world) = view world

/-- The file of the source holds a content on every disk that the store may leave behind. -/
structure Spares (t : UploadTarget σ) (source : StagedSource) (content : Bytes) (fine : Disk → Prop) : Prop where
  length : source.length = content.length
  opens : ∀ {d}, fine d → ∃ number, d.openEntry source.path = .ok (.file number) ∧ d.content number = content
  store : ∀ upload {d} world, fine d → fine (t.store upload d world).2.1

/-- The target records in memory, and only there. -/
structure KeepsRecords (t : UploadTarget σ) (records : σ → Metadata) : Prop where
  create : ∀ file world, ((t.metadata.create file world).1, records (t.metadata.create file world).2) =
    MetadataStore.inMemory.create file (records world)
  createChunks : ∀ id chunks world,
    ((t.metadata.createChunks id chunks world).1, records (t.metadata.createChunks id chunks world).2) =
      MetadataStore.inMemory.createChunks id chunks (records world)
  file? : ∀ id world, t.metadata.file? id world = MetadataStore.inMemory.file? id (records world)
  list : ∀ id world, t.metadata.list id world = MetadataStore.inMemory.list id (records world)
  store : ∀ upload d world, records (t.store upload d world).2.2 = records world
  report : ∀ report world, records (t.report report world) = records world
  count : ∀ counter n world, records (t.count counter n world) = records world

variable {t : UploadTarget σ} {source : StagedSource} {content : Bytes} {fine : Disk → Prop} {name : String}
variable {chunked : Bool} {d d' : Disk} {world world' : σ}

/-! ### Storing one chunk -/

section

variable {total : Nat} {b : ChunkBounds} {calls : List StoreCall} {outcome : Except Failure Chunk × Disk × σ}

theorem StoresChunk.eq (h : t.StoresChunk name chunked total source b d world calls outcome) :
    t.storeChunk name chunked total source b d world = outcome := by
  cases h with
  | unopened hwindow =>
    simp only [storeChunk, StagedSource.window, hwindow, Except.mapError]
  | refused hwindow hstore | stored hwindow hstore =>
    rw [chunkUpload] at hstore
    simp only [storeChunk, StagedSource.window, hwindow, Except.mapError, hstore, ChunkBounds.record]

/-- The storing of a chunk goes one of the listed ways. -/
theorem storesChunk (t : UploadTarget σ) (name : String) (chunked : Bool) (total : Nat) (source : StagedSource)
    (b : ChunkBounds) (d : Disk) (world : σ) : ∃ calls,
      t.StoresChunk name chunked total source b d world calls (t.storeChunk name chunked total source b d world) := by
  have of_way {calls : List StoreCall} {outcome : Except Failure Chunk × Disk × σ}
      (h : t.StoresChunk name chunked total source b d world calls outcome) : ∃ calls,
        t.StoresChunk name chunked total source b d world calls (t.storeChunk name chunked total source b d world) :=
    ⟨calls, h.eq.symm ▸ h⟩
  cases hwindow : FileWindow.ofFile d source.path b.span with
  | error fault => exact of_way (.unopened hwindow)
  | ok w =>
    rcases hstore : t.store (chunkUpload name chunked total b w) d (t.report ⟨⟨b.index, total⟩, 0, 1⟩ world) with
      ⟨cause | stored, d', world'⟩
    · exact of_way (.refused hwindow hstore)
    · exact of_way (.stored hwindow hstore)

/-- What has no part in the storing of a chunk stays as it is. -/
theorem Apart.storesChunk {α : Type} {view : σ → α} (hview : t.Apart view)
    (h : t.StoresChunk name chunked total source b d world calls outcome) : view outcome.2.2 = view world := by
  cases h with
  | unopened => exact hview.report _ _
  | @refused w _ _ _ _ hstore =>
    have := hview.store (chunkUpload name chunked total b w) d (t.report ⟨⟨b.index, total⟩, 0, 1⟩ world)
    rwa [hstore, hview.report] at this
  | @stored w _ _ _ _ hstore =>
    have := hview.store (chunkUpload name chunked total b w) d (t.report ⟨⟨b.index, total⟩, 0, 1⟩ world)
    rw [hstore, hview.report] at this
    rw [hview.count, hview.count, hview.report]
    exact this

theorem NotedBy.storesChunk {ε : Type} {note : StoreCall → ε} {t' : UploadTarget (σ × List ε)}
    (hnoted : t.NotedBy note t') (h : t.StoresChunk name chunked total source b d world calls outcome)
    (notes : List ε) : t'.StoresChunk name chunked total source b d (world, notes) calls
      (outcome.1, outcome.2.1, outcome.2.2, notes ++ calls.map note) := by
  cases h with
  | unopened hwindow =>
    rw [List.map_nil, List.append_nil, ← hnoted.report]
    exact .unopened hwindow
  | refused hwindow hstore =>
    refine .refused hwindow ?_
    rw [hnoted.report, hnoted.store, hstore]
    rfl
  | stored hwindow hstore =>
    rw [← hnoted.count, ← hnoted.count, ← hnoted.report]
    refine .stored hwindow ?_
    rw [hnoted.report, hnoted.store, hstore]
    rfl

/-- A call for a chunk of a source that is spared is given the bytes of the chunk. -/
private theorem Spares.stores (hspares : t.Spares source content fine) (hfine : fine d) {w : FileWindow}
    {object : StoredObject} (hstop : b.stop ≤ content.length)
    (hwindow : FileWindow.ofFile d source.path b.span = .ok w) :
    StoreCall.Stores ⟨chunkUpload name chunked total b w, d, .ok object⟩ (objectName name chunked b.index) content
      b := by
  obtain ⟨number, hopen, hcontent⟩ := hspares.opens hfine
  obtain ⟨hholds, hremaining, -⟩ := FileWindow.holds_ofFile hopen hwindow
  rw [FileWindow.bytesOf, hcontent] at hholds
  have hdrain (grant max : Nat) : ∃ pieces body,
      (Body.window w).drain d grant max = (pieces, .ok none, body) ∧ pieces.flatten = b.span.cut content :=
    hholds.drain (by rw [hremaining, Span.length_cut_of_stop_le (s := b.span) hstop]) grant max
  refine ⟨rfl, rfl, rfl, ?_, ?_⟩
  · intro grant max
    obtain ⟨pieces, body, hpieces, -⟩ := hdrain grant max
    simp only [chunkUpload, hpieces]
  · intro grant max
    obtain ⟨pieces, body, hpieces, hflatten⟩ := hdrain grant max
    simp only [StoreCall.drained, chunkUpload, hpieces, hflatten]

end

/-! ### Storing chunks -/

section

variable {total completed : Nat} {b : ChunkBounds} {bounds : List ChunkBounds}

/-- Chunks are stored one after the other, as long as the upload is not cancelled. -/
theorem storeChunks_cons_ok_iff {chunks : List Chunk} :
    t.storeChunks name chunked total source completed (b :: bounds) d world = (.ok chunks, d', world') ↔
      t.isCancelled world = false ∧ ∃ c d₁ world₁ others,
        t.storeChunk name chunked total source b d world = (.ok c, d₁, world₁) ∧
        t.storeChunks name chunked total source (completed + 1) bounds d₁ world₁ = (.ok others, d', world') ∧
        chunks = c :: others := by
  constructor
  · intro h
    unfold storeChunks at h
    split at h
    · cases h
    · next hgoing =>
      split at h
      · cases h
      · next c d₁ world₁ hchunk =>
        split at h
        · cases h
        · next others d₂ world₂ hothers =>
          cases h
          exact ⟨Bool.eq_false_iff.2 hgoing, c, d₁, world₁, others, hchunk, hothers, rfl⟩
  · rintro ⟨hgoing, c, d₁, world₁, others, hchunk, hothers, rfl⟩
    simp only [storeChunks, hgoing, hchunk, hothers, Bool.false_eq_true, if_false]

/-- The records of stored chunks have the bounds of the chunks. -/
theorem records_of_storeChunks {chunks : List Chunk}
    (h : t.storeChunks name chunked total source completed bounds d world = (.ok chunks, d', world')) :
    chunks.map Chunk.bounds = bounds ∧ ∀ c ∈ chunks, c.deleted = false := by
  induction bounds generalizing completed d world chunks with
  | nil =>
    cases h
    exact ⟨rfl, by simp⟩
  | cons b rest ih =>
    obtain ⟨-, c, d₁, world₁, others, hchunk, hothers, rfl⟩ := storeChunks_cons_ok_iff.1 h
    obtain ⟨hbounds, hkept⟩ := ih hothers
    obtain ⟨calls, hstores⟩ := t.storesChunk name chunked total source b d world
    rw [hchunk] at hstores
    cases hstores with
    | stored =>
      refine ⟨?_, List.forall_mem_cons.2 ⟨rfl, hkept⟩⟩
      rw [List.map_cons, hbounds]
      rfl

/-- The store is called once for each chunk, in their order, and the chunk is recorded as the store answers.  What holds
of every such call, on the disks that the store may leave behind, holds of these. -/
theorem NotedBy.storeChunks {ε : Type} {note : StoreCall → ε} {t' : UploadTarget (σ × List ε)}
    {P : StoreCall → ChunkBounds → Prop} {Q : Disk → Prop} (hnoted : t.NotedBy note t')
    (hkeeps : ∀ upload {d} world, Q d → Q (t.store upload d world).2.1) (hdisk : Q d)
    (hcall : ∀ b ∈ bounds, ∀ {d w object}, Q d → FileWindow.ofFile d source.path b.span = .ok w →
      P ⟨chunkUpload name chunked total b w, d, .ok object⟩ b) {chunks : List Chunk}
    (h : t.storeChunks name chunked total source completed bounds d world = (.ok chunks, d', world'))
    (notes : List ε) :
    ∃ calls stored, t'.storeChunks name chunked total source completed bounds d (world, notes) =
        (.ok chunks, d', world', notes ++ calls.map note) ∧ List.Forall₂ P calls bounds ∧
      calls.map StoreCall.answer = stored.map .ok ∧ chunks = List.zipWith ChunkBounds.record bounds stored := by
  induction bounds generalizing completed d world chunks notes with
  | nil =>
    cases h
    exact ⟨[], [], by simp [UploadTarget.storeChunks], .nil, rfl, rfl⟩
  | cons b rest ih =>
    obtain ⟨hfirst, hrest⟩ := List.forall_mem_cons.1 hcall
    obtain ⟨hgoing, c, d₁, world₁, others, hchunk, hothers, rfl⟩ := storeChunks_cons_ok_iff.1 h
    obtain ⟨calls, hstores⟩ := t.storesChunk name chunked total source b d world
    rw [hchunk] at hstores
    have hchunk' := (hnoted.storesChunk hstores notes).eq
    cases hstores with
    | @stored w object _ world₂ hwindow hstore =>
      have hkept := hkeeps (chunkUpload name chunked total b w) (t.report ⟨⟨b.index, total⟩, 0, 1⟩ world) hdisk
      rw [hstore] at hkept
      let call : StoreCall := ⟨chunkUpload name chunked total b w, d, .ok object⟩
      obtain ⟨calls, stored, hcalls, hall, hanswers, rfl⟩ := ih hkept hrest hothers (notes ++ [note call])
      rw [List.append_assoc] at hcalls
      rw [← hnoted.isCancelled world notes] at hgoing
      refine ⟨call :: calls, object :: stored, ?_, .cons (hfirst hdisk hwindow) hall, ?_, rfl⟩
      · exact storeChunks_cons_ok_iff.2 ⟨hgoing, _, _, _, _, hchunk', hcalls, rfl⟩
      · rw [List.map_cons, List.map_cons, hanswers]

theorem noting_notedBy (t : UploadTarget σ) : t.NotedBy id t.noting :=
  ⟨fun _ _ _ _ => rfl, fun _ _ _ => rfl, fun _ _ => rfl, fun _ _ _ _ => rfl⟩

/-- Nothing is recorded while chunks are stored. -/
theorem Apart.storeChunks {α : Type} {view : σ → α} (hview : t.Apart view) (name : String) (chunked : Bool)
    (total : Nat) (source : StagedSource) (completed : Nat) (bounds : List ChunkBounds) (d : Disk) (world : σ) :
    view (t.storeChunks name chunked total source completed bounds d world).2.2 = view world := by
  induction bounds generalizing completed d world with
  | nil => rfl
  | cons b rest ih =>
    obtain ⟨calls, hstores⟩ := t.storesChunk name chunked total source b d world
    have hfirst := hview.storesChunk hstores
    unfold UploadTarget.storeChunks
    split
    · rfl
    · split
      · next hchunk =>
        rw [hchunk] at hfirst
        exact hfirst
      · next c d₁ world₁ hchunk =>
        rw [hchunk] at hfirst
        have hrest := ih (completed + 1) d₁ world₁
        split
        all_goals
          next hchunks =>
          rw [hchunks] at hrest
          exact hrest.trans hfirst

end

/-! ### Recording -/

theorem eq_of_record {file : LogicalFile} {chunks : List Chunk} {uploaded : UploadedFile}
    (h : t.record file chunks world = (.ok uploaded, world')) : uploaded.file = file ∧ uploaded.chunks = chunks := by
  unfold record at h
  split at h
  · cases h
  · split at h
    · cases h
    · cases h
      exact ⟨rfl, rfl⟩

private theorem record_noting {file : LogicalFile} {chunks : List Chunk} {uploaded : UploadedFile}
    (h : t.record file chunks world = (.ok uploaded, world')) (calls : List StoreCall) :
    t.noting.record file chunks (world, calls) = (.ok uploaded, world', calls) := by
  unfold record at h
  split at h
  · cases h
  · next id world₁ hcreate =>
    split at h
    · cases h
    · next world₂ hchunks =>
      cases h
      simp only [record, noting, hcreate, hchunks]

section

variable {records : σ → Metadata} (hkeeps : t.KeepsRecords records)
include hkeeps

/-- What is recorded in memory is found there again. -/
private theorem found_of_record (hnumbered : (records world).Numbered) {file : LogicalFile} {chunks : List Chunk}
    {uploaded : UploadedFile} (hindices : ∀ (i : Nat) (c : Chunk), chunks[i]? = some c → c.index = i)
    (hdeleted : ∀ c ∈ chunks, c.deleted = false) (h : t.record file chunks world = (.ok uploaded, world')) :
    t.metadata.list uploaded.id world' = .ok chunks ∧ t.metadata.file? uploaded.id world' = .ok (some file) := by
  obtain ⟨m, hmade, hfile, hlist, -⟩ := hnumbered.createChunks_list file hindices hdeleted
  unfold record at h
  split at h
  · cases h
  · next id world₁ hcreate =>
    split at h
    · cases h
    · next world₂ hchunks =>
      cases h
      have hcreated := hkeeps.create file world
      have hrecorded := hkeeps.createChunks id chunks world₁
      rw [hcreate] at hcreated
      rw [hchunks] at hrecorded
      simp only [MetadataStore.inMemory, Prod.mk.injEq, Except.ok.injEq] at hcreated hrecorded
      obtain ⟨hid, hworld₁⟩ := hcreated
      rw [hid, hworld₁, hmade] at hrecorded
      rw [hkeeps.list, hkeeps.file?, hrecorded.2, hid]
      simp only [MetadataStore.inMemory, hfile, hlist, and_self]

end

/-! ### Whole uploads -/

/-- An upload of a content within planned bounds is complete: every chunk was stored in a call of its own, under the
name that goes with its index, and all of them are recorded. -/
structure Completed (t : UploadTarget σ) (content : Bytes) (nameOf : Nat → String) (bounds : List ChunkBounds)
    (file : LogicalFile) (world world' : σ) (calls : List StoreCall) (uploaded : UploadedFile) : Prop where
  each : List.Forall₂ (fun call b => call.Stores (nameOf b.index) content b) calls bounds
  order : ∀ (i : Nat) (b : ChunkBounds), bounds[i]? = some b → b.index = i
  whole : ∀ grant max, (calls.map fun call => call.drained grant max).flatten = content
  recorded : ∃ stored : List StoredObject, calls.map StoreCall.answer = stored.map .ok ∧
    uploaded.chunks = List.zipWith ChunkBounds.record bounds stored
  verified : Listing.verify uploaded.chunks content.length = .ok ()
  file : uploaded.file = file
  found : ∀ {records : σ → Metadata}, t.KeepsRecords records → (records world).Numbered →
    t.metadata.list uploaded.id world' = .ok uploaded.chunks ∧
      t.metadata.file? uploaded.id world' = .ok (some uploaded.file)

/-- What the calls for planned chunks drain is what the chunks hold. -/
private theorem drained_calls {nameOf : Nat → String} {calls : List StoreCall} {bounds : List ChunkBounds}
    (h : List.Forall₂ (fun call b => call.Stores (nameOf b.index) content b) calls bounds) (grant max : Nat) :
    (calls.map fun call => call.drained grant max) = (bounds.map ChunkBounds.span).map fun s => s.cut content := by
  induction h with
  | nil => rfl
  | cons hstores _ ih => rw [List.map_cons, hstores.drained, ih, List.map_cons, List.map_cons]

private theorem storeAndRecord_noting (hspares : t.Spares source content fine) (hfine : fine d) {chunkSize : Nat}
    {bounds : List ChunkBounds} {uploaded : UploadedFile} (hstop : ∀ b ∈ bounds, b.stop ≤ content.length)
    (hverify : ∀ chunks : List Chunk, chunks.map Chunk.bounds = bounds → Listing.verify chunks content.length = .ok ())
    (h : t.storeAndRecord name chunked chunkSize source bounds d world = (.ok uploaded, d', world')) :
    ∃ calls, t.noting.storeAndRecord name chunked chunkSize source bounds d (world, []) =
        (.ok uploaded, d', world', calls) ∧
      t.Completed content (objectName name chunked) bounds
        ⟨name, content.length, chunkSize, chunked, source.checksum?, false⟩ world world' calls uploaded := by
  unfold storeAndRecord at h
  split at h
  · cases h
  · next chunks d₁ world₁ hchunks =>
    obtain ⟨calls, stored, hnoting, hcalls, hanswers, hrecords⟩ := t.noting_notedBy.storeChunks
      (P := fun call b => call.Stores (objectName name chunked b.index) content b) hspares.store hfine
      (fun b hb _ _ _ hfine hwindow => hspares.stores hfine (hstop b hb) hwindow) hchunks []
    rw [List.map_id] at hnoting
    simp only [Prod.mk.injEq] at h
    obtain ⟨hresult, rfl, hworld⟩ := h
    generalize hfile : LogicalFile.mk name source.length chunkSize chunked source.checksum? false = file
      at hresult hworld
    have hrecord : t.record file chunks world₁ = (.ok uploaded, world') := by rw [← hresult, ← hworld]
    have hnoted := record_noting hrecord calls
    obtain ⟨huploaded, hlisted⟩ := eq_of_record hrecord
    obtain ⟨hbounds, hdeleted⟩ := records_of_storeChunks hchunks
    have hverified := hverify chunks hbounds
    obtain ⟨htiles, hindices⟩ := Listing.verify_tiles hverified
    have hspans : chunks.map Chunk.span = bounds.map ChunkBounds.span := by
      rw [← hbounds, List.map_map]
      rfl
    rw [hspans] at htiles
    refine ⟨calls, ?_, hcalls, ?_, ?_, ⟨stored, hanswers, by rw [hlisted, hrecords]⟩, by rwa [hlisted], ?_, ?_⟩
    · simp only [storeAndRecord, hnoting, List.nil_append, hfile, hnoted]
    · intro i b hb
      rw [← hbounds, List.getElem?_map, Option.map_eq_some_iff] at hb
      obtain ⟨c, hc, rfl⟩ := hb
      exact hindices i c hc
    · intro grant max
      rw [drained_calls hcalls, htiles.flatten_cut]
      simp [Span.cut, Span.length]
    · rw [huploaded, ← hfile, hspares.length]
    · intro records hkeeps hnumbered
      have hapart : t.Apart records := ⟨hkeeps.store, hkeeps.report, hkeeps.count⟩
      have hsame := hapart.storeChunks name chunked bounds.length source 0 bounds d world
      rw [hchunks] at hsame
      rw [hlisted, huploaded]
      exact found_of_record hkeeps (by rwa [hsame]) hindices hdeleted hrecord

/-- A source that is large enough is uploaded in chunks, unless it is empty. -/
private theorem uploadSource_of_le (t : UploadTarget σ) {c : ChunkingConfig} (hsize : 0 < c.maxChunkSize)
    (hlarge : c.chunkThreshold ≤ source.length) (hne : source.length ≠ 0) (name : String) (d : Disk) (world : σ) :
    t.uploadSource c name source d world = t.storeAndRecord name true c.maxChunkSize source
      (Layout.mk source.length c.maxChunkSize hsize).bounds d world := by
  have hchunked := ChunkingConfig.requiresChunking_iff.2 hlarge
  rw [t.uploadSource_eq hsize _ (.inl hne), ChunkingConfig.bounds_of_le hsize hlarge, ChunkingConfig.chunkSize,
    hchunked]
  rfl

private theorem uploadSource_of_lt (t : UploadTarget σ) {c : ChunkingConfig}
    (hsmall : source.length < c.chunkThreshold) (name : String) (d : Disk) (world : σ) :
    t.uploadSource c name source d world =
      t.storeAndRecord name false source.length source [⟨0, 0, source.length⟩] d world := by
  have hsingle : ¬ requiresChunking source.length c.chunkThreshold = true := by
    simpa [requiresChunking] using hsmall
  rw [uploadSource, if_neg hsingle, uploadSingle]

/-- An upload of a source that succeeds has stored and recorded all of its content, whatever the store does to the disk
besides, as long as the source keeps its content.  From the threshold on the content is not empty and there is one call
of the store for each planned chunk, in the order of their indices and each under the name of the file and its index;
below, there is one call for the whole content, under the name of the file. -/
theorem uploadSource_completed {c : ChunkingConfig} {uploaded : UploadedFile} (hspares : t.Spares source content fine)
    (hfine : fine d) (hsize : 0 < c.maxChunkSize) (hword : content.length < wordLimit)
    (hupload : t.uploadSource c name source d world = (.ok uploaded, d', world')) :
    ∃ calls, t.noting.uploadSource c name source d (world, []) = (.ok uploaded, d', world', calls) ∧
      (c.chunkThreshold ≤ content.length → content ≠ [] ∧
        ∃ bounds, plan content.length c.maxChunkSize = .ok bounds ∧
          t.Completed content (fun i => s!"{name}.chunk{i}") bounds
            ⟨name, content.length, c.maxChunkSize, true, source.checksum?, false⟩ world world' calls uploaded) ∧
      (content.length < c.chunkThreshold →
        t.Completed content (fun _ => name) [⟨0, 0, content.length⟩]
          ⟨name, content.length, content.length, false, source.checksum?, false⟩ world world' calls uploaded) := by
  by_cases hlarge : c.chunkThreshold ≤ content.length
  · have hne : content.length ≠ 0 := by
      intro hempty
      have hnone : requiresChunking source.length c.chunkThreshold = true := by
        simpa [requiresChunking, hspares.length] using hlarge
      rw [uploadSource, if_pos hnone, uploadChunked, if_pos (hspares.length.trans hempty)] at hupload
      cases hupload
    have hlarge' : c.chunkThreshold ≤ source.length := by rwa [hspares.length]
    have hne' : source.length ≠ 0 := by rwa [hspares.length]
    let l : Layout := ⟨source.length, c.maxChunkSize, hsize⟩
    have htotal : l.totalSize = content.length := hspares.length
    have hstop : ∀ b ∈ l.bounds, b.stop ≤ content.length := by
      intro b hb
      obtain ⟨i, -, rfl⟩ := List.mem_map.1 hb
      rw [← htotal]
      exact Nat.min_le_right _ _
    have hverify (chunks : List Chunk) (hchunks : chunks.map Chunk.bounds = l.bounds) :
        Listing.verify chunks content.length = .ok () := by
      rw [← htotal] at hword hne ⊢
      exact l.verify_bounds hword hne hchunks
    rw [t.uploadSource_of_le hsize hlarge' hne'] at hupload
    obtain ⟨calls, hnoting, hcompleted⟩ := storeAndRecord_noting hspares hfine hstop hverify hupload
    refine ⟨calls, by rw [t.noting.uploadSource_of_le hsize hlarge' hne', hnoting],
      fun _ => ⟨?_, l.bounds, ?_, hcompleted⟩, fun hsmall => ?_⟩
    · rintro rfl
      exact hne rfl
    · rw [← hspares.length]
      exact l.plan_eq
    · omega
  · have hsmall : source.length < c.chunkThreshold := by
      rw [hspares.length]
      omega
    have hstop : ∀ b ∈ [(⟨0, 0, source.length⟩ : ChunkBounds)], b.stop ≤ content.length := by
      simp [hspares.length]
    have hverify (chunks : List Chunk) (hchunks : chunks.map Chunk.bounds = [⟨0, 0, source.length⟩]) :
        Listing.verify chunks content.length = .ok () := by
      rw [hspares.length] at hchunks
      exact Listing.verify_whole hchunks
    rw [t.uploadSource_of_lt hsmall] at hupload
    obtain ⟨calls, hnoting, hcompleted⟩ := storeAndRecord_noting hspares hfine hstop hverify hupload
    refine ⟨calls, by rw [t.noting.uploadSource_of_lt hsmall, hnoting], fun h => absurd h hlarge, fun _ => ?_⟩
    rw [hspares.length] at hcompleted
    exact hcompleted

theorem uploadSource_completed_fiveBytes :
    let t : UploadTarget Session :=
      { Session.target ⟨"objects"⟩ with
        store := fun upload d s =>
          match upload.body.drain d 4 1 with
          | (pieces, .ok _, _) => (.ok ⟨upload.name, toString pieces.length⟩, d, s)
          | (_, .error fault, _) => (.error (.transfer fault), d, s) }
    let d := ((Disk.empty.addFile ["f"]).2).append 0 [1, 2, 3, 4, 5]
    let s : Session := ⟨d, [], none, ⟨0⟩, ⟨0⟩, .empty, {}, []⟩
    let file : LogicalFile := ⟨"g", 5, 2, true, none, false⟩
    let chunks : List Chunk :=
      [⟨0, 0, 2, "g.chunk0", "2", false⟩, ⟨1, 2, 4, "g.chunk1", "2", false⟩, ⟨2, 4, 5, "g.chunk2", "1", false⟩]
    ∃ s' calls, t.uploadSource ⟨2, 5, "", 1⟩ "g" ⟨"f", 5, none, none⟩ d s = (.ok ⟨1, file, chunks⟩, d, s') ∧
      t.Completed [1, 2, 3, 4, 5] (fun i => s!"g.chunk{i}") [⟨0, 0, 2⟩, ⟨1, 2, 4⟩, ⟨2, 4, 5⟩] file s s' calls
        ⟨1, file, chunks⟩ ∧
      t.metadata.list 1 s' = .ok chunks := by
  intro t d s file chunks
  have hspares : t.Spares ⟨"f", 5, none, none⟩ [1, 2, 3, 4, 5] (· = d) := by
    refine ⟨rfl, ?_, ?_⟩
    · rintro _ rfl
      exact ⟨0, rfl, rfl⟩
    · rintro upload _ world rfl
      simp only [t]
      split <;> rfl
  have hkeeps : t.KeepsRecords Session.metadata := by
    refine ⟨fun _ _ => rfl, fun _ _ _ => rfl, fun _ _ => rfl, fun _ _ => rfl, ?_, fun _ _ => rfl, fun _ _ _ => rfl⟩
    intro upload d world
    simp only [t]
    split <;> rfl
  have hanswer : (t.uploadSource ⟨2, 5, "", 1⟩ "g" ⟨"f", 5, none, none⟩ d s).1 = .ok ⟨1, file, chunks⟩ := by rfl
  have hdisk : (t.uploadSource ⟨2, 5, "", 1⟩ "g" ⟨"f", 5, none, none⟩ d s).2.1 = d := by rfl
  obtain ⟨s', hupload⟩ : ∃ s', t.uploadSource ⟨2, 5, "", 1⟩ "g" ⟨"f", 5, none, none⟩ d s =
      (.ok ⟨1, file, chunks⟩, d, s') := ⟨_, Prod.ext hanswer (Prod.ext hdisk rfl)⟩
  obtain ⟨calls, -, hlarge, -⟩ := uploadSource_completed hspares rfl (by decide) (by decide) hupload
  obtain ⟨-, bounds, hplan, hcompleted⟩ := hlarge (by decide)
  obtain rfl : [⟨0, 0, 2⟩, ⟨1, 2, 4⟩, ⟨2, 4, 5⟩] = bounds := by
    have hbounds : plan 5 2 = .ok [⟨0, 0, 2⟩, ⟨1, 2, 4⟩, ⟨2, 4, 5⟩] := rfl
    exact Except.ok.inj (hbounds.symm.trans hplan)
  exact ⟨s', calls, hupload, hcompleted, (hcompleted.found hkeeps Metadata.numbered_empty).1⟩

end UploadTarget

end ChunkedStorage
