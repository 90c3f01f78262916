import ChunkedStorage.Proofs.StoreCalls

/-!
# How uploads end

An upload stores its chunks one after the other.  Once some of them are stored, it is cancelled, fails with the next one
or, if there is none, is recorded; `UploadTarget.Ends` lists these ways, and there are no others.  Of the calls of the
store and of the metadata, which any target can be made to note (`UploadTarget.tracing`), there is then one for each
stored chunk, and those of the end (`UploadTarget.uploadSource_ends`).
-/

namespace ChunkedStorage

variable {σ : Type}

/-! ### Notes of calls -/

/-- One call that an upload makes of its store or its metadata, and the answer. -/
inductive UploadCall where
  | stored (call : StoreCall)
  | fileRecorded (file : LogicalFile) (answer : Except Cause Nat)
  | chunksRecorded (id : Nat) (chunks : List Chunk) (answer : Except Cause Unit)

/-- The index of the chunk that the store is called for. -/
def UploadCall.index? : UploadCall → Option Nat
  | stored call => some call.upload.index
  | _ => none

namespace UploadTarget

/-- The same target, with every call of the store and of the metadata noted behind the world. -/
def tracing (t : UploadTarget σ) : UploadTarget (σ × List UploadCall) where
  store := fun upload d w =>
    let (answer, d', world) := t.store upload d w.1
    (answer, d', world, w.2 ++ [.stored ⟨upload, d, answer⟩])
  report := fun report w => (t.report report w.1, w.2)
  isCancelled := fun w => t.isCancelled w.1
  count := fun counter n w => (t.count counter n w.1, w.2)
  metadata :=
    { create := fun file w =>
        let (answer, world) := t.metadata.create file w.1
        (answer, world, w.2 ++ [.fileRecorded file answer])
      createChunks := fun id chunks w =>
        let (answer, world) := t.metadata.createChunks id chunks w.1
        (answer, world, w.2 ++ [.chunksRecorded id chunks answer])
      file? := fun id w => t.metadata.file? id w.1
      list := fun id w => t.metadata.list id w.1 }

/-- The ways in which an upload may end once the first of its chunks are stored, `completed` in number, while the others
are not: the calls that it still makes, and what it comes to. -/
inductive Ends (t : UploadTarget σ) (name : String) (chunked : Bool) (source : StagedSource) (file : LogicalFile)
    (total completed : Nat) (chunks : List Chunk) (d : Disk) (world : σ) :
    (others : List ChunkBounds) → List UploadCall → Except Failure UploadedFile × Disk × σ → Prop where
  /-- The upload is found cancelled before the next chunk. -/
  | cancelled {b : ChunkBounds} {rest : List ChunkBounds} (hcancelled : t.isCancelled world = true) :
      Ends t name chunked source file total completed chunks d world (b :: rest) []
        (.error (.cancelled completed total), d, world)
  /-- The next chunk is not stored. -/
  | failed {b : ChunkBounds} {rest : List ChunkBounds} {calls : List StoreCall} {failure : Failure} {d' : Disk}
      {world' : σ} (hgoing : t.isCancelled world = false)
      (hchunk : t.StoresChunk name chunked total source b d world calls (.error failure, d', world')) :
      Ends t name chunked source file total completed chunks d world (b :: rest) (calls.map .stored)
        (.error failure, d', world')
  | fileRefused {cause : Cause} {world' : σ} (hfile : t.metadata.create file world = (.error cause, world')) :
      Ends t name chunked source file total completed chunks d world [] [.fileRecorded file (.error cause)]
        (.error (.metadata fileOperation cause), d, world')
  | chunksRefused {id : Nat} {cause : Cause} {world₁ world' : σ}
      (hfile : t.metadata.create file world = (.ok id, world₁))
      (hchunks : t.metadata.createChunks id chunks world₁ = (.error cause, world')) :
      Ends t name chunked source file total completed chunks d world []
        [.fileRecorded file (.ok id), .chunksRecorded id chunks (.error cause)]
        (.error (.metadata chunksOperation cause), d, world')
  | recorded {id : Nat} {world₁ world' : σ} (hfile : t.metadata.create file world = (.ok id, world₁))
      (hchunks : t.metadata.createChunks id chunks world₁ = (.ok (), world')) :
      Ends t name chunked source file total completed chunks d world []
        [.fileRecorded file (.ok id), .chunksRecorded id chunks (.ok ())] (.ok ⟨id, file, chunks⟩, d, world')

variable {t : UploadTarget σ} {name : String} {chunked : Bool} {source : StagedSource} {file : LogicalFile}
variable {total completed chunkSize : Nat} {front back : List ChunkBounds} {chunks : List Chunk} {d d' : Disk}
variable {world world' : σ} {calls : List UploadCall} {outcome : Except Failure UploadedFile × Disk × σ}

/-! ### Stored chunks and the others -/

theorem storeChunks_append
    (h : t.storeChunks name chunked total source completed front d world = (.ok chunks, d', world')) :
    t.storeChunks name chunked total source completed (front ++ back) d world =
      match t.storeChunks name chunked total source (completed + front.length) back d' world' with
      | (.error failure, d, world) => (.error failure, d, world)
      | (.ok others, d, world) => (.ok (chunks ++ others), d, world) := by
  induction front generalizing completed d world chunks with
  | nil =>
    cases h
    rw [List.nil_append, List.length_nil, Nat.add_zero]
    split
    · assumption
    · assumption
  | cons b rest ih =>
    obtain ⟨hgoing, c, d₁, world₁, others, hchunk, hothers, rfl⟩ := storeChunks_cons_ok_iff.1 h
    have hplaces : completed + (b :: rest).length = completed + 1 + rest.length := by
      rw [List.length_cons]
      omega
    rw [List.cons_append, storeChunks, hgoing, if_neg Bool.false_ne_true, hchunk]
    simp only [ih hothers, hplaces]
    rcases t.storeChunks name chunked total source (completed + 1 + rest.length) back d' world' with ⟨_ | _, _, _⟩
    · rfl
    · rfl

/-- An upload that has stored some chunks ends in the way that is left to it. -/
private theorem Ends.eq (hstored : t.storeChunks name chunked (front ++ back).length source 0 front d world =
      (.ok chunks, d', world'))
    (h : t.Ends name chunked source ⟨name, source.length, chunkSize, chunked, source.checksum?, false⟩
      (front ++ back).length front.length chunks d' world' back calls outcome) :
    t.storeAndRecord name chunked chunkSize source (front ++ back) d world = outcome := by
  rw [storeAndRecord, storeChunks_append hstored, Nat.zero_add]
  cases h with
  | cancelled hcancelled => simp only [storeChunks, hcancelled, if_true]
  | failed hgoing hchunk => simp only [storeChunks, hgoing, hchunk.eq, Bool.false_eq_true, if_false]
  | fileRefused hfile => simp only [storeChunks, List.append_nil, record, hfile]
  | chunksRefused hfile hchunks | recorded hfile hchunks =>
    simp only [storeChunks, List.append_nil, record, hfile, hchunks]

/-- Nothing is recorded by an upload that ends before all of its chunks are stored. -/
private theorem Apart.ends {α : Type} {view : σ → α} (hview : t.Apart view) (hback : back ≠ [])
    (h : t.Ends name chunked source file total completed chunks d world back calls outcome) :
    view outcome.2.2 = view world := by
  cases h with
  | cancelled => rfl
  | failed _ hchunk => exact hview.storesChunk hchunk
  | fileRefused | chunksRefused | recorded => exact absurd rfl hback

/-! ### Noted uploads -/

theorem tracing_notedBy (t : UploadTarget σ) : t.NotedBy .stored t.tracing :=
  ⟨fun _ _ _ _ => rfl, fun _ _ _ => rfl, fun _ _ => rfl, fun _ _ _ _ => rfl⟩

private theorem create_tracing {answer : Except Cause Nat} (h : t.metadata.create file world = (answer, world'))
    (notes : List UploadCall) :
    t.tracing.metadata.create file (world, notes) = (answer, world', notes ++ [.fileRecorded file answer]) := by
  simp only [tracing, h]

private theorem createChunks_tracing {id : Nat} {answer : Except Cause Unit}
    (h : t.metadata.createChunks id chunks world = (answer, world')) (notes : List UploadCall) :
    t.tracing.metadata.createChunks id chunks (world, notes) =
      (answer, world', notes ++ [.chunksRecorded id chunks answer]) := by
  simp only [tracing, h]

/-- Noting changes nothing about the end of an upload. -/
private theorem Ends.tracing
    (h : t.Ends name chunked source file total completed chunks d world back calls outcome) (notes : List UploadCall) :
    t.tracing.Ends name chunked source file total completed chunks d (world, notes) back calls
      (outcome.1, outcome.2.1, outcome.2.2, notes ++ calls) := by
  cases h with
  | cancelled hcancelled =>
    rw [List.append_nil]
    exact .cancelled hcancelled
  | failed hgoing hchunk => exact .failed hgoing (t.tracing_notedBy.storesChunk hchunk notes)
  | fileRefused hfile => exact .fileRefused (create_tracing hfile notes)
  | @chunksRefused id _ _ _ hfile hchunks =>
    have hboth := createChunks_tracing hchunks (notes ++ [.fileRecorded file (.ok id)])
    rw [List.append_assoc] at hboth
    exact .chunksRefused (create_tracing hfile notes) hboth
  | @recorded id _ _ hfile hchunks =>
    have hboth := createChunks_tracing hchunks (notes ++ [.fileRecorded file (.ok id)])
    rw [List.append_assoc] at hboth
    exact .recorded (create_tracing hfile notes) hboth

/-- The store is called for the next chunk at most once at the end of an upload, and for no other. -/
private theorem Ends.indices (h : t.Ends name chunked source file total completed chunks d world back calls outcome) :
    calls.filterMap UploadCall.index? = [] ∨
      ∃ b rest, back = b :: rest ∧ calls.filterMap UploadCall.index? = [b.index] := by
  cases h with
  | cancelled | fileRefused | chunksRefused | recorded => exact .inl rfl
  | failed _ hchunk =>
    cases hchunk with
    | unopened => exact .inl rfl
    | refused => exact .inr ⟨_, _, rfl, rfl⟩

end UploadTarget

end ChunkedStorage
