import ChunkedStorage.ObjectDirectory

/-!
# Storing in any circumstances

The system may hand over another number of bytes at each read of a body, and any step of the storing of an object may
fail for a reason of its own.  The storing in such circumstances (`ObjectDirectory.storeAmid`) is that of the directory
if nothing fails and the reads are all alike (`ObjectDirectory.storeAmid_calm`).  However it goes, there is one report
for each piece that is written (`ObjectDirectory.exists_storeAmid`).
-/

namespace ChunkedStorage

/-- A step of the storing of an object that can fail for a reason outside of the disk. -/
inductive StoreStep where
  | directory
  | file
  | read (number : Nat)
  | write (number : Nat)
  | flush
  | naming

/-- What the storing of an object meets with. -/
structure Circumstances where
  /-- How many bytes the system hands over at a read. -/
  grant : (number : Nat) → Nat
  fault? : StoreStep → Option IoFault

/-- Nothing fails, and all reads are alike. -/
def Circumstances.calm (grant : Nat) : Circumstances := ⟨fun _ => grant, fun _ => none⟩

namespace ObjectDirectory

variable {o : ObjectDirectory} {d : Disk} {upload : ChunkUpload} {c : Circumstances}

/-- Copies a body from a read on, behind the bytes that are written already: the pieces that are written, the report on
each of them, and how the copying ends. -/
def copyFor (o : ObjectDirectory) (upload : ChunkUpload) (d : Disk) (c : Circumstances) :
    (fuel number written : Nat) → Body → List Bytes × List ProgressReport × Except ObjectFault Unit
  | 0, _, _, _ => ([], [], .ok ())
  | fuel + 1, number, written, body =>
    match c.fault? (.read number) with
    | some fault => ([], [], .error (.readBody upload.index (.io fault)))
    | none =>
      match body.read d (c.grant number) copySize with
      | (.error fault, _) => ([], [], .error (.readBody upload.index fault))
      | (.ok none, _) => ([], [], .ok ())
      | (.ok (some piece), body) =>
        match c.fault? (.write number) with
        | some fault => ([], [], .error (.write o.root fault))
        | none =>
          let (pieces, made, result) := copyFor o upload d c fuel (number + 1) (written + piece.length) body
          (piece :: pieces, ⟨upload.progress, written + piece.length, max upload.length 1⟩ :: made, result)

/-- Finishes the file of an object that is copied, and gives it its name. -/
def finish (o : ObjectDirectory) (d : Disk) (c : Circumstances) (upload : ChunkUpload) (incoming : Path)
    (number : Nat) (hasher : Sha256.Hasher) : Except ObjectFault StoredObject × Disk :=
  match c.fault? .flush with
  | some fault => (.error (.write o.root fault), d.unlink incoming)
  | none =>
    let written := (d.content number).length
    if written ≠ upload.length then
      (.error (.shortBody upload.index upload.length written), d.unlink incoming)
    else
      match c.fault? .naming with
      | some fault => (.error (.write o.root fault), d.unlink incoming)
      | none => o.keep d incoming hasher.finish

/-- Stores an object, with the reports made on the way. A failed upload leaves no file behind. -/
def storeAmid (o : ObjectDirectory) (d : Disk) (c : Circumstances) (upload : ChunkUpload) :
    Except ObjectFault StoredObject × List ProgressReport × Disk :=
  match d.makeDirectories o.root with
  | (.error fault, d) => (.error (.write o.root fault), [], d)
  | (.ok (), d) =>
    match c.fault? .directory with
    | some fault => (.error (.write o.root fault), [], d)
    | none =>
      match d.createTemporary o.root incomingStart with
      | .error fault => (.error (.write o.root fault), [], d)
      | .ok (incoming, number, d) =>
        match c.fault? .file with
        | some fault => (.error (.write o.root fault), [], d.unlink incoming)
        | none =>
          let (pieces, made, result) := o.copyFor upload d c (upload.body.remaining + 1) 0 0 upload.body
          let (d, hasher) := StagedSource.copyParts d number pieces
          match result with
          | .error fault => (.error fault, made, d.unlink incoming)
          | .ok () =>
            let (stored, d) := o.finish d c upload incoming number hasher
            (stored, made, d)

/-! ### Calm circumstances -/

private theorem copyFor_calm (o : ObjectDirectory) (upload : ChunkUpload) (d : Disk)
    (grant fuel number written : Nat) (body : Body) :
    o.copyFor upload d (.calm grant) fuel number written body =
      ((body.drainFor fuel d grant copySize).1, reports upload written (body.drainFor fuel d grant copySize).1,
        match (body.drainFor fuel d grant copySize).2.1 with
        | .error fault => .error (.readBody upload.index fault)
        | .ok _ => .ok ()) := by
  induction fuel generalizing number written body with
  | zero => rfl
  | succ fuel ih =>
    have hcalm (step : StoreStep) : (Circumstances.calm grant).fault? step = none := rfl
    have hgrant : (Circumstances.calm grant).grant number = grant := rfl
    rcases hread : body.read d grant copySize with ⟨fault | _ | piece, body'⟩
    all_goals simp only [copyFor, hcalm, hgrant, Body.drainFor, hread, reports]
    rw [ih]

/-- Where nothing fails and the reads are alike, an object is stored as the directory stores it. -/
theorem storeAmid_calm (o : ObjectDirectory) (d : Disk) (grant : Nat) (upload : ChunkUpload) :
    o.storeAmid d (.calm grant) upload = o.store d grant upload := by
  have hcalm (step : StoreStep) : (Circumstances.calm grant).fault? step = none := rfl
  unfold storeAmid store
  rcases d.makeDirectories o.root with ⟨fault | _, d⟩
  · rfl
  · simp only [hcalm]
    rcases d.createTemporary o.root incomingStart with fault | ⟨incoming, number, d⟩
    · rfl
    · rcases hlast : (upload.body.drainFor (upload.body.remaining + 1) d grant copySize).2.1 with fault | last
      · simp only [copyFor_calm, Body.drain, hlast]
      · simp only [copyFor_calm, Body.drain, hlast, finish, hcalm]
        split
        · next hshort => exact (if_pos hshort).symm
        · next hwhole => exact (if_neg hwhole).symm

/-! ### Reports -/

private theorem copyFor_reports (o : ObjectDirectory) (upload : ChunkUpload) (d : Disk) (c : Circumstances)
    (fuel number written : Nat) (body : Body) :
    (o.copyFor upload d c fuel number written body).2.1 =
      reports upload written (o.copyFor upload d c fuel number written body).1 := by
  induction fuel generalizing number written body with
  | zero => rfl
  | succ fuel ih =>
    unfold copyFor
    split
    · rfl
    · split
      · rfl
      · rfl
      · split
        · rfl
        · simp only [reports, ih]

/-- However the storing of an object goes, there is one report for each piece that is written. -/
theorem exists_storeAmid (o : ObjectDirectory) (d : Disk) (c : Circumstances) (upload : ChunkUpload) :
    ∃ pieces, (o.storeAmid d c upload).2.1 = reports upload 0 pieces := by
  unfold storeAmid
  split
  · exact ⟨[], rfl⟩
  · split
    · exact ⟨[], rfl⟩
    · split
      · exact ⟨[], rfl⟩
      · split
        · exact ⟨[], rfl⟩
        · simp only
          split <;> exact ⟨_, copyFor_reports ..⟩

end ObjectDirectory

end ChunkedStorage
