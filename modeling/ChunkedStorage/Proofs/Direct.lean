import ChunkedStorage.Backend.Direct
import ChunkedStorage.Proofs.ObjectDirectory
import ChunkedStorage.Proofs.Reader.Whole

/-!
# Reads of an object directory

Whatever is on the disk, a backend that reads from a directory serves the files of the directory
(`ObjectDirectory.backend_serves`).  As long as the directory has the objects of some chunks, nothing goes wrong with
them (`ObjectDirectory.backend_flawless`).
-/

namespace ChunkedStorage

@[simp] theorem AccessLocation.path_ofFile (text : String) : (ofFile text).path = text := by
  have hurl : (ofFile text).url.toList = ofFile.fileScheme ++ text.toList := String.toList_ofList ..
  simp only [path, hurl, ofFile.fileScheme, List.cons_append, List.nil_append, String.ofList_toList]

namespace ObjectDirectory

variable {σ : Type} {o : ObjectDirectory} {disk : σ → Disk} {policy : RetryPolicy} {around : Surroundings σ} {d : Disk}

/-- The bytes of the file that an object would be in. -/
def objectOf (o : ObjectDirectory) (d : Disk) (ref : String) : Bytes :=
  match d.openEntry (o.objectPath ref) with
  | .ok entry => FileWindow.bytesOf d entry
  | .error _ => []

/-- A body is a window of a file, which holds what is left of a span. -/
def Held (d : Disk) (body : Body) (left : Bytes) : Prop := ∃ w, body = .window w ∧ w.Holds d left

/-- The number of bytes that a window still has to deliver. -/
def Announced (body : Body) (n : Nat) : Prop := ∃ w, body = .window w ∧ w.remaining = n

/-- What surrounds the reads changes nothing on the disk, and the object is never closed. -/
structure Calm (around : Surroundings σ) (disk : σ → Disk) : Prop where
  live : ∀ world, around.isClosed world = false
  pause : ∀ time world, disk (around.pause time world) = disk world
  count : ∀ counter n world, disk (around.count counter n world) = disk world

private theorem backend_keeps (haround : Calm around disk) (d : Disk) :
    (o.backend disk policy around).Keeps (fun world => disk world = d) where
  pause := fun h => (haround.pause _ _).trans h
  count := fun h => (haround.count _ _ _).trans h
  resolve := fun h => h
  openBody := fun h => h
  readBody := fun h => h
  closeBody := fun h => h

/-- A body that is opened is a window of the file of its object. -/
theorem window_of_opens {ref : String} {s : Span} {body : Body}
    (h : (o.backend disk policy around).Opens (fun world => disk world = d) ref s body) :
    ∃ w entry, body = .window w ∧ d.openEntry (o.objectPath ref) = .ok entry ∧
      FileWindow.ofFile d (o.objectPath ref) s = .ok w := by
  obtain ⟨world, location, world₁, world₂, rfl, hresolve, hopen⟩ := h
  simp only [backend, Prod.mk.injEq, Reply.done.injEq] at hresolve hopen
  obtain ⟨hresolve, rfl⟩ := hresolve
  have hlocation : location = .ofFile (o.objectPath ref) := by
    cases hfound : o.resolve (disk world) ref with
    | error fault =>
      rw [hfound] at hresolve
      cases hresolve
    | ok found =>
      rw [hfound] at hresolve
      cases hresolve
      exact (resolve_eq_some_iff.1 hfound).1
  have hbody := hopen.1
  unfold ObjectDirectory.openBody at hbody
  rw [hlocation, AccessLocation.path_ofFile] at hbody
  split at hbody
  · next w hw =>
    cases hbody
    cases hentry : (disk world).openEntry (o.objectPath ref) with
    | error fault =>
      rw [FileWindow.ofFile, hentry] at hw
      cases hw
    | ok entry => exact ⟨w, entry, rfl, rfl, hw⟩
  · cases hbody

/-- A backend that reads from a directory serves the files of the directory. -/
theorem backend_serves (haround : Calm around disk) (d : Disk) :
    (o.backend disk policy around).Serves (o.objectOf d) (fun world => disk world = d) (Held d) where
  toKeeps := backend_keeps haround d
  opened := by
    intro ref s body hopens
    obtain ⟨w, entry, rfl, hentry, hw⟩ := window_of_opens hopens
    unfold objectOf
    rw [hentry]
    exact ⟨w, rfl, (FileWindow.holds_ofFile hentry hw).1⟩
  read := by
    rintro body left max world answer body' world' rfl ⟨w, rfl, hw⟩ hread
    rcases hwindow : w.read (disk world) Disk.readLimit max with ⟨delivery, w'⟩
    simp only [backend, Body.read, hwindow, Prod.mk.injEq] at hread
    obtain ⟨rfl, rfl, rfl⟩ := hread
    obtain ⟨hlength, left', hleft, hholds⟩ := hw.read hwindow
    exact ⟨hlength, left', hleft, w', rfl, hholds⟩

private theorem backend_bounded (haround : Calm around disk) (d : Disk) :
    (o.backend disk policy around).Bounded (fun world => disk world = d) Announced where
  toKeeps := backend_keeps haround d
  opened := by
    intro ref s body hopens
    obtain ⟨w, entry, rfl, hentry, hw⟩ := window_of_opens hopens
    exact ⟨w, rfl, (FileWindow.holds_ofFile hentry hw).2.1⟩
  read := by
    rintro body n max world answer body' world' rfl ⟨w, rfl, rfl⟩ hread
    rcases hwindow : w.read (disk world) Disk.readLimit max with ⟨delivery, w'⟩
    simp only [backend, Body.read, hwindow, Prod.mk.injEq] at hread
    obtain ⟨rfl, rfl, rfl⟩ := hread
    obtain ⟨hlength, hremaining⟩ := FileWindow.read_remaining hwindow
    exact ⟨hlength, w', rfl, hremaining⟩

/-- A span of an object that the directory has is opened at once. -/
private theorem openChunk_ok {bytes : Bytes} {c : Chunk} {s : Span} {world : σ} (hroom : o.HasRoom)
    (hhas : o.Has (disk world) bytes) (href : c.remoteRef = Sha256.hex bytes)
    (hstart : s.start ≤ (disk world).lastPosition) :
    ∃ body, (o.backend disk policy around).openChunk c s world = (.done (.ok body), world) := by
  obtain ⟨number, hentry, -⟩ := hhas.openEntry hroom
  obtain ⟨w, hw⟩ := FileWindow.ofFile_ok hentry hstart
  have hattempt : (o.backend disk policy around).attempt c.remoteRef s world = (.done (.ok (.window w)), world) := by
    have hresolve : o.resolve (disk world) c.remoteRef = .ok (some (.ofFile (o.objectPath c.remoteRef))) := by
      rw [href]
      exact resolve_eq_some_iff.2 ⟨rfl, _, hentry⟩
    have hlasting : ∀ now, (AccessLocation.ofFile (o.objectPath c.remoteRef)).isExpiredAt now = false := fun _ => rfl
    have hopen : ObjectDirectory.openBody (disk world) (.ofFile (o.objectPath c.remoteRef)) s = .ok (.window w) := by
      unfold ObjectDirectory.openBody
      rw [AccessLocation.path_ofFile, href, hw]
    simp only [Backend.attempt, backend, hresolve, Except.mapError, hlasting, hopen, Bool.false_eq_true, if_false]
  refine ⟨.window w, ?_⟩
  unfold Backend.openChunk Backend.openFrom
  rw [hattempt]

/-- Chunks that the directory has are read without any failure. -/
theorem backend_flawless {chunks : List Chunk} (haround : Calm around disk) (hroom : o.HasRoom)
    (hchunks : ∀ c ∈ chunks, c.length ≤ d.lastPosition ∧
      ∃ bytes, c.remoteRef = Sha256.hex bytes ∧ o.Has d bytes) :
    (o.backend disk policy around).Flawless chunks (o.objectOf d) (fun world => disk world = d) (Held d) Announced where
  toServes := backend_serves haround d
  bounded := backend_bounded haround d
  live := fun _ => haround.live _
  opens := by
    rintro c s world rfl hc hle hstop
    obtain ⟨hlimit, bytes, href, hhas⟩ := hchunks c hc
    obtain ⟨body, hopen⟩ := openChunk_ok hroom hhas href (show s.start ≤ (disk world).lastPosition by omega)
    exact ⟨body, world, hopen⟩
  gives := by
    rintro body left max world rfl ⟨w, rfl, hw⟩ ⟨w', hwindow, hannounced⟩
    cases hwindow
    rcases hw.read_whole hannounced.symm Disk.readLimit max with ⟨hnil, hread⟩ | ⟨piece, left', w', hne, hread, -, -, -⟩
    · refine ⟨.ok none, .window w, world, ?_, .inl ⟨hnil, rfl⟩⟩
      simp only [backend, Body.read, hread]
    · refine ⟨.ok (some piece), .window w', world, ?_, .inr ⟨piece, hne, rfl⟩⟩
      simp only [backend, Body.read, hread]

end ObjectDirectory

end ChunkedStorage
