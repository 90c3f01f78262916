import ChunkedStorage.Proofs.Disk.Files
import ChunkedStorage.Proofs.Window
import ChunkedStorage.Staging

/-!
# Staged sources

However a stream is cut into pieces and read into a buffer, its copy holds the bytes of the stream
(`StagedSource.stage_eq`).  A copy stands as long as the disk loses nothing, and a window of it holds the bytes of its
span (`StagedSource.Stands.window`).
-/

namespace ChunkedStorage

/-! ### Streams -/

namespace InputStream

/-- The bytes that a stream gives before it ends or fails. -/
def content (s : InputStream) : Bytes := (s.pieces.takeWhile (· ≠ [])).flatten

/-- The stream ends without a fault, and its pieces make the content. -/
structure Delivers (s : InputStream) (content : Bytes) : Prop where
  outcome : s.outcome = none
  pieces : (s.pieces.takeWhile (· ≠ [])).flatten = content

theorem flatten_cutFor {size fuel : Nat} (hsize : 0 < size) {bytes : Bytes} (hfuel : bytes.length ≤ fuel) :
    (cutFor fuel size bytes).flatten = bytes := by
  induction fuel generalizing bytes with
  | zero => exact (List.eq_nil_of_length_eq_zero (Nat.le_zero.1 hfuel)).symm
  | succ fuel ih =>
    unfold cutFor
    split
    · next hnil => rw [hnil, List.flatten_nil]
    · next hsome =>
      have hpositive := List.length_pos_iff.2 hsome
      have hrest : (bytes.drop size).length ≤ fuel := by
        rw [List.length_drop]
        omega
      rw [List.flatten_cons, ih hrest, List.take_append_drop]

theorem flatten_cut (size : Nat) (bytes : Bytes) : (cut size bytes).flatten = bytes :=
  flatten_cutFor (Nat.lt_of_lt_of_le Nat.zero_lt_one (Nat.le_max_right ..)) (Nat.le_refl _)

/-- What is read does not depend on the buffer. -/
theorem flatten_reads (s : InputStream) (buffer : Nat) : (s.reads buffer).flatten = s.content := by
  unfold reads content
  induction s.pieces.takeWhile (· ≠ []) with
  | nil => rfl
  | cons piece rest ih => rw [List.flatMap_cons, List.flatten_append, flatten_cut, ih, List.flatten_cons]

end InputStream

namespace StagedSource

variable {d d₁ : Disk} {source : StagedSource} {content : Bytes}

/-! ### Sources that stand -/

/-- The path of the source leads to a file with the content, and goes on to do so as long as nothing is lost. -/
structure Stands (source : StagedSource) (d : Disk) (content : Bytes) : Prop where
  length : source.length = content.length
  opens : ∀ d', d.Preserves d' → ∃ number, d'.openEntry source.path = .ok (.file number) ∧ d'.content number = content

namespace Stands

theorem mono {d' : Disk} (h : source.Stands d content) (hpreserves : d.Preserves d') : source.Stands d' content where
  length := h.length
  opens := fun d'' hpreserves' => h.opens d'' (hpreserves.trans hpreserves')

/-- A window of the source holds the bytes of its span. -/
theorem window {s : Span} (h : source.Stands d content) (hstop : s.stop ≤ content.length)
    (hstart : s.start ≤ d.lastPosition) :
    ∃ w, source.window d s = .ok w ∧ w.Holds d (s.cut content) ∧ (s.cut content).length = w.remaining := by
  obtain ⟨number, hopen, hcontent⟩ := h.opens d (.refl d)
  obtain ⟨w, hw⟩ := FileWindow.ofFile_ok hopen hstart
  obtain ⟨hholds, hremaining, -⟩ := FileWindow.holds_ofFile hopen hw
  rw [FileWindow.bytesOf, hcontent] at hholds
  refine ⟨w, ?_, hholds, ?_⟩
  · rw [StagedSource.window, hw]
    rfl
  · rw [hremaining, Span.length_cut_of_stop_le hstop]

end Stands

/-! ### Staging -/

/-- The name of the next copy. -/
def copyName (d : Disk) (there : Path) : String := d.freeName there copyStart

theorem copyName_eq (d : Disk) (there : Path) :
    ∃ n ≤ d.entries.length, copyName d there = copyStart ++ toString n := by
  obtain ⟨n, hn, hname, -⟩ := d.freeName_eq there copyStart
  exact ⟨n, hn, hname⟩

theorem copyName_ne_hex (d : Disk) (there : Path) (message : Bytes) : copyName d there ≠ Sha256.hex message := by
  obtain ⟨n, -, hname⟩ := copyName_eq d there
  have hletter : 'h' ∈ copyStart.toList := by decide
  rw [hname]
  exact Sha256.numbered_ne_hex hletter (by decide) n message

def copyPath (d : Disk) (there : Path) : Path := there ++ [copyName d there]

theorem copyPath_ne_nil (d : Disk) (there : Path) : copyPath d there ≠ [] := by simp [copyPath]

theorem copyPath_ne_hex (d : Disk) (here there : Path) (message : Bytes) :
    here ++ [Sha256.hex message] ≠ copyPath d there := by
  intro hsame
  refine copyName_ne_hex d there message ?_
  simpa [copyPath] using (congrArg List.getLast? hsame).symm

/-- The disk with the copy of a content. -/
def withCopy (d : Disk) (there : Path) (content : Bytes) : Disk := d.withFile (copyPath d there) content

theorem entry?_withCopy (d : Disk) (there : Path) (content : Bytes) :
    Disk.entry? (withCopy d there content) (copyPath d there) = some (.file d.contents.length) := by
  rw [withCopy, d.entry?_withFile (copyPath_ne_nil d there), if_pos rfl]

theorem preserves_withCopy (hsound : d.Sound) (there : Path) (content : Bytes) :
    d.Preserves (withCopy d there content) :=
  .withFile hsound (copyPath_ne_nil d there) (d.entry?_freeName there copyStart) content

/-- The copy of a stream. -/
def copyOf (directory : String) (d : Disk) (there : Path) (content : Bytes) : StagedSource where
  path := Disk.join directory (copyName d there)
  length := content.length
  checksum? := some (Sha256.hex content)
  copy? := some (copyPath d there)

/-- A stream is copied whole.  Its copy is removed again if the stream failed or is not as long as declared. -/
theorem stage_eq {directory : String} {there : Path} (hmade : d.makeDirectories directory = (.ok (), d₁))
    (hleads : d₁.Leads directory there) (stream : InputStream) (declared buffer : Nat) :
    stage d stream declared directory buffer =
      match stream.outcome with
      | some fault => (.error (.staging fault), (withCopy d₁ there stream.content).unlink (copyPath d₁ there))
      | none =>
        if stream.content.length = declared then
          (.ok (copyOf directory d₁ there stream.content), withCopy d₁ there stream.content)
        else
          (.error (.sizeMismatch declared stream.content.length),
            (withCopy d₁ there stream.content).unlink (copyPath d₁ there)) := by
  have hreads := stream.flatten_reads buffer
  have hcontent := d₁.content_withFile (copyPath d₁ there) stream.content d₁.contents.length
  rw [if_pos rfl] at hcontent
  have hnumber (p : Path) : (d₁.addFile p).1 = d₁.contents.length := rfl
  have hwritten : (d₁.addFile (copyPath d₁ there)).2.append d₁.contents.length stream.content =
    d₁.withFile (copyPath d₁ there) stream.content := rfl
  unfold copyOf withCopy
  unfold copyPath copyName at hcontent hwritten ⊢
  unfold stage
  cases stream.outcome
  all_goals
    simp only [hmade, hleads.createTemporary, copyParts, Sha256.finish_foldl_update, hnumber, hreads, hwritten,
      hcontent, List.getLastD_concat, ne_eq, ite_not]

/-- A stream that delivers what it declares is copied. -/
theorem stage_ok {directory : String} {there : Path} {stream : InputStream}
    (hmade : d.makeDirectories directory = (.ok (), d₁)) (hleads : d₁.Leads directory there)
    (hstream : stream.Delivers content) (buffer : Nat) :
    stage d stream content.length directory buffer =
      (.ok (copyOf directory d₁ there content), withCopy d₁ there content) := by
  obtain ⟨houtcome, rfl⟩ := hstream
  rw [stage_eq hmade hleads, houtcome]
  exact if_pos rfl

/-- There is room for a copy behind the path of its directory, if the entries of the disk can be counted in a word. -/
theorem hasRoom_copyName {directory : String} (there : Path)
    (hroom : directory.utf8ByteSize + 1 + 37 < Disk.pathLimit) (hentries : d.entries.length < wordLimit) :
    Disk.HasRoom directory (copyName d there) := by
  obtain ⟨n, hn, hname⟩ := copyName_eq d there
  have hsize : (copyName d there).utf8ByteSize ≤ copyStart.utf8ByteSize + 20 := by
    rw [hname]
    refine Disk.utf8ByteSize_numbered_le copyStart (by decide) (Nat.lt_of_le_of_lt hn (Nat.lt_trans hentries ?_))
    decide
  have hstart : copyStart.utf8ByteSize = 17 := rfl
  refine ⟨?_, by omega⟩
  have : Disk.nameLimit = 255 := rfl
  omega

theorem stands_copyOf {directory : String} {there : Path} (hsound : d.Sound) (hleads : d.Leads directory there)
    (hroom : Disk.HasRoom directory (copyName d there)) (content : Bytes) :
    (copyOf directory d there content).Stands (withCopy d there content) content where
  length := rfl
  opens := by
    intro d' hpreserves
    have hplain : Disk.IsPlain (copyName d there) := by
      obtain ⟨n, -, hname⟩ := copyName_eq d there
      rw [hname]
      exact Disk.isPlain_numbered (by decide) (by decide) (by decide) n
    have hentry := entry?_withCopy d there content
    have hkept := (preserves_withCopy hsound there content).trans hpreserves
    have hleads' : d'.Leads directory there := hleads.mono fun p hp => hkept.entries p _ hp
    refine ⟨d.contents.length, hleads'.openEntry_join hplain hroom (hpreserves.entries _ _ hentry), ?_⟩
    rw [hpreserves.contents _ _ hentry, withCopy, d.content_withFile, if_pos rfl]

end StagedSource

end ChunkedStorage
