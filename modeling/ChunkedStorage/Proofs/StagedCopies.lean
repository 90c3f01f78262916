import ChunkedStorage.Proofs.Drains
import ChunkedStorage.Proofs.Staging

/-!
# Staged copies

A stream is staged exactly if it ends without a fault and is as long as declared.  Its copy then has the bytes of the
stream, however these were read, and no other file appears, changes or stays behind (`StagedSource.stage_exact`).
-/

namespace ChunkedStorage.StagedSource

variable {d d₁ : Disk} {source : StagedSource} {content : Bytes} {directory : String}

/-! ### What sources offer -/

/-- The source is as long as the content, its file has the content, and a window of it is read up to the end of its
span.  No file can be read from behind the last position. -/
structure Offers (source : StagedSource) (d : Disk) (content : Bytes) : Prop where
  length : source.length = content.length
  holds : d.contentAt source.path = .ok content
  windows : ∀ s : Span, s.start ≤ s.stop → s.stop ≤ content.length → s.start ≤ d.lastPosition →
    ∃ w, source.window d s = .ok w ∧ ∀ grant max, (Body.window w).Delivers d grant max (s.cut content)

theorem Stands.offers (h : source.Stands d content) : source.Offers d content where
  length := h.length
  holds := by
    obtain ⟨number, hopen, hcontent⟩ := h.opens d (.refl d)
    rw [Disk.contentAt, hopen, ← hcontent]
  windows := by
    intro s _ hstop hstart
    obtain ⟨w, hw, hholds, hwhole⟩ := h.window hstop hstart
    refine ⟨w, hw, ?_⟩
    intro grant max
    obtain ⟨pieces, body, hdrain, hpieces⟩ := hholds.drain hwhole grant max
    exact ⟨pieces, Body.drains_iff.2 ⟨body, hdrain⟩, hpieces⟩

/-- A file in place offers its content, and is not removed. -/
theorem ofPath_offers {path : String} (h : d.contentAt path = .ok content) :
    ∃ source, ofPath d path = .ok source ∧ source.path = path ∧ source.Offers d content ∧
      ∀ d', source.discard d' = d' := by
  unfold Disk.contentAt at h
  split at h
  · cases h
  · cases h
  · next number hopen =>
    cases h
    refine ⟨⟨path, (d.content number).length, none, none⟩, by rw [ofPath, hopen]; rfl, rfl, ?_, fun _ => rfl⟩
    refine ⟨rfl, by rw [Disk.contentAt, hopen], ?_⟩
    intro s _ hstop hstart
    obtain ⟨w, hw⟩ := FileWindow.ofFile_ok hopen hstart
    obtain ⟨hholds, hremaining, -⟩ := FileWindow.holds_ofFile hopen hw
    refine ⟨w, by rw [window, hw]; rfl, ?_⟩
    intro grant max
    rw [FileWindow.bytesOf] at hholds
    obtain ⟨pieces, body, hdrain, hpieces⟩ :=
      hholds.drain (by rw [hremaining, Span.length_cut_of_stop_le hstop]) grant max
    exact ⟨pieces, Body.drains_iff.2 ⟨body, hdrain⟩, hpieces⟩

/-! ### Directories for copies -/

/-- A directory that copies can be put in: it is there or can be made, and there is room in it for one more name. -/
structure Workable (d : Disk) (directory : String) : Prop where
  made : (d.makeDirectories directory).1 = .ok ()
  room : directory.utf8ByteSize + 1 + 37 < Disk.pathLimit
  countable : (d.makeDirectories directory).2.entries.length < wordLimit

/-- A copy that is removed leaves no trace. -/
private theorem sameFiles_unlink_withCopy (hsound : d.Sound) (hmade : d.makeDirectories directory = (.ok (), d₁))
    (there : Path) (content : Bytes) : d.SameFiles ((withCopy d₁ there content).unlink (copyPath d₁ there)) := by
  have hextends := Disk.Extends.of_makeDirectories d directory
  rw [hmade] at hextends
  have hgone := Disk.Same.unlink_withFile (hextends.sound hsound) (copyPath_ne_nil d₁ there)
    (d₁.entry?_freeName there copyStart) content
  exact hextends.sameFiles.trans hgone.sameFiles

private theorem sameFiles_of_error (hsound : d.Sound) {stream : InputStream} {declared buffer : Nat}
    {failure : Failure} (h : (stage d stream declared directory buffer).1 = .error failure) :
    d.SameFiles (stage d stream declared directory buffer).2 := by
  rcases hmade : d.makeDirectories directory with ⟨fault | _, d₁⟩
  · have hextends := Disk.Extends.of_makeDirectories d directory
    rw [hmade] at hextends
    rw [stage, hmade]
    exact hextends.sameFiles
  · obtain ⟨there, hleads⟩ := Disk.leads_of_makeDirectories hmade
    have hgone := sameFiles_unlink_withCopy hsound hmade there stream.content
    rw [stage_eq hmade hleads] at h ⊢
    split
    · exact hgone
    · next hended =>
      simp only [hended] at h
      split
      · next hlength =>
        rw [if_pos hlength] at h
        cases h
      · exact hgone

/-! ### Staging -/

/-- If a source comes of it, the stream delivered what was declared, and the source is its copy. -/
private theorem copy_of_stage {there : Path} (hmade : d.makeDirectories directory = (.ok (), d₁))
    (hleads : d₁.Leads directory there) {stream : InputStream} {declared buffer : Nat}
    (h : (stage d stream declared directory buffer).1 = .ok source) :
    stream.outcome = none ∧ stream.content.length = declared ∧ source = copyOf directory d₁ there stream.content ∧
      (stage d stream declared directory buffer).2 = withCopy d₁ there stream.content := by
  rw [stage_eq hmade hleads] at h ⊢
  split at h
  · cases h
  · next hended =>
    split at h
    · next hlength =>
      cases h
      simp only [hended, if_pos hlength]
      exact ⟨trivial, hlength, trivial, trivial⟩
    · cases h

/-- The name of a copy is free beforehand. -/
private theorem entry?_copyPath (hmade : d.makeDirectories directory = (.ok (), d₁)) (there : Path) :
    d.entry? (copyPath d₁ there) = none := by
  have hextends := Disk.Extends.of_makeDirectories d directory
  rw [hmade] at hextends
  cases hentry : d.entry? (copyPath d₁ there) with
  | none => rfl
  | some entry =>
    have hkept := hextends.kept _ _ hentry
    rw [copyPath, copyName, d₁.entry?_freeName] at hkept
    cases hkept

/-- Staging is exact and leaves nothing behind.  It succeeds if and only if the stream ends without a fault and is as
long as declared; a fault of the stream comes before its length.  The copy has the bytes of the stream and their digest,
and a window of it the bytes of its span, as long as nothing on the disk is lost, so that neither the pieces of the
stream nor the buffer matter.  The copy is the one file that was not there before, and removed when the source is given
up; if staging fails, for whatever reason, there is no such file.  A file in place is a source as well, and stays. -/
theorem stage_exact (hsound : d.Sound) (stream : InputStream) (declared buffer : Nat) (directory : String) :
    let answer := stage d stream declared directory buffer
    let content := stream.content
    (∀ failure, answer.1 = .error failure → d.SameFiles answer.2) ∧
      (Workable d directory →
        ((∃ source, answer.1 = .ok source) ↔ stream.outcome = none ∧ content.length = declared) ∧
        (∀ fault, stream.outcome = some fault → answer.1 = .error (.staging fault)) ∧
        (stream.outcome = none → content.length ≠ declared →
          answer.1 = .error (.sizeMismatch declared content.length)) ∧
        (∀ source, answer.1 = .ok source → source.checksum? = some (Sha256.hex content) ∧
          (∀ d', answer.2.Preserves d' → source.Offers d' content) ∧ d.SameFiles (source.discard answer.2) ∧
          ∃ copy, d.entry? copy = none ∧ ∀ d', source.discard d' = d'.unlink copy) ∧
        ∀ (stream' : InputStream) (buffer' : Nat), stream'.content = content → stream'.outcome = stream.outcome →
          stage d stream' declared directory buffer' = answer) ∧
      ∀ path content, d.contentAt path = .ok content → ∃ source, ofPath d path = .ok source ∧ source.path = path ∧
        source.Offers d content ∧ ∀ d', source.discard d' = d' := by
  intro answer content
  refine ⟨fun failure => sameFiles_of_error hsound, ?_, fun path content => ofPath_offers⟩
  intro hplace
  rcases hmade : d.makeDirectories directory with ⟨result, d₁⟩
  obtain rfl : result = .ok () := by
    have := hplace.made
    rwa [hmade] at this
  have hcountable := hplace.countable
  rw [hmade] at hcountable
  have hextends := Disk.Extends.of_makeDirectories d directory
  rw [hmade] at hextends
  obtain ⟨there, hleads⟩ := Disk.leads_of_makeDirectories hmade
  have hanswer := stage_eq hmade hleads stream declared buffer
  refine ⟨⟨?_, ?_⟩, ?_, ?_, ?_, ?_⟩
  · rintro ⟨source, hsource⟩
    obtain ⟨houtcome, hlength, -⟩ := copy_of_stage hmade hleads hsource
    exact ⟨houtcome, hlength⟩
  · rintro ⟨houtcome, hlength⟩
    simp only [houtcome, hlength, content, if_true] at hanswer
    exact ⟨_, congrArg Prod.fst hanswer⟩
  · intro fault hfault
    simp only [hfault] at hanswer
    exact congrArg Prod.fst hanswer
  · intro houtcome hlength
    rw [houtcome] at hanswer
    exact congrArg Prod.fst (hanswer.trans (if_neg hlength))
  · intro source hsource
    obtain ⟨-, -, rfl, hdisk⟩ := copy_of_stage hmade hleads hsource
    have hstands := stands_copyOf (hextends.sound hsound) hleads (hasRoom_copyName there hplace.room hcountable) content
    simp only [answer, hdisk]
    exact ⟨rfl, fun d' hkept => (hstands.mono hkept).offers, sameFiles_unlink_withCopy hsound hmade there content,
      copyPath d₁ there, entry?_copyPath hmade there, fun _ => rfl⟩
  · intro stream' buffer' hcontent houtcome
    rw [stage_eq hmade hleads, hcontent, houtcome]
    exact hanswer.symm

/-- Two pieces, and a buffer without room. -/
theorem stage_exact_twoPieces :
    ∃ source d', stage .empty ⟨[[1, 2], [3]], none⟩ 3 "" 0 = (.ok source, d') ∧ source.Offers d' [1, 2, 3] ∧
      Disk.empty.SameFiles (source.discard d') := by
  have hplace : Workable .empty "" := ⟨rfl, by decide, by decide⟩
  obtain ⟨-, hstaged, -⟩ := stage_exact Disk.sound_empty ⟨[[1, 2], [3]], none⟩ 3 0 ""
  obtain ⟨hiff, -, -, hsource, -⟩ := hstaged hplace
  obtain ⟨source, hok⟩ := hiff.2 ⟨rfl, rfl⟩
  obtain ⟨-, hoffers, hgone, -⟩ := hsource source hok
  exact ⟨source, _, Prod.ext hok rfl, hoffers _ (.refl _), hgone⟩

end ChunkedStorage.StagedSource
