import ChunkedStorage.Command.Session
import ChunkedStorage.Proofs.Disk.Writing
import ChunkedStorage.Proofs.HonestDirectory
import ChunkedStorage.Proofs.StoreCalls

/-!
# What uploads add to a disk

Whatever becomes of an upload to a directory, and whether or not there is room for its names, it adds objects to the
disk and nothing else (`ObjectDirectory.Adds`).  So an entry that is not the place of an object stays as it was
(`ObjectDirectory.Adds.leaves`), and what is under its path is read as before.
-/

namespace ChunkedStorage

namespace ObjectDirectory

variable {o : ObjectDirectory} {d d' : Disk} {bytes : Bytes} {text : String}

/-! ### Objects that are added -/

/-- The path of an object leads to this entry. -/
def IsObjectPlace (o : ObjectDirectory) (d : Disk) (p : Path) : Prop :=
  ∃ message parent name slashed, p = parent ++ [name] ∧
    d.locate (o.objectPath (Sha256.hex message)) = .ok (.name parent name slashed)

theorem IsObjectPlace.mono {p : Path} (h : o.IsObjectPlace d p)
    (hkept : ∀ p, d.entry? p = some .directory → d'.entry? p = some .directory) : o.IsObjectPlace d' p := by
  obtain ⟨message, parent, name, slashed, hp, hplace⟩ := h
  exact ⟨message, parent, name, slashed, hp, Disk.locate_mono hkept hplace⟩

/-- Nothing is lost; what is new are the directory and those above it, and files in the places of objects. -/
structure Adds (o : ObjectDirectory) (d d' : Disk) : Prop where
  preserves : d.Preserves d'
  sound : d'.Sound
  directory_iff : ∀ p, d'.entry? p = some .directory ↔ Disk.entry? (o.opened d) p = some .directory
  files : ∀ p number, d'.entry? p = some (.file number) →
    d.entry? p = some (.file number) ∨ o.IsObjectPlace (o.opened d) p

namespace Adds

/-- One more object is added where the directory is there already. -/
theorem trans {d'' : Disk} (h : o.Adds d d') (hopened : o.opened d' = d') (h' : o.Adds d' d'') : o.Adds d d'' where
  preserves := h.preserves.trans h'.preserves
  sound := h'.sound
  directory_iff := by
    intro p
    rw [h'.directory_iff, hopened, h.directory_iff]
  files := by
    intro p number hp
    rcases h'.files p number hp with hold | hplace
    · exact h.files p number hold
    · rw [hopened] at hplace
      exact .inr (hplace.mono fun p => (h.directory_iff p).1)

section

variable {d₁ : Disk} (hsound : d.Sound) (hopened : o.opened d = d₁)
include hsound hopened

/-- Where the directory is not filled, nothing is added but itself. -/
private theorem of_same (h : d₁.Same d') : o.Adds d d' := by
  subst hopened
  refine ⟨(o.extends_opened d).preserves.trans h.preserves, h.sound ((o.extends_opened d).sound hsound), ?_, ?_⟩
  · intro p
    rw [h.entries]
  · intro p number hp
    rw [h.entries] at hp
    exact .inl ((o.extends_opened d).files p number hp)

private theorem of_gains {p : Path} (hplace : o.IsObjectPlace d₁ p) (h : d₁.Gains d' p bytes) : o.Adds d d' := by
  subst hopened
  refine ⟨(o.extends_opened d).preserves.trans h.preserves, h.sound ((o.extends_opened d).sound hsound), ?_, ?_⟩
  · intro q
    refine ⟨?_, h.preserves.entries q _⟩
    intro hq
    rcases h.entry?_cases hq with ⟨-, _, -, hfile, -⟩ | hold
    · cases hfile
    · exact hold
  · intro q number hq
    rcases h.entry?_cases hq with ⟨rfl, -⟩ | hold
    · exact .inr hplace
    · exact .inl ((o.extends_opened d).files q number hold)

end

end Adds

/-! ### One object -/

/-- A finished file gets the place of its object, or vanishes. -/
private theorem keep_cases (o : ObjectDirectory) (bytes : Bytes) {incoming : Path} (hsound : d.Sound)
    (hnil : incoming ≠ []) (hfree : d.entry? incoming = none) (message : Bytes) :
    d.Same (o.keep (d.withFile incoming bytes) incoming (Sha256.hex message)).2 ∨
      ∃ p, o.IsObjectPlace d p ∧
        d.Gains (o.keep (d.withFile incoming bytes) incoming (Sha256.hex message)).2 p bytes := by
  have hgone := Disk.Same.unlink_withFile hsound hnil hfree bytes
  have hentries := d.entry?_withFile hnil bytes
  simp only [keep]
  split
  · exact .inl hgone
  · next hmissing =>
    split
    · next d' hmove =>
      have hincoming : Disk.entry? (d.withFile incoming bytes) incoming = some (.file d.contents.length) := by
        rw [hentries, if_pos rfl]
      obtain ⟨parent, name, slashed, hplace, ⟨found, hfound⟩, hcontents, hlimit, hmoved⟩ :=
        Disk.move_ok hnil hincoming hmove
      -- the name is free, or else the object would be there already
      have hfree' : Disk.entry? (d.withFile incoming bytes) (parent ++ [name]) = none := by
        rw [Disk.exists?, hplace, Except.bind, hfound] at hmissing
        have hnone : found = none := by simpa [Except.toOption] using hmissing
        exact Disk.entry?_of_entryAt (hnone ▸ hfound)
      have hother : parent ++ [name] ≠ incoming := by
        intro heq
        rw [heq, hincoming] at hfree'
        cases hfree'
      refine .inr ⟨parent ++ [name], ⟨message, parent, name, slashed, rfl, ?_⟩, ?_⟩
      · refine Disk.locate_mono ?_ hplace
        intro p hp
        rw [hentries] at hp
        split at hp
        · cases hp
        · exact hp
      · have hcontent (n : Nat) : d'.content n = if n = d.contents.length then bytes else d.content n := by
          rw [Disk.content, hcontents, ← Disk.content, d.content_withFile]
        have hlength : d'.contents.length = d.contents.length + 1 := by
          rw [hcontents, d.length_contents_withFile]
        have hlt : d.contents.length < d'.contents.length := by
          rw [hlength]
          exact Nat.lt_succ_self _
        rw [hentries, if_neg hother] at hfree'
        refine ⟨hfree', ⟨d.contents.length, hlt, by rw [hcontent, if_pos rfl], ?_⟩, ?_, Nat.le_of_lt hlt, hlimit⟩
        · intro q
          rw [hmoved, hentries]
          by_cases hq : q = incoming <;> simp [hq, hfree]
        · intro q number hq
          rw [hcontent, if_neg (Nat.ne_of_lt (hsound q number hq))]
    · exact .inl hgone

/-- The storing of an object adds the object or nothing, and if it succeeds the directory is there afterwards. -/
theorem adds_store (o : ObjectDirectory) (hsound : d.Sound) (grant : Nat) (upload : ChunkUpload) :
    o.Adds d (o.store d grant upload).2.2 ∧ ∀ stored, (o.store d grant upload).1 = .ok stored →
      o.opened (o.store d grant upload).2.2 = (o.store d grant upload).2.2 := by
  rcases hmade : d.makeDirectories o.root with ⟨fault | _, d₁⟩
  · have hopened : o.opened d = d₁ := by rw [opened, hmade]
    have hstore : o.store d grant upload = (.error (.write o.root fault), [], d₁) := by simp only [store, hmade]
    rw [hstore]
    exact ⟨.of_same hsound hopened (.refl d₁), by simp⟩
  · have hopened : o.opened d = d₁ := by rw [opened, hmade]
    obtain ⟨here, hleads⟩ := Disk.leads_of_makeDirectories hmade
    have hadds : o.Adds d (o.store d grant upload).2.2 := by
      have hsound₁ : d₁.Sound := hopened ▸ (o.extends_opened d).sound hsound
      have hnil := incoming_ne_nil d₁ here
      have hfree : d₁.entry? (incoming d₁ here) = none := d₁.entry?_freeName here incomingStart
      obtain ⟨pieces, last, hdrains⟩ := Body.exists_drains d₁ grant copySize upload.body
      have hgone := Adds.of_same hsound hopened (Disk.Same.unlink_withFile hsound₁ hnil hfree pieces.flatten)
      rw [store_eq hmade hleads hdrains]
      split
      · exact hgone
      · split
        · exact hgone
        · have hcases := keep_cases o pieces.flatten hsound₁ hnil hfree pieces.flatten
          generalize o.keep (d₁.withFile (incoming d₁ here) pieces.flatten) (incoming d₁ here)
            (Sha256.hex pieces.flatten) = kept at hcases ⊢
          rcases hcases with hsame | ⟨p, hplace, hgains⟩
          · exact .of_same hsound hopened hsame
          · exact .of_gains hsound hopened hplace hgains
    refine ⟨hadds, fun stored _ => ?_⟩
    generalize (o.store d grant upload).2.2 = d' at hadds ⊢
    have hleads' := hleads.mono fun p hp => (hadds.directory_iff p).2 (hopened ▸ hp)
    rw [opened, hleads'.makeDirectories]

/-! ### What is left as it was -/

/-- The path leads to nothing that uploads make: to no object, and to no directory that is still to be made. -/
structure Spares (o : ObjectDirectory) (d : Disk) (text : String) : Prop where
  objects : ∀ message, (o.opened d).NamesApart text (o.objectPath (Sha256.hex message))
  directories : ∀ parent name slashed, (o.opened d).locate text = .ok (.name parent name slashed) →
    Disk.entry? (o.opened d) (parent ++ [name]) = some .directory → d.entry? (parent ++ [name]) = some .directory

/-- What is under the path is as it was: it has the same entry, or is still missing, and if it is a file it has the same
bytes. -/
structure Leaves (d d' : Disk) (text : String) : Prop where
  content : ∀ bytes, d.contentAt text = .ok bytes → d'.contentAt text = .ok bytes
  entry : ∀ parent name slashed, d'.locate text = .ok (.name parent name slashed) →
    d'.entry? (parent ++ [name]) = d.entry? (parent ++ [name]) ∧
      ∀ number, d.entry? (parent ++ [name]) = some (.file number) → d'.content number = d.content number

theorem Leaves.refl (d : Disk) (text : String) : Leaves d d text :=
  ⟨fun _ h => h, fun _ _ _ _ => ⟨rfl, fun _ _ => rfl⟩⟩

end ObjectDirectory

/-! ### Whole uploads -/

namespace Session

variable {o : ObjectDirectory} {d : Disk}

private theorem adds_storeChunk (hsound : d.Sound) (name : String) (chunked : Bool) (total : Nat)
    (source : StagedSource) (b : ChunkBounds) (s : Session) :
    ((target o).storeChunk name chunked total source b d s).2.1 = d ∨
      o.Adds d ((target o).storeChunk name chunked total source b d s).2.1 ∧
        ∀ c, ((target o).storeChunk name chunked total source b d s).1 = .ok c →
          o.opened ((target o).storeChunk name chunked total source b d s).2.1 =
            ((target o).storeChunk name chunked total source b d s).2.1 := by
  obtain ⟨calls, hstores⟩ := (target o).storesChunk name chunked total source b d s
  generalize (target o).storeChunk name chunked total source b d s = outcome at hstores ⊢
  have hstore (upload : ChunkUpload) (s : Session) : (target o).store upload d s =
      ((o.store d Disk.readLimit upload).1.mapError .object, (o.store d Disk.readLimit upload).2.2,
        { s with patience? := s.patience?.map (· - 1) }) := rfl
  cases hstores with
  | unopened => exact .inl rfl
  | @refused w _ _ _ _ hrefused =>
    obtain ⟨hadds, -⟩ := o.adds_store hsound Disk.readLimit (UploadTarget.chunkUpload name chunked total b w)
    rw [hstore] at hrefused
    simp only [Prod.mk.injEq] at hrefused
    obtain ⟨-, rfl, -⟩ := hrefused
    exact .inr ⟨hadds, by simp⟩
  | @stored w stored _ _ _ hstored =>
    obtain ⟨hadds, hopened⟩ := o.adds_store hsound Disk.readLimit (UploadTarget.chunkUpload name chunked total b w)
    rw [hstore] at hstored
    simp only [Prod.mk.injEq] at hstored
    obtain ⟨hanswer, rfl, rfl⟩ := hstored
    refine .inr ⟨hadds, fun _ _ => hopened stored ?_⟩
    cases hdone : (o.store d Disk.readLimit (UploadTarget.chunkUpload name chunked total b w)).1 with
    | error fault =>
      rw [hdone] at hanswer
      cases hanswer
    | ok found =>
      rw [hdone] at hanswer
      rw [show found = stored from Except.ok.inj hanswer]

private theorem adds_storeChunks (hsound : d.Sound) (name : String) (chunked : Bool) (total : Nat)
    (source : StagedSource) (completed : Nat) (bounds : List ChunkBounds) (s : Session) :
    ((target o).storeChunks name chunked total source completed bounds d s).2.1 = d ∨
      o.Adds d ((target o).storeChunks name chunked total source completed bounds d s).2.1 := by
  induction bounds generalizing completed d s with
  | nil => exact .inl rfl
  | cons b rest ih =>
    have hfirst := adds_storeChunk (o := o) hsound name chunked total source b s
    unfold UploadTarget.storeChunks
    split
    · exact .inl rfl
    · rcases hchunk : (target o).storeChunk name chunked total source b d s with ⟨failure | c, d₁, s₁⟩
      · rw [hchunk] at hfirst
        rcases hfirst with hsame | ⟨hadds, -⟩
        · exact .inl hsame
        · exact .inr hadds
      · rw [hchunk] at hfirst
        have hall : ((target o).storeChunks name chunked total source (completed + 1) rest d₁ s₁).2.1 = d ∨
            o.Adds d ((target o).storeChunks name chunked total source (completed + 1) rest d₁ s₁).2.1 := by
          rcases hfirst with hsame | ⟨hadds, hopened⟩
          · obtain rfl : d₁ = d := hsame
            exact ih hsound (completed + 1) s₁
          · rcases ih hadds.sound (completed + 1) s₁ with hsame | hrest
            · exact .inr (hsame.symm ▸ hadds)
            · exact .inr (hadds.trans (hopened c rfl) hrest)
        simp only
        rcases hothers : (target o).storeChunks name chunked total source (completed + 1) rest d₁ s₁ with
          ⟨failure | others, d₂, s₂⟩
        all_goals
          rw [hothers] at hall
          exact hall

/-- An upload adds objects to the disk, or leaves it as it was. -/
theorem adds_uploadStaged (hsound : d.Sound) (c : ChunkingConfig) (name : String) (source : StagedSource)
    (s : Session) :
    ((target o).uploadStaged c name source d s).2.1 = d ∨ o.Adds d ((target o).uploadStaged c name source d s).2.1 := by
  have hstored (chunked : Bool) (chunkSize : Nat) (bounds : List ChunkBounds) :
      ((target o).storeAndRecord name chunked chunkSize source bounds d s).2.1 = d ∨
        o.Adds d ((target o).storeAndRecord name chunked chunkSize source bounds d s).2.1 := by
    have hchunks := adds_storeChunks (o := o) hsound name chunked bounds.length source 0 bounds s
    unfold UploadTarget.storeAndRecord
    split
    all_goals
      next hresult =>
      rw [hresult] at hchunks
      exact hchunks
  unfold UploadTarget.uploadStaged
  split
  · exact .inl rfl
  · unfold UploadTarget.uploadSource
    split
    · unfold UploadTarget.uploadChunked
      split
      · exact .inl rfl
      · split
        · exact .inl rfl
        · exact hstored _ _ _
    · exact hstored _ _ _

end Session

end ChunkedStorage
