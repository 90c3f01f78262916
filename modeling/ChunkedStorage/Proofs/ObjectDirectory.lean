import ChunkedStorage.ObjectDirectory
import ChunkedStorage.Proofs.Disk.Files
import ChunkedStorage.Proofs.Drains

/-!
# Objects in a directory

The storing of an object can go four ways (`ObjectDirectory.Stores`).  A directory whose objects hash to their names
stays so when an object is stored in it, and has the object afterwards (`ObjectDirectory.store_ok`).  Whatever was on
the disk before is left as it was, so that an object that is there once stays there (`ObjectDirectory.Has.mono`).
-/

namespace ChunkedStorage

namespace ObjectDirectory

variable {o : ObjectDirectory} {d d' : Disk} {here : Path} {bytes : Bytes}

/-- There is room for the names of objects behind the path of the directory. -/
def HasRoom (o : ObjectDirectory) : Prop := o.root.utf8ByteSize + 1 + 64 < Disk.pathLimit

theorem HasRoom.digest (h : o.HasRoom) {name : String} (hname : Sha256.IsDigest name) : Disk.HasRoom o.root name where
  short := by
    rw [hname.utf8ByteSize]
    decide
  path := by
    rw [hname.utf8ByteSize]
    exact h

theorem HasRoom.hex (h : o.HasRoom) (message : Bytes) : Disk.HasRoom o.root (Sha256.hex message) :=
  h.digest (Sha256.isDigest_hex message)

/-! ### Objects that are there -/

/-- The directory has an object, in a file that is named by the digest. -/
def Has (o : ObjectDirectory) (d : Disk) (bytes : Bytes) : Prop :=
  ∃ here number, d.Leads o.root here ∧ d.entry? (here ++ [Sha256.hex bytes]) = some (.file number) ∧
    d.content number = bytes

theorem Has.mono (h : o.Has d bytes) (hpreserves : d.Preserves d') : o.Has d' bytes := by
  obtain ⟨here, number, hleads, hentry, hcontent⟩ := h
  refine ⟨here, number, hleads.mono fun p hp => hpreserves.entries p _ hp, hpreserves.entries _ _ hentry, ?_⟩
  rw [hpreserves.contents _ _ hentry, hcontent]

/-- An object stays when a file is removed that is named by no digest. -/
theorem Has.unlink {file : Path} {number : Nat} (h : o.Has d bytes) (hpath : file ≠ [])
    (hother : ∀ here, here ++ [Sha256.hex bytes] ≠ file) (hfile : d.entry? file = some (.file number)) :
    o.Has (d.unlink file) bytes := by
  obtain ⟨here, n, hleads, hentry, hcontent⟩ := h
  refine ⟨here, n, hleads.mono ?_, ?_, hcontent⟩
  · intro p hp
    rw [Disk.entry?_unlink d hpath, if_neg]
    · exact hp
    · rintro rfl
      rw [hfile] at hp
      cases hp
  · rwa [Disk.entry?_unlink d hpath, if_neg (hother here)]

theorem Has.openEntry (h : o.Has d bytes) (hroom : o.HasRoom) :
    ∃ number, d.openEntry (o.objectPath (Sha256.hex bytes)) = .ok (.file number) ∧ d.content number = bytes := by
  obtain ⟨here, number, hleads, hentry, hcontent⟩ := h
  exact ⟨number, hleads.openEntry_join (Sha256.isDigest_hex bytes).isPlain (hroom.hex bytes) hentry, hcontent⟩

/-- The directory is open, and what it has under the name of a digest is an object of that digest, one of those kept. -/
structure Stocks (o : ObjectDirectory) (kept : Bytes → Prop) (d : Disk) (here : Path) : Prop where
  sound : d.Sound
  leads : d.Leads o.root here
  objects : ∀ message entry, d.entry? (here ++ [Sha256.hex message]) = some entry →
    ∃ number, entry = .file number ∧ kept (d.content number) ∧ Sha256.hex (d.content number) = Sha256.hex message

/-- The directory is stocked as soon as it is made. -/
def Ready (o : ObjectDirectory) (kept : Bytes → Prop) (d : Disk) (here : Path) : Prop :=
  ∃ d₁, d.makeDirectories o.root = (.ok (), d₁) ∧ o.Stocks kept d₁ here

theorem Stocks.ready {kept : Bytes → Prop} (h : o.Stocks kept d here) : o.Ready kept d here :=
  ⟨d, h.leads.makeDirectories, h⟩

/-- An object is located exactly if there is something under its path. -/
theorem resolve_eq_some_iff {ref : String} {location : AccessLocation} :
    o.resolve d ref = .ok (some location) ↔
      location = .ofFile (o.objectPath ref) ∧ ∃ entry, d.openEntry (o.objectPath ref) = .ok entry := by
  rw [← Disk.exists_iff]
  unfold resolve
  rcases d.exists? (o.objectPath ref) with fault | _ | _ <;> simp [eq_comm]

/-! ### Storing -/

/-- A finished file gets its name if that is free, and vanishes otherwise. -/
private theorem keep_ok {d₁ : Disk} {incoming : Path} {number : Nat} (hroom : o.HasRoom) (hleads : d₁.Leads o.root here)
    (hincoming : incoming ≠ []) (hother : incoming ≠ here ++ [Sha256.hex bytes]) (hfree : d.entry? incoming = none)
    (hentries : ∀ q, d₁.entry? q = if q = incoming then some (.file number) else d.entry? q) :
    ∃ d', o.keep d₁ incoming (Sha256.hex bytes) = (.ok ⟨Sha256.hex bytes, Sha256.hex bytes⟩, d') ∧
      d'.contents = d₁.contents ∧ d'.seekLimit = d₁.seekLimit ∧
      (d.entry? (here ++ [Sha256.hex bytes]) ≠ none ∧ (∀ q, d'.entry? q = d.entry? q) ∨
        d.entry? (here ++ [Sha256.hex bytes]) = none ∧
          ∀ q, d'.entry? q = if q = here ++ [Sha256.hex bytes] then some (.file number) else d.entry? q) := by
  have htarget : d₁.entry? (here ++ [Sha256.hex bytes]) = d.entry? (here ++ [Sha256.hex bytes]) := by
    rw [hentries, if_neg (Ne.symm hother)]
  have hexists := hleads.exists_join (Sha256.isDigest_hex bytes).isPlain (hroom.hex bytes)
  unfold keep objectPath
  rw [htarget] at hexists
  simp only [hexists]
  cases hfound : d.entry? (here ++ [Sha256.hex bytes]) with
  | some entry =>
    refine ⟨_, rfl, rfl, rfl, .inl ⟨by simp, ?_⟩⟩
    intro q
    rw [Disk.entry?_unlink d₁ hincoming, hentries]
    by_cases hq : q = incoming
    · simp [hq, hfree]
    · simp [hq]
  | none =>
    obtain ⟨d', hmove, hcontents, hlimit, hmoved⟩ := hleads.move_join (Sha256.isDigest_hex bytes).isPlain
      (hroom.hex bytes) hincoming (by rw [hentries, if_pos rfl]) (htarget.trans hfound)
    rw [hmove]
    refine ⟨d', rfl, hcontents, hlimit, .inr ⟨rfl, ?_⟩⟩
    intro q
    rw [hmoved, hentries]
    by_cases hq : q = incoming
    · simp [hq, hfree]
    · simp [hq]

/-- Where the next unfinished object goes. -/
def incoming (d : Disk) (here : Path) : Path := here ++ [d.freeName here incomingStart]

theorem incoming_ne_nil (d : Disk) (here : Path) : incoming d here ≠ [] := by simp [incoming]

private theorem incoming_ne_hex (d : Disk) (here : Path) (message : Bytes) :
    incoming d here ≠ here ++ [Sha256.hex message] := by
  obtain ⟨n, -, hname, -⟩ := d.freeName_eq here incomingStart
  have hdot : '.' ∈ incomingStart.toList := by decide
  intro hsame
  refine Sha256.numbered_ne_hex hdot (by decide) n message ?_
  rw [← hname]
  simpa [incoming] using hsame

/-- The ways in which the storing of an object may go, on a disk that has the directory. -/
inductive Stores (o : ObjectDirectory) (d : Disk) (here : Path) (grant : Nat) (upload : ChunkUpload) :
    Except ObjectFault StoredObject → Disk → Prop where
  | unread {fault : TransferFault} {d' : Disk} (hbreaks : upload.body.Breaks d grant copySize fault)
      (hsame : d.Same d') : Stores o d here grant upload (.error (.readBody upload.index fault)) d'
  | short {bytes : Bytes} {d' : Disk} (hdelivers : upload.body.Delivers d grant copySize bytes)
      (hlength : bytes.length ≠ upload.length) (hsame : d.Same d') :
      Stores o d here grant upload (.error (.shortBody upload.index upload.length bytes.length)) d'
  | found {bytes : Bytes} {d' : Disk} (hdelivers : upload.body.Delivers d grant copySize bytes)
      (hlength : bytes.length = upload.length) (htaken : d.entry? (here ++ [Sha256.hex bytes]) ≠ none)
      (hsame : d.Same d') : Stores o d here grant upload (.ok ⟨Sha256.hex bytes, Sha256.hex bytes⟩) d'
  | added {bytes : Bytes} {d' : Disk} (hdelivers : upload.body.Delivers d grant copySize bytes)
      (hlength : bytes.length = upload.length) (hgains : d.Gains d' (here ++ [Sha256.hex bytes]) bytes) :
      Stores o d here grant upload (.ok ⟨Sha256.hex bytes, Sha256.hex bytes⟩) d'

/-- What is stored is what the pieces of the body make. -/
theorem store_eq {d₁ : Disk} {upload : ChunkUpload} {pieces : List Bytes} {last : Delivery} {grant : Nat}
    (hmade : d.makeDirectories o.root = (.ok (), d₁)) (hleads : d₁.Leads o.root here)
    (hdrains : upload.body.Drains d₁ grant copySize pieces last) :
    o.store d grant upload =
      match last with
      | .error fault =>
        (.error (.readBody upload.index fault), reports upload 0 pieces,
          (d₁.withFile (incoming d₁ here) pieces.flatten).unlink (incoming d₁ here))
      | .ok _ =>
        if pieces.flatten.length ≠ upload.length then
          (.error (.shortBody upload.index upload.length pieces.flatten.length), reports upload 0 pieces,
            (d₁.withFile (incoming d₁ here) pieces.flatten).unlink (incoming d₁ here))
        else
          let kept := o.keep (d₁.withFile (incoming d₁ here) pieces.flatten) (incoming d₁ here)
            (Sha256.hex pieces.flatten)
          (kept.1, reports upload 0 pieces, kept.2) := by
  obtain ⟨body, hdrain⟩ := Body.drains_iff.1 (hdrains.of_contents fun n => d₁.content_addFile (incoming d₁ here) n)
  have hcontent := d₁.content_withFile (incoming d₁ here) pieces.flatten d₁.contents.length
  rw [if_pos rfl] at hcontent
  have hnumber (p : Path) : (d₁.addFile p).1 = d₁.contents.length := rfl
  have hwritten : (d₁.addFile (incoming d₁ here)).2.append d₁.contents.length pieces.flatten =
    d₁.withFile (incoming d₁ here) pieces.flatten := rfl
  unfold incoming at hdrain hcontent hwritten ⊢
  unfold store
  simp only [hmade, hleads.createTemporary, hdrain, StagedSource.copyParts, Sha256.finish_foldl_update, hnumber,
    hwritten, hcontent]
  cases last <;> rfl

theorem stores_store {d₁ : Disk} (hroom : o.HasRoom) (hmade : d.makeDirectories o.root = (.ok (), d₁))
    (hsound : d₁.Sound) (hleads : d₁.Leads o.root here) (grant : Nat) (upload : ChunkUpload) :
    o.Stores d₁ here grant upload (o.store d grant upload).1 (o.store d grant upload).2.2 := by
  have hnil := incoming_ne_nil d₁ here
  have hfree : d₁.entry? (incoming d₁ here) = none := d₁.entry?_freeName here incomingStart
  obtain ⟨pieces, last, hdrains⟩ := Body.exists_drains d₁ grant copySize upload.body
  have hgone := Disk.Same.unlink_withFile hsound hnil hfree pieces.flatten
  rw [store_eq hmade hleads hdrains]
  rcases hdrains.last_eq with rfl | ⟨fault, rfl⟩
  · by_cases hlength : pieces.flatten.length = upload.length
    · rw [if_neg (not_not.2 hlength)]
      have hwritten := Disk.Preserves.withFile hsound hnil hfree pieces.flatten
      obtain ⟨d', hkeep, hcontents, hlimit, hentries⟩ := keep_ok hroom
        (hleads.mono fun p hp => hwritten.entries p _ hp) hnil (incoming_ne_hex d₁ here pieces.flatten) hfree
        (d₁.entry?_withFile hnil pieces.flatten)
      simp only [hkeep]
      have hcontent (n : Nat) : d'.content n = (d₁.withFile (incoming d₁ here) pieces.flatten).content n := by
        rw [Disk.content, Disk.content, hcontents]
      have hsame : ∀ p n, d₁.entry? p = some (.file n) → d'.content n = d₁.content n := by
        intro p n hp
        rw [hcontent, hsound.content_withFile _ _ hp]
      have hnumber : d₁.contents.length < d'.contents.length := by
        rw [hcontents, d₁.length_contents_withFile]
        exact Nat.lt_succ_self _
      rcases hentries with ⟨htaken, hold⟩ | ⟨htarget, hnew⟩
      · exact .found ⟨pieces, hdrains, rfl⟩ hlength htaken ⟨hold, hsame, Nat.le_of_lt hnumber, hlimit⟩
      · refine .added ⟨pieces, hdrains, rfl⟩ hlength
          ⟨htarget, ⟨_, hnumber, ?_, hnew⟩, hsame, Nat.le_of_lt hnumber, hlimit⟩
        rw [hcontent, d₁.content_withFile, if_pos rfl]
    · rw [if_pos hlength]
      exact .short ⟨pieces, hdrains, rfl⟩ hlength hgone
  · exact .unread ⟨pieces, hdrains⟩ hgone

namespace Stocks

variable {kept : Bytes → Prop}

/-- An object of the same digest is the same object, so that nothing is missing if it is kept instead. -/
private theorem same (h : o.Stocks kept d here) (hsame : d.Same d')
    (hdistinct : ∀ a b, kept a → kept b → Sha256.hex a = Sha256.hex b → a = b) (hkept : kept bytes)
    (htaken : d.entry? (here ++ [Sha256.hex bytes]) ≠ none) : o.Stocks kept d' here ∧ o.Has d' bytes := by
  have hleads := h.leads.mono fun p hp => hsame.preserves.entries p _ hp
  obtain ⟨entry, hentry⟩ := Option.ne_none_iff_exists'.1 htaken
  obtain ⟨n, rfl, hkept', hdigest⟩ := h.objects bytes entry hentry
  have hbytes : d'.content n = bytes := by
    rw [hsame.contents _ _ hentry]
    exact hdistinct _ _ hkept' hkept hdigest
  refine ⟨⟨hsame.sound h.sound, hleads, ?_⟩, here, n, hleads, hsame.preserves.entries _ _ hentry, hbytes⟩
  intro message entry hentry
  rw [hsame.entries] at hentry
  obtain ⟨m, rfl, hobject⟩ := h.objects message entry hentry
  rw [← hsame.contents _ _ hentry] at hobject
  exact ⟨m, rfl, hobject⟩

/-- A file that gets the free name of an object is one more object. -/
private theorem gains (h : o.Stocks kept d here) (hgains : d.Gains d' (here ++ [Sha256.hex bytes]) bytes)
    (hkept : kept bytes) : o.Stocks kept d' here ∧ o.Has d' bytes := by
  have hleads := h.leads.mono fun p hp => hgains.preserves.entries p _ hp
  obtain ⟨number, -, hcontent, hnew⟩ := hgains.gained
  refine ⟨⟨hgains.sound h.sound, hleads, ?_⟩, here, number, hleads, by rw [hnew, if_pos rfl], hcontent⟩
  intro message entry hentry
  rcases hgains.entry?_cases hentry with ⟨htarget, n, -, rfl, hcontent'⟩ | hold
  · -- another message of this digest is named like the new object
    have hdigest : Sha256.hex message = Sha256.hex bytes := by simpa using htarget
    exact ⟨n, rfl, by rwa [hcontent'], by rw [hcontent', hdigest]⟩
  · obtain ⟨m, rfl, hobject⟩ := h.objects message entry hold
    rw [← hgains.contents _ _ hold] at hobject
    exact ⟨m, rfl, hobject⟩

end Stocks

/-- An object that a window delivers as a whole is stored under its digest, and nothing that was there is lost. -/
theorem store_ok {kept : Bytes → Prop} (upload : ChunkUpload) {w : FileWindow} (grant : Nat)
    (hdistinct : ∀ a b, kept a → kept b → Sha256.hex a = Sha256.hex b → a = b) (hroom : o.HasRoom)
    (h : o.Ready kept d here) (hkept : kept bytes) (hbody : upload.body = .window w) (hw : w.Holds d bytes)
    (hwhole : bytes.length = w.remaining) (hlength : upload.length = bytes.length) :
    ∃ made d', o.store d grant upload = (.ok ⟨Sha256.hex bytes, Sha256.hex bytes⟩, made, d') ∧
      o.Ready kept d' here ∧ d.Preserves d' ∧ o.Has d' bytes := by
  obtain ⟨d₁, hmade, hstocks⟩ := h
  have hextends := Disk.Extends.of_makeDirectories d o.root
  rw [hmade] at hextends
  -- the pieces of the body make the object
  have hholds : w.Holds d₁ bytes := hw.of_contents fun n _ => by rw [Disk.content, Disk.content, hextends.contents]
  obtain ⟨pieces, body, hdrain, rfl⟩ := hholds.drain hwhole grant copySize
  rw [← hbody] at hdrain
  have hdelivers : upload.body.Delivers d₁ grant copySize pieces.flatten :=
    ⟨pieces, Body.drains_iff.2 ⟨body, hdrain⟩, rfl⟩
  have hstores := stores_store hroom hmade hstocks.sound hstocks.leads grant upload
  generalize hd' : (o.store d grant upload).2.2 = d' at hstores
  generalize hanswer : (o.store d grant upload).1 = answer at hstores
  have hstore : o.store d grant upload = (answer, (o.store d grant upload).2.1, d') := by rw [← hanswer, ← hd']
  cases hstores with
  | unread hbreaks => exact absurd hdelivers hbreaks.not_delivers
  | short hdelivers' hne =>
    rw [← hdelivers.unique hdelivers'] at hne
    exact absurd hlength.symm hne
  | found hdelivers' _ htaken hsame =>
    obtain rfl := hdelivers.unique hdelivers'
    obtain ⟨hstocks', hhas⟩ := hstocks.same hsame hdistinct hkept htaken
    exact ⟨_, d', hstore, hstocks'.ready, hextends.preserves.trans hsame.preserves, hhas⟩
  | added hdelivers' _ hgains =>
    obtain rfl := hdelivers.unique hdelivers'
    obtain ⟨hstocks', hhas⟩ := hstocks.gains hgains hkept
    exact ⟨_, d', hstore, hstocks'.ready, hextends.preserves.trans hgains.preserves, hhas⟩

end ObjectDirectory

end ChunkedStorage
