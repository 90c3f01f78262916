import ChunkedStorage.Proofs.Durations
import ChunkedStorage.Proofs.StoredSizes

/-!
# Configurations that are read back

A configuration is read back from the text that is written for it (`Config.isDocument_value`), and from every other text
that gives its settings: in any order, among keys that mean nothing, and without settings that are as usual
(`Config.reads`).
-/

namespace ChunkedStorage

open Json (Document Field Reads IsRecord)

/-! ### Single settings -/

theorem Duration.reads {d : Duration} (hd : d.nanos ≤ Duration.longest.nanos) :
    Reads Duration.read d.value.document d := by
  intro s rest h
  rw [Duration.read, Json.reads_text "a duration" d.render s rest h]
  simp only [Duration.parse?_render hd]

/-- The usual format may be written as an empty text. -/
def LogFormat.IsDocument (format : LogFormat) (d : Document) : Prop :=
  d = .text format.name ∨ format = .text ∧ d = .text ""

theorem LogFormat.reads {format : LogFormat} {d : Document} (hd : format.IsDocument d) :
    Reads LogFormat.read d format := by
  intro s rest h
  rcases hd with rfl | ⟨rfl, rfl⟩
  · rw [LogFormat.read, Json.reads_text "a string" format.name s rest h]
    cases format <;> rfl
  · rw [LogFormat.read, Json.reads_text "a string" "" s rest h]
    rfl

/-! ### Records of settings -/

namespace ChunkingConfig

variable {c start : ChunkingConfig} {d : Document}

/-- The settings of uploads; the staging directory may be written in several ways. -/
def entries (c : ChunkingConfig) : List (Json.Entry ChunkingConfig) :=
  [ ⟨"max_chunk_size", (· = (Size.value c.maxChunkSize).document), fun r => r.maxChunkSize = c.maxChunkSize⟩,
    ⟨"chunk_threshold", (· = (Size.value c.chunkThreshold).document), fun r => r.chunkThreshold = c.chunkThreshold⟩,
    ⟨"staging_dir", (· = .text c.stagingDir), fun r => Disk.tidy r.stagingDir = Disk.tidy c.stagingDir⟩,
    ⟨"stage_buffer_size", (· = (Size.value c.stageBufferSize).document),
      fun r => r.stageBufferSize = c.stageBufferSize⟩ ]

structure WellFormed (c : ChunkingConfig) : Prop where
  maxChunkSize : c.maxChunkSize < wordLimit
  chunkThreshold : c.chunkThreshold < wordLimit
  stageBufferSize : c.stageBufferSize < wordLimit

theorem reads (hc : c.WellFormed) (hd : IsRecord c.entries start d) :
    ∃ r, Reads (shape.read start) d r ∧ r.tidy = c.tidy := by
  have hsets : List.Forall₂ (Field.Sets c.entries) shape.fields c.entries := by
    refine .cons ?_ (.cons ?_ (.cons ?_ (.cons ?_ .nil)))
    · exact Field.sets_document (Size.reads hc.maxChunkSize) (fun _ => rfl) (by simp [entries])
    · exact Field.sets_document (Size.reads hc.chunkThreshold) (fun _ => rfl) (by simp [entries])
    · exact Field.sets_document (Json.reads_text _ _) (fun _ => rfl) (by simp [entries])
    · exact Field.sets_document (Size.reads hc.stageBufferSize) (fun _ => rfl) (by simp [entries])
  obtain ⟨r, hread, hholds⟩ := hd.reads hsets (by simp [entries]) (by decide)
  refine ⟨r, hread, ?_⟩
  simp only [entries, List.forall_mem_cons] at hholds
  obtain ⟨hsize, hthreshold, hdir, hbuffer, -⟩ := hholds
  simp only [tidy, hsize, hthreshold, hdir, hbuffer]

theorem isRecord_value (c start : ChunkingConfig) : IsRecord c.entries start c.value.document := by
  refine ⟨_, rfl, Json.describes_of_forall₂ ?_ (by simp [entries]) start⟩
  exact .cons ⟨rfl, rfl⟩ (.cons ⟨rfl, rfl⟩ (.cons ⟨rfl, rfl⟩ (.cons ⟨rfl, rfl⟩ .nil)))

end ChunkingConfig

namespace TransportConfig

variable {c start : TransportConfig} {d : Document}

/-- The settings of transfers; the headers have no order. -/
def entries (c : TransportConfig) : List (Json.Entry TransportConfig) :=
  [ ⟨"timeout", (· = c.timeout.value.document), fun r => r.timeout = c.timeout⟩,
    ⟨"connect_timeout", (· = c.connectTimeout.value.document), fun r => r.connectTimeout = c.connectTimeout⟩,
    ⟨"user_agent", (· = .text c.userAgent), fun r => r.userAgent = c.userAgent⟩,
    ⟨"headers", fun d => ∃ headers, headers.Perm c.headers ∧ d = .object (Json.textMembers headers),
      fun r => r.headers.Perm c.headers⟩ ]

structure WellFormed (c : TransportConfig) : Prop where
  timeout : c.timeout.nanos ≤ Duration.longest.nanos
  connectTimeout : c.connectTimeout.nanos ≤ Duration.longest.nanos
  headers : (c.headers.map Prod.fst).Nodup

/-- Whether two transfers have the same settings, the headers in whatever order. -/
structure Same (a b : TransportConfig) : Prop where
  timeout : a.timeout = b.timeout
  connectTimeout : a.connectTimeout = b.connectTimeout
  userAgent : a.userAgent = b.userAgent
  headers : a.headers.Perm b.headers

theorem reads (hc : c.WellFormed) (hd : IsRecord c.entries start d) :
    ∃ r, Reads (shape.read start) d r ∧ r.Same c := by
  have hsets : List.Forall₂ (Field.Sets c.entries) shape.fields c.entries := by
    refine .cons ?_ (.cons ?_ (.cons ?_ (.cons ?_ .nil)))
    · exact Field.sets_document (Duration.reads hc.timeout) (fun _ => rfl) (by simp [entries])
    · exact Field.sets_document (Duration.reads hc.connectTimeout) (fun _ => rfl) (by simp [entries])
    · exact Field.sets_document (Json.reads_text _ _) (fun _ => rfl) (by simp [entries])
    · refine Field.sets_optional ?_ (by simp [entries])
      rintro d ⟨headers, hperm, rfl⟩
      exact ⟨_, Json.reads_textMap ((hperm.map Prod.fst).nodup_iff.2 hc.headers), fun _ => hperm⟩
  obtain ⟨r, hread, hholds⟩ := hd.reads hsets (by simp [entries]) (by decide)
  simp only [entries, List.forall_mem_cons] at hholds
  obtain ⟨htimeout, hconnect, hagent, hheaders, -⟩ := hholds
  exact ⟨r, hread, htimeout, hconnect, hagent, hheaders⟩

theorem isRecord_value (c start : TransportConfig) : IsRecord c.entries start c.value.document := by
  refine ⟨_, rfl, Json.describes_of_forall₂ ?_ (by simp [entries]) start⟩
  have hheaders {header : String × String → String × Json.Value} (hheader : ∀ h, header h = (h.1, .text h.2)) :
      Json.Value.namedDocuments (c.headers.map header) = Json.textMembers c.headers := by
    induction c.headers with
    | nil => rfl
    | cons h headers ih =>
      rw [List.map_cons, hheader, Json.Value.namedDocuments, ih]
      rfl
  refine .cons ⟨rfl, rfl⟩ (.cons ⟨rfl, rfl⟩ (.cons ⟨rfl, rfl⟩ (.cons ⟨rfl, ?_⟩ .nil)))
  exact ⟨c.headers, .refl _, congrArg _ (hheaders fun _ => rfl)⟩

end TransportConfig

namespace RetryConfig

variable {c start : RetryConfig} {d : Document}

def entries (c : RetryConfig) : List (Json.Entry RetryConfig) :=
  [ ⟨"max_attempts", (· = (Json.Value.number c.maxAttempts).document), fun r => r.maxAttempts = c.maxAttempts⟩,
    ⟨"base_delay", (· = c.baseDelay.value.document), fun r => r.baseDelay = c.baseDelay⟩,
    ⟨"max_transfer_failures", (· = (Json.Value.number c.maxTransferFailures).document),
      fun r => r.maxTransferFailures = c.maxTransferFailures⟩ ]

structure WellFormed (c : RetryConfig) : Prop where
  maxAttempts : c.maxAttempts < wordLimit
  baseDelay : c.baseDelay.nanos ≤ Duration.longest.nanos
  maxTransferFailures : c.maxTransferFailures < wordLimit

theorem reads (hc : c.WellFormed) (hd : IsRecord c.entries start d) : Reads (shape.read start) d c := by
  have hsets : List.Forall₂ (Field.Sets c.entries) shape.fields c.entries := by
    refine .cons ?_ (.cons ?_ (.cons ?_ .nil))
    · exact Field.sets_document (Json.reads_word _ hc.maxAttempts) (fun _ => rfl) (by simp [entries])
    · exact Field.sets_document (Duration.reads hc.baseDelay) (fun _ => rfl) (by simp [entries])
    · exact Field.sets_document (Json.reads_word _ hc.maxTransferFailures) (fun _ => rfl) (by simp [entries])
  obtain ⟨⟨attempts, delay, failures⟩, hread, hholds⟩ := hd.reads hsets (by simp [entries]) (by decide)
  simp only [entries, List.forall_mem_cons] at hholds
  obtain ⟨rfl, rfl, rfl, -⟩ := hholds
  exact hread

theorem isRecord_value (c start : RetryConfig) : IsRecord c.entries start c.value.document := by
  refine ⟨_, rfl, Json.describes_of_forall₂ ?_ (by simp [entries]) start⟩
  exact .cons ⟨rfl, rfl⟩ (.cons ⟨rfl, rfl⟩ (.cons ⟨rfl, rfl⟩ .nil))

end RetryConfig

namespace LoggingOptions

variable {o : LoggingOptions} {d : Document}

def entries (o : LoggingOptions) : List (Json.Entry LoggingOptions) :=
  [ ⟨"dir", (· = .text o.dir), fun r => r.dir = o.dir⟩,
    ⟨"level", (· = (o.level.elim Json.Value.null .text).document), fun r => r.level = o.level⟩,
    ⟨"log_format", o.format.IsDocument, fun r => r.format = o.format⟩,
    ⟨"max_log_files", (· = (Json.Value.number o.maxLogFiles).document), fun r => r.maxLogFiles = o.maxLogFiles⟩,
    ⟨"append_stdout", (· = .boolean o.appendStdout), fun r => r.appendStdout = o.appendStdout⟩,
    ⟨"file_prefix", (· = .text o.filePrefix), fun r => r.filePrefix = o.filePrefix⟩ ]

theorem reads (ho : o.maxLogFiles < wordLimit) (hd : IsRecord o.entries {} d) : Reads read d o := by
  have hsets : List.Forall₂ (Field.Sets o.entries) shape.fields o.entries := by
    refine .cons ?_ (.cons ?_ (.cons ?_ (.cons ?_ (.cons ?_ (.cons ?_ .nil)))))
    · exact Field.sets_document (Json.reads_text _ _) (fun _ => rfl) (by simp [entries])
    · exact Field.sets_document (Json.reads_text? _ o.level) (fun _ => rfl) (by simp [entries])
    · exact Field.sets_optional (fun d hd => ⟨_, LogFormat.reads hd, fun _ => rfl⟩) (by simp [entries])
    · exact Field.sets_document (Json.reads_word _ ho) (fun _ => rfl) (by simp [entries])
    · exact Field.sets_document (Json.reads_boolean _) (fun _ => rfl) (by simp [entries])
    · exact Field.sets_document (Json.reads_text _ _) (fun _ => rfl) (by simp [entries])
  obtain ⟨⟨dir, level, format, files, stdout, filePrefix⟩, hread, hholds⟩ :=
    hd.reads hsets (by simp [entries]) (by decide)
  simp only [entries, List.forall_mem_cons] at hholds
  obtain ⟨rfl, rfl, rfl, rfl, rfl, rfl, -⟩ := hholds
  exact hread

theorem isRecord_value (o start : LoggingOptions) : IsRecord o.entries start o.value.document := by
  refine ⟨_, rfl, Json.describes_of_forall₂ ?_ (by simp [entries]) start⟩
  exact .cons ⟨rfl, rfl⟩ (.cons ⟨rfl, rfl⟩ (.cons ⟨rfl, .inl rfl⟩ (.cons ⟨rfl, rfl⟩
    (.cons ⟨rfl, rfl⟩ (.cons ⟨rfl, rfl⟩ .nil)))))

end LoggingOptions

/-! ### Whole configurations -/

namespace Config

variable {c : Config} {d : Document} {tempDir : String}

def entries (usual c : Config) : List (Json.Entry Config) :=
  [ ⟨"chunking", IsRecord c.chunking.entries usual.chunking, fun r => r.chunking.tidy = c.chunking.tidy⟩,
    ⟨"transport", IsRecord c.transport.entries {}, fun r => r.transport.Same c.transport⟩,
    ⟨"retry", IsRecord c.retry.entries {}, fun r => r.retry = c.retry⟩,
    ⟨"logging", IsRecord c.logging.entries {}, fun r => r.logging = c.logging⟩ ]

/-- The document gives the configuration: each key stands once at most and has the document of its setting, a key that
is missing has the usual setting, and keys of other names have any document.  This holds of the records inside as
well. -/
def IsDocument (tempDir : String) (c : Config) (d : Document) : Prop :=
  IsRecord (entries (usual tempDir) c) (usual tempDir) d

/-- Sizes and counts are words, durations are not too long, and there is one value for each header. -/
structure WellFormed (c : Config) : Prop where
  chunking : c.chunking.WellFormed
  transport : c.transport.WellFormed
  retry : c.retry.WellFormed
  maxLogFiles : c.logging.maxLogFiles < wordLimit

/-- Whether two configurations are equal; the staging directory may be written in several ways, and the headers have no
order. -/
structure Same (a b : Config) : Prop where
  chunking : a.chunking.tidy = b.chunking.tidy
  transport : a.transport.Same b.transport
  retry : a.retry = b.retry
  logging : a.logging = b.logging

theorem reads (hc : c.WellFormed) (hd : c.IsDocument tempDir d) : ∃ r, Reads (read tempDir) d r ∧ r.Same c := by
  have hsets : List.Forall₂ (Field.Sets (entries (usual tempDir) c)) (shape (usual tempDir)).fields
      (entries (usual tempDir) c) := by
    refine .cons ?_ (.cons ?_ (.cons ?_ (.cons ?_ .nil)))
    · refine Field.sets_optional (fun d hd => ?_) (by simp [entries])
      obtain ⟨r, hread, hr⟩ := ChunkingConfig.reads hc.chunking hd
      exact ⟨r, hread, fun _ => hr⟩
    · refine Field.sets_optional (fun d hd => ?_) (by simp [entries])
      obtain ⟨r, hread, hr⟩ := TransportConfig.reads hc.transport hd
      exact ⟨r, hread, fun _ => hr⟩
    · exact Field.sets_optional (fun d hd => ⟨_, RetryConfig.reads hc.retry hd, fun _ => rfl⟩) (by simp [entries])
    · exact Field.sets_optional (fun d hd => ⟨_, LoggingOptions.reads hc.maxLogFiles hd, fun _ => rfl⟩)
        (by simp [entries])
  obtain ⟨r, hread, hholds⟩ := IsRecord.reads hd hsets (by simp [entries]) (by simp [shape, Field.optional])
  simp only [entries, List.forall_mem_cons] at hholds
  obtain ⟨hchunking, htransport, hretry, hlogging, -⟩ := hholds
  exact ⟨r, hread, hchunking, htransport, hretry, hlogging⟩

theorem isDocument_value (tempDir : String) (c : Config) : c.IsDocument tempDir c.value.document := by
  refine ⟨_, rfl, Json.describes_of_forall₂ ?_ (by simp [entries]) _⟩
  exact .cons ⟨rfl, ChunkingConfig.isRecord_value _ _⟩ (.cons ⟨rfl, TransportConfig.isRecord_value _ _⟩
    (.cons ⟨rfl, RetryConfig.isRecord_value _ _⟩ (.cons ⟨rfl, LoggingOptions.isRecord_value _ _⟩ .nil)))

/-- A configuration is read back from the text that is written for it, and from every text that gives its settings in
another way. -/
theorem parse_reads_back (tempDir : String) (c : Config) (hc : c.WellFormed) :
    (∃ r, parse tempDir (Text.decode (Text.encode c.value.render)) = .ok r ∧ r.Same c) ∧
      ∀ d s, c.IsDocument tempDir d → Json.IsText d s → ∃ r, parse tempDir s = .ok r ∧ r.Same c := by
  have hgiven : ∀ d s, c.IsDocument tempDir d → Json.IsText d s → ∃ r, parse tempDir s = .ok r ∧ r.Same c := by
    intro d s hd hs
    obtain ⟨r, hread, hr⟩ := reads hc hd
    exact ⟨r, hread.readAll hs, hr⟩
  refine ⟨?_, hgiven⟩
  rw [Text.decode_encode]
  exact hgiven _ _ (isDocument_value tempDir c) c.value.isText_render

/-- A configuration with the longest timeout and the largest chunks. -/
def patient : Config :=
  { usual "/tmp" with
    chunking := { stagingDir := "/tmp/chunkvault", maxChunkSize := wordLimit - 1 }
    transport := { timeout := .longest, headers := [("b", "2"), ("a", "1")] } }

/-- The configuration without the settings that are as usual, in another order and with a key that means nothing. -/
def patientValue : Json.Value :=
  .object
    [ ("zone", .list [.null]),
      ("logging", .object [("log_format", .text "")]),
      ("transport",
        .object [("headers", .object [("a", .text "1"), ("b", .text "2")]), ("timeout", Duration.longest.value)]),
      ("chunking", .object [("max_chunk_size", Size.value (wordLimit - 1))]) ]

theorem wellFormed_patient : patient.WellFormed where
  chunking := ⟨by decide, by decide, by decide⟩
  transport := ⟨Nat.le_refl _, by decide, by decide⟩
  retry := ⟨by decide, by decide, by decide⟩
  maxLogFiles := by decide

theorem isDocument_patient : patient.IsDocument "/tmp" patientValue.document := by
  have hchunking : IsRecord patient.chunking.entries (usual "/tmp").chunking
      (Json.Value.object [("max_chunk_size", Size.value (wordLimit - 1))]).document := by
    have hstaging : Disk.join "/tmp" "chunkvault" = "/tmp/chunkvault" := by decide
    refine ⟨_, rfl, by decide, ?_, ?_⟩
    · simp [ChunkingConfig.entries, Json.Value.namedDocuments, patient]
    · simp [ChunkingConfig.entries, Json.Value.namedDocuments, patient, usual, hstaging]
  have hlogging : IsRecord patient.logging.entries {} (Json.Value.object [("log_format", .text "")]).document := by
    refine ⟨_, rfl, by decide, ?_, ?_⟩
    · simp [LoggingOptions.entries, LogFormat.IsDocument, Json.Value.namedDocuments, Json.Value.document, patient,
        usual]
    · simp [LoggingOptions.entries, Json.Value.namedDocuments, patient, usual]
  have htransport : IsRecord patient.transport.entries {} (Json.Value.object
      [("headers", .object [("a", .text "1"), ("b", .text "2")]), ("timeout", Duration.longest.value)]).document := by
    refine ⟨_, rfl, by decide, ?_, ?_⟩
    · have hheaders : ∃ headers, headers.Perm patient.transport.headers ∧
          (Json.Value.object [("a", .text "1"), ("b", .text "2")]).document =
            .object (Json.textMembers headers) :=
        ⟨[("a", "1"), ("b", "2")], by decide, rfl⟩
      simpa [TransportConfig.entries, Json.Value.namedDocuments, patient] using hheaders
    · simp [TransportConfig.entries, Json.Value.namedDocuments, patient]
  refine ⟨_, rfl, by decide, ?_, ?_⟩
  · simpa [entries, Json.Value.namedDocuments] using ⟨hchunking, htransport, hlogging⟩
  · simp [entries, Json.Value.namedDocuments, patient, usual]

theorem parse_reads_back_patient :
    patient.WellFormed ∧ patient.IsDocument "/tmp" patientValue.document ∧
      ∃ r, parse "/tmp" (patientValue.render.toList.map some) = .ok r ∧ r.Same patient :=
  ⟨wellFormed_patient, isDocument_patient, (parse_reads_back "/tmp" patient wellFormed_patient).2 _ _ isDocument_patient
    patientValue.isText_render⟩

end Config

end ChunkedStorage
