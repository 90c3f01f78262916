import ChunkedStorage.Disk.Place
import ChunkedStorage.Duration.Text
import ChunkedStorage.Layout
import ChunkedStorage.Logging.Options
import ChunkedStorage.Retry
import ChunkedStorage.Size

/-!
# Configurations

The settings of uploads, transfers, retries and logging, and their JSON form. Every setting has a usual value, so a text
may leave out any of them.
-/

namespace ChunkedStorage

/-! ### Settings -/

structure ChunkingConfig where
  /-- The size of every chunk but the last. -/
  maxChunkSize : Nat := defaultMaxChunkSize
  /-- Inputs of this size or larger are chunked. -/
  chunkThreshold : Nat := defaultChunkThreshold
  /-- Where incoming streams are staged. -/
  stagingDir : String
  /-- The size of the copy buffer while staging. -/
  stageBufferSize : Nat := 512 * 1024
deriving DecidableEq

def ChunkingConfig.validate (c : ChunkingConfig) : Except Failure Unit :=
  if c.maxChunkSize = 0 then .error (.configuration .zeroMaxChunkSize)
  else if c.stageBufferSize = 0 then .error (.configuration .zeroStageBuffer)
  else .ok ()

structure TransportConfig where
  /-- The longest time of a ranged request with its body. -/
  timeout : Duration := .ofSeconds (30 * 60)
  /-- The longest time that a connection takes to be made. -/
  connectTimeout : Duration := .ofSeconds 30
  userAgent : String := "chunkvault/0.1.0"
  /-- Headers that are sent with every request. -/
  headers : List (String × String) := []
deriving DecidableEq

structure Config where
  chunking : ChunkingConfig
  transport : TransportConfig := {}
  retry : RetryConfig := {}
  logging : LoggingOptions := {}
deriving DecidableEq

/-- The settings with a short staging directory. -/
def ChunkingConfig.tidy (c : ChunkingConfig) : ChunkingConfig := { c with stagingDir := Disk.tidy c.stagingDir }

namespace Config

/-- Whether two configurations ask for the same; the staging directory may be written in several ways. -/
def agrees (a b : Config) : Bool :=
  { a with chunking := a.chunking.tidy } == { b with chunking := b.chunking.tidy }

/-- The usual configuration on a machine with the given directory for temporary files. -/
def usual (tempDir : String) : Config := { chunking := { stagingDir := Disk.join tempDir "chunkvault" } }

def validate (c : Config) : Except Failure Unit :=
  match c.chunking.validate with
  | .error failure => .error failure
  | .ok () => c.retry.validate

end Config

/-! ### Reading -/

/-- Reads a size: a byte count or a text with a unit. -/
def Size.read : Json.Reader Nat := fun s =>
  let expected := "a byte count or a size string such as \"512MiB\""
  match Json.found (Json.skipBlank s) with
  | .error fault => .error fault
  | .ok (.integer i, rest) => if i < 0 then .error (.rejected "size must not be negative") else .ok (i.toNat, rest)
  | .ok (.text given, rest) =>
    match Size.parse given with
    | .ok bytes => .ok (bytes, rest)
    | .error fault => .error (.rejected fault.message)
  | .ok (value, _) => .error (.wrongType value expected)

def Size.value (bytes : Nat) : Json.Value := .text (Size.render bytes)

def Duration.read : Json.Reader Duration := fun s =>
  match Json.text "a duration" s with
  | .error fault => .error fault
  | .ok (given, rest) =>
    match Duration.parse? given with
    | some d => .ok (d, rest)
    | none => .error (.wrongValue (.text given) "a duration")

def Duration.value (d : Duration) : Json.Value := .text d.render

namespace ChunkingConfig

def shape : Json.Shape ChunkingConfig where
  title := "struct ChunkingConfig"
  fields :=
    [ .optional "max_chunk_size" Size.read fun c maxChunkSize => { c with maxChunkSize },
      .optional "chunk_threshold" Size.read fun c chunkThreshold => { c with chunkThreshold },
      .optional "staging_dir" (Json.text "path string") fun c stagingDir => { c with stagingDir },
      .optional "stage_buffer_size" Size.read fun c stageBufferSize => { c with stageBufferSize } ]

def value (c : ChunkingConfig) : Json.Value :=
  .object
    [ ("max_chunk_size", Size.value c.maxChunkSize),
      ("chunk_threshold", Size.value c.chunkThreshold),
      ("staging_dir", .text c.stagingDir),
      ("stage_buffer_size", Size.value c.stageBufferSize) ]

end ChunkingConfig

namespace TransportConfig

def shape : Json.Shape TransportConfig where
  title := "struct TransportConfig"
  fields :=
    [ .optional "timeout" Duration.read fun c timeout => { c with timeout },
      .optional "connect_timeout" Duration.read fun c connectTimeout => { c with connectTimeout },
      .optional "user_agent" (Json.text "a string") fun c userAgent => { c with userAgent },
      .optional "headers" Json.textMap fun c headers => { c with headers } ]

def value (c : TransportConfig) : Json.Value :=
  .object
    [ ("timeout", c.timeout.value),
      ("connect_timeout", c.connectTimeout.value),
      ("user_agent", .text c.userAgent),
      ("headers", .object (c.headers.map fun (name, text) => (name, .text text))) ]

end TransportConfig

namespace RetryConfig

def shape : Json.Shape RetryConfig where
  title := "struct RetryConfig"
  fields :=
    [ .optional "max_attempts" (Json.word "usize") fun c maxAttempts => { c with maxAttempts },
      .optional "base_delay" Duration.read fun c baseDelay => { c with baseDelay },
      .optional "max_transfer_failures" (Json.word "usize") fun c maxTransferFailures =>
        { c with maxTransferFailures } ]

def value (c : RetryConfig) : Json.Value :=
  .object
    [ ("max_attempts", .number c.maxAttempts),
      ("base_delay", c.baseDelay.value),
      ("max_transfer_failures", .number c.maxTransferFailures) ]

end RetryConfig

namespace Config

def shape (usual : Config) : Json.Shape Config where
  title := "struct VaultConfig"
  fields :=
    [ .optional "chunking" (ChunkingConfig.shape.read usual.chunking) fun c chunking => { c with chunking },
      .optional "transport" (TransportConfig.shape.read {}) fun c transport => { c with transport },
      .optional "retry" (RetryConfig.shape.read {}) fun c retry => { c with retry },
      .optional "logging" LoggingOptions.read fun c logging => { c with logging } ]

/-- Reads a configuration; what the text leaves out is as in the usual one. -/
def read (tempDir : String) : Json.Reader Config := (shape (usual tempDir)).read (usual tempDir)

def value (c : Config) : Json.Value :=
  .object
    [ ("chunking", c.chunking.value), ("transport", c.transport.value), ("retry", c.retry.value),
      ("logging", c.logging.value) ]

def parse (tempDir : String) (source : Json.Source) : Except Json.Fault Config := Json.readAll (read tempDir) source

end Config

end ChunkedStorage
