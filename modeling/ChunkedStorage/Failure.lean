import ChunkedStorage.Fault
import ChunkedStorage.Status
import ChunkedStorage.Text.Quoted

/-!
# Failures

Everything that reading, storing and configuring can fail with. A failure has a kind, a status, a message, and the
message of its root cause if it rests on one.
-/

namespace ChunkedStorage

/-! ### Unusable configurations and listings -/

inductive ConfigurationFault where
  | zeroLayoutChunkSize
  | zeroMaxChunkSize
  | zeroStageBuffer
  | zeroAttempts
  | zeroTransferFailures
  | emptyInputChunked
  | noPlaceholder (template : String)
  | headerName (name : String)
  | headerValue (name : String)
  | stated (reason : String)
deriving DecidableEq

def ConfigurationFault.message : ConfigurationFault → String
  | zeroLayoutChunkSize => "max chunk size must be positive"
  | zeroMaxChunkSize => "max_chunk_size must be positive"
  | zeroStageBuffer => "stage_buffer_size must be positive"
  | zeroAttempts => "max_attempts must be at least 1"
  | zeroTransferFailures => "max_transfer_failures must be at least 1"
  | emptyInputChunked => "a zero-length input cannot be chunked"
  | noPlaceholder template => s!"url template {Text.quoted template} has no \x7bref\x7d placeholder"
  | headerName name => s!"invalid header name {Text.quoted name}: invalid HTTP header name"
  | headerValue name => s!"invalid value for header {name}: failed to parse header value"
  | stated reason => reason

/-- Why a list of chunk records is no layout of a file. -/
inductive LayoutFault where
  | emptyFirst (count : Nat)
  | wrongIndex (position index : Nat)
  | misplaced (index start stop expected : Nat)
  | uneven (index length nominal : Nat)
  | oversized (index length nominal : Nat)
  | wrongTotal (covered total : Nat)
  | missingChunk (index : Nat)
  | stated (reason : String)
deriving DecidableEq

def LayoutFault.message : LayoutFault → String
  | emptyFirst count => s!"first of {count} chunks is empty"
  | wrongIndex position index => s!"chunk at position {position} has index {index}"
  | misplaced index start stop expected => s!"chunk {index} spans {start}..{stop}, expected start {expected}"
  | uneven index length nominal =>
    s!"chunk {index} holds {length} bytes, only the last chunk may differ from {nominal}"
  | oversized index length nominal => s!"chunk {index} holds {length} bytes, more than the chunk size {nominal}"
  | wrongTotal covered total => s!"chunks end at {covered}, file size is {total}"
  | missingChunk index => s!"slice refers to missing chunk {index}"
  | stated reason => reason

/-! ### Failures -/

/-- The broad class of a failure. -/
inductive FailureKind where
  | configuration
  | resolution
  | transfer
  | range
  | storage
  | metadata
  | cancelled
  | closed
deriving DecidableEq

def FailureKind.name : FailureKind → String
  | configuration => "configuration"
  | resolution => "resolution"
  | transfer => "transfer"
  | range => "range"
  | storage => "storage"
  | metadata => "metadata"
  | cancelled => "cancelled"
  | closed => "closed"

/-- The status that goes with a kind of failure. -/
def FailureKind.status : FailureKind → Status
  | configuration => .invalidArgument
  | range => .rangeNotSatisfiable
  | resolution | transfer => .unavailable
  | storage | metadata => .storageFailure
  | cancelled | closed => .cancelled

inductive Failure where
  | configuration (fault : ConfigurationFault)
  | client (detail : String)
  | resolution (index attempts : Nat) (cause : Cause)
  | missingObject (index : Nat)
  | opening (index attempts start stop : Nat) (fault : TransferFault)
  | transfer (index offset failures limit : Nat) (fault : TransferFault)
  | invalidRange (start : Int) (length : String) (totalSize : Nat)
  | rangeHeader (header : String)
  | noChunksForRange (start stop totalSize count : Nat)
  | emptyListing
  | layoutCorrupted (fault : LayoutFault)
  | storage (index : Nat) (cause : Cause)
  | metadata (operation : String) (cause : Cause)
  | fileNotFound (id : Nat)
  | staging (fault : IoFault)
  | sizeMismatch (declared actual : Nat)
  | cancelled (completed total : Nat)
  | closed
  | readerFailed (index : Nat)
  | output (fault : IoFault)
deriving DecidableEq

namespace Failure

def message : Failure → String
  | configuration fault => s!"Invalid configuration: {fault.message}"
  | client detail => s!"Failed to build HTTP client: {detail}"
  | resolution index attempts _ => s!"Failed to resolve location of chunk {index} after {attempts} attempts"
  | missingObject index => s!"Chunk {index} has no stored object"
  | opening index attempts start stop _ =>
    s!"Failed to open chunk {index} bytes {start}..{stop} after {attempts} attempts"
  | transfer index offset failures limit _ =>
    s!"Transfer of chunk {index} interrupted at logical offset {offset} (failure {failures} of {limit})"
  | invalidRange start length totalSize =>
    s!"Invalid range start={start} length={length} for file of {totalSize} bytes"
  | rangeHeader header => s!"Malformed range header {Text.quoted header}"
  | noChunksForRange start stop totalSize count =>
    s!"No chunks found for range {start}..{stop} (file size: {totalSize}, total chunks: {count})"
  | emptyListing => "Chunk listing is empty"
  | layoutCorrupted fault => s!"Chunk layout corrupted: {fault.message}"
  | storage index _ => s!"Failed to store chunk {index}"
  | metadata operation _ => s!"Metadata operation {operation} failed"
  | fileNotFound id => s!"Logical file {id} not found"
  | staging fault => s!"Failed to stage input: {fault.message}"
  | sizeMismatch declared actual => s!"Input size mismatch: declared {declared} bytes, received {actual}"
  | cancelled completed total => s!"Upload cancelled after {completed} of {total} chunks"
  | closed => "Reader closed"
  | readerFailed index => s!"Reader failed permanently on chunk {index}"
  | output fault => s!"Failed to write output: {fault.message}"

def kind : Failure → FailureKind
  | configuration _ | client _ | sizeMismatch _ _ | staging _ => .configuration
  | resolution _ _ _ | missingObject _ => .resolution
  | opening _ _ _ _ _ | transfer _ _ _ _ _ | readerFailed _ | output _ => .transfer
  | invalidRange _ _ _ | rangeHeader _ | noChunksForRange _ _ _ _ | emptyListing | layoutCorrupted _ => .range
  | storage _ _ => .storage
  | metadata _ _ | fileNotFound _ => .metadata
  | cancelled _ _ => .cancelled
  | closed => .closed

/-- The status of a failure: that of its kind, but for missing things and for faults of the own machine. -/
def status : Failure → Status
  | fileNotFound _ | missingObject _ => .notFound
  | staging _ | output _ => .internal
  | failure => failure.kind.status

/-- Whether the reader recovers from the failure on its next read. -/
def isRetryable : Failure → Bool
  | transfer _ _ failures limit _ => failures < limit
  | _ => false

/-- The message of the fault at the end of the chain of causes, if there is a cause. -/
def root? : Failure → Option String
  | client detail => some detail
  | resolution _ _ cause | storage _ cause | metadata _ cause => some cause.root
  | opening _ _ _ _ fault | transfer _ _ _ _ fault => some fault.root
  | staging fault | output fault => some fault.message
  | _ => none

end Failure

/-- What an end user is shown: an internal failure is reduced to its status, any other is shown with its root cause. -/
def outputMessage (status : Status) (message : String) (root? : Option String) : String :=
  match status with
  | .unknown | .internal => s!"Internal error: {status.name}"
  | _ =>
    match root? with
    | some root => s!"{message}: {root}"
    | none => message

def Failure.outputMessage (failure : Failure) : String :=
  ChunkedStorage.outputMessage failure.status failure.message failure.root?

end ChunkedStorage
