import ChunkedStorage.Backend
import ChunkedStorage.Slice

/-!
# Readers

A reader delivers the bytes of one range as a single stream and opens one chunk at a time. A chunk is opened once the
one before it is delivered. When a transfer breaks, the next read opens the same chunk again, right behind the last
delivered byte.
-/

namespace ChunkedStorage

inductive Phase (β : Type) where
  /-- The front slice has to be opened. -/
  | needNextChunk
  /-- The front slice is open. -/
  | streaming (body : β)
  | exhausted
  /-- The chunk of this index was given up. -/
  | failed (index : Nat)
  | closed

namespace Phase

def name {β : Type} : Phase β → String
  | needNextChunk => "need_next_chunk"
  | streaming _ => "streaming"
  | exhausted => "exhausted"
  | failed _ => "failed"
  | closed => "closed"

def isExhausted {β : Type} : Phase β → Bool
  | exhausted => true
  | _ => false

/-- Falls with each step that a read takes within one slice. -/
def rank {β : Type} : Phase β → Nat
  | needNextChunk => 2
  | streaming _ => 1
  | _ => 0

end Phase

structure Reader (β : Type) where
  chunks : List Chunk
  /-- The slices that are not delivered; the front one may be in part. -/
  pending : List ChunkSlice
  phase : Phase β
  start : Nat
  requested : Nat
  delivered : Nat
  /-- Bytes of the front slice already delivered. -/
  sliceDelivered : Nat
  /-- Transfers of the front slice that broke one after another without delivering a byte. -/
  failures : Nat

/-- What one step of a read comes to. -/
inductive Turn (β σ : Type) where
  | answered (result : Except Failure (Option Bytes)) (reader : Reader β) (world : σ)
  | going (reader : Reader β) (world : σ)

namespace Reader

variable {σ β : Type}

/-- A reader of the slices that hold a span. -/
def ofSlices (chunks : List Chunk) (slices : List ChunkSlice) (s : Span) : Reader β where
  chunks
  pending := slices
  phase := if s.isEmpty || slices.isEmpty then .exhausted else .needNextChunk
  start := s.start
  requested := s.length
  delivered := 0
  sliceDelivered := 0
  failures := 0

/-- The offset in the file of the next byte. -/
def position (r : Reader β) : Nat := r.start + r.delivered

/-- Bytes of the range that are not delivered yet. -/
def remaining (r : Reader β) : Nat := r.requested - r.delivered

def isExhausted (r : Reader β) : Bool := r.phase.isExhausted

def text (r : Reader β) : String :=
  s!"SegmentedReader \x7b state: \"{r.phase.name}\", start: {r.start}, requested: {r.requested}, " ++
    s!"delivered: {r.delivered}, pending_chunks: {r.pending.length}, .. \x7d"

/-! ### Steps of a read -/

/-- The index of the chunk in front. -/
def frontIndex (r : Reader β) : Nat := (r.pending.head?.map (·.index)).getD 0

def frontLength (r : Reader β) : Nat := (r.pending.head?.map ChunkSlice.length).getD 0

/-- Goes on to the next slice. -/
def advance (r : Reader β) : Reader β :=
  { r with
    pending := r.pending.tail
    phase := if r.pending.tail.isEmpty || r.delivered == r.requested then .exhausted else .needNextChunk
    sliceDelivered := 0
    failures := 0 }

/-- Takes a piece of the front slice. -/
def accept (r : Reader β) (body : β) (piece : Bytes) : Reader β :=
  { r with
    phase := .streaming body
    delivered := r.delivered + piece.length
    sliceDelivered := r.sliceDelivered + piece.length
    failures := 0 }

/-- Notes a broken transfer of the front slice, and gives the chunk up if there were too many. -/
def breakOff (r : Reader β) (limit : Nat) (fault : TransferFault) : Failure × Reader β :=
  let failures := r.failures + 1
  let phase := if limit ≤ failures then .failed r.frontIndex else .needNextChunk
  (.transfer r.frontIndex r.position failures limit fault, { r with phase, failures })

/-- Gives the open body free and closes the reader. -/
def close (r : Reader β) (b : Backend σ β) (world : σ) : Reader β × σ :=
  match r.phase with
  | .streaming body => ({ r with phase := .closed }, b.closeBody body world)
  | _ => ({ r with phase := .closed }, world)

/-- The answer to a read of an object that is closed. -/
def answerClosed (r : Reader β) (b : Backend σ β) (world : σ) : Turn β σ :=
  let (r, world) := r.close b world
  .answered (.error .closed) r world

/-- The answer to a read whose transfer broke. -/
def answerBroken (r : Reader β) (b : Backend σ β) (fault : TransferFault) (world : σ) : Turn β σ :=
  let (failure, r) := r.breakOff b.policy.maxTransferFailures fault
  .answered (.error failure) r (b.count .transferFailures 1 world)

/-- What is left to fetch of a slice. -/
def rest (r : Reader β) (slice : ChunkSlice) : Span := ⟨slice.range.start + r.sliceDelivered, slice.range.stop⟩

/-- Opens what is left of the front slice. -/
def openFront (r : Reader β) (b : Backend σ β) (world : σ) : Turn β σ :=
  match r.pending with
  | [] => .going { r with phase := .exhausted } world
  | slice :: _ =>
    match r.chunks[slice.index]? with
    | none => .answered (.error (.layoutCorrupted (.missingChunk slice.index))) r world
    | some chunk =>
      match b.openChunk chunk (r.rest slice) world with
      | (.abandoned, world) => r.answerClosed b world
      | (.done (.ok body), world) => .going { r with phase := .streaming body } world
      | (.done (.error failure), world) => .answered (.error failure) { r with phase := .failed slice.index } world

/-- Reads from the open body of the front slice. -/
def readFront (r : Reader β) (b : Backend σ β) (max : Nat) (body : β) (world : σ) : Turn β σ :=
  match b.readBody body (min r.remaining (Nat.max max 1)) world with
  | (.abandoned, body, world) => ({ r with phase := .streaming body } : Reader β).answerClosed b world
  | (.done (.ok (some [])), body, world) => .going { r with phase := .streaming body } world
  | (.done (.ok (some (first :: more))), body, world) =>
    .answered (.ok (some (first :: more))) (r.accept body (first :: more))
      (b.count .bytesDelivered (first :: more).length world)
  | (.done (.ok none), body, world) =>
    let world := b.closeBody body world
    if r.sliceDelivered < r.frontLength then r.answerBroken b (.truncated r.sliceDelivered r.frontLength) world
    else .going r.advance world
  | (.done (.error fault), body, world) => r.answerBroken b fault (b.closeBody body world)

/-- One step of a read of at most `max` bytes. -/
def turn (r : Reader β) (b : Backend σ β) (max : Nat) (world : σ) : Turn β σ :=
  if b.isClosed world && !r.isExhausted then r.answerClosed b world
  else
    match r.phase with
    | .exhausted => .answered (.ok none) r world
    | .closed => .answered (.error .closed) r world
    | .failed index => .answered (.error (.readerFailed index)) r world
    | .needNextChunk => r.openFront b world
    | .streaming body => r.readFront b max body world

end Reader

end ChunkedStorage
