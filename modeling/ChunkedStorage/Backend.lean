import ChunkedStorage.Body
import ChunkedStorage.Chunk
import ChunkedStorage.Duration.Text
import ChunkedStorage.Location
import ChunkedStorage.Metrics
import ChunkedStorage.Retry

/-!
# Backends

The remote side of a read: where locations come from, how bytes are fetched, and how hard to try. A backend works on a
world of type `σ`, which its calls change, and opens bodies of type `β`.
-/

namespace ChunkedStorage

/-- What comes of a call during which the object that is read may be closed. -/
inductive Reply (α : Type) where
  | done (answer : α)
  /-- The object was closed before the call came back. -/
  | abandoned

/-- What surrounds the reads of one object. -/
structure Surroundings (σ : Type) where
  /-- Whether the object is closed. -/
  isClosed : σ → Bool
  now : σ → Timestamp
  pause : Duration → σ → σ
  count : Counter → Nat → σ → σ

structure Backend (σ β : Type) extends Surroundings σ where
  policy : RetryPolicy
  /-- The location of the object behind a reference; `none` means that there is no object and never will be one. -/
  resolve : (ref : String) → σ → Reply (Except Cause (Option AccessLocation)) × σ
  /-- Opens a span of the object at a location. -/
  openBody : AccessLocation → Span → σ → Reply (Except TransferFault β) × σ
  /-- Reads at most `max` bytes, but at least one; a piece may be empty. -/
  readBody : β → (max : Nat) → σ → Reply Delivery × β × σ
  closeBody : β → σ → σ
  /-- A bound on the empty pieces that a body gives one after another. -/
  idle : β → σ → Nat
  idle_readBody : ∀ {body max s body' s'},
    readBody body max s = (.done (.ok (some [])), body', s') → idle body' s' < idle body s

namespace Backend

def text {σ β : Type} (b : Backend σ β) : String :=
  let p := b.policy
  s!"Backend \x7b retry: RetryPolicy \x7b max_attempts: {p.maxAttempts}, base_delay: {p.baseDelay.brief}, " ++
    s!"max_transfer_failures: {p.maxTransferFailures} \x7d, .. \x7d"

/-! ### Opening chunks -/

/-- Why one attempt to open a chunk failed. -/
inductive AttemptFault where
  | resolution (cause : Cause)
  | missing
  | opening (fault : TransferFault)

variable {σ β : Type}

/-- Resolves a fresh location and opens the span there, unless the location has expired already. -/
def attempt (b : Backend σ β) (ref : String) (s : Span) (world : σ) : Reply (Except AttemptFault β) × σ :=
  match b.resolve ref world with
  | (.abandoned, world) => (.abandoned, world)
  | (.done (.error cause), world) => (.done (.error (.resolution cause)), world)
  | (.done (.ok none), world) => (.done (.error .missing), world)
  | (.done (.ok (some location)), world) =>
    if location.isExpiredAt (b.now world) then
      (.done (.error (.resolution (.stated s!"location for {ref} already expired"))), world)
    else
      match b.openBody location s world with
      | (.abandoned, world) => (.abandoned, world)
      | (.done (.error fault), world) => (.done (.error (.opening fault)), world)
      | (.done (.ok body), world) => (.done (.ok body), world)

/-- The failure of a chunk after the last attempt. -/
def AttemptFault.failure (fault : AttemptFault) (index attempts : Nat) (s : Span) : Failure :=
  match fault with
  | resolution cause => .resolution index attempts cause
  | missing => .missingObject index
  | opening fault => .opening index attempts s.start s.stop fault

/-- What counts a repetition after a fault. -/
def AttemptFault.counter : AttemptFault → Counter
  | resolution _ | missing => .resolveRetries
  | opening _ => .openRetries

/-- Tries to open a chunk, and again up to `retries` times; `made` attempts were made before. -/
def openFrom (b : Backend σ β) (c : Chunk) (s : Span) : (retries made : Nat) → σ → Reply (Except Failure β) × σ
  | retries, made, world =>
    match b.attempt c.remoteRef s world with
    | (.abandoned, world) => (.abandoned, world)
    | (.done (.ok body), world) => (.done (.ok body), world)
    | (.done (.error .missing), world) => (.done (.error (.missingObject c.index)), world)
    | (.done (.error fault), world) =>
      match retries with
      | 0 => (.done (.error (fault.failure c.index (made + 1) s)), world)
      | retries + 1 =>
        let world := b.pause (b.policy.delay (made + 1)) (b.count fault.counter 1 world)
        openFrom b c s retries (made + 1) world

/-- Opens a span of a chunk, as often as the policy allows. A chunk without an object fails at once. -/
def openChunk (b : Backend σ β) (c : Chunk) (s : Span) (world : σ) : Reply (Except Failure β) × σ :=
  b.openFrom c s b.policy.retries 0 world

end Backend

end ChunkedStorage
