import ChunkedStorage.Duration
import ChunkedStorage.Failure

/-!
# Retry policies

How often the opening of a chunk is tried, how long the pauses between the attempts are, and how many broken transfers
in a row a chunk may have. The `n`-th pause is `n` times the base delay.
-/

namespace ChunkedStorage

/-- The retry part of a configuration. -/
structure RetryConfig where
  /-- Attempts to open a chunk. -/
  maxAttempts : Nat := 3
  baseDelay : Duration := .ofSeconds 1
  /-- Broken transfers of one chunk without progress before the read fails. -/
  maxTransferFailures : Nat := 3
deriving DecidableEq

def RetryConfig.validate (c : RetryConfig) : Except Failure Unit :=
  if c.maxAttempts = 0 then .error (.configuration .zeroAttempts)
  else if c.maxTransferFailures = 0 then .error (.configuration .zeroTransferFailures)
  else .ok ()

structure RetryPolicy where
  maxAttempts : Nat
  baseDelay : Duration
  maxTransferFailures : Nat
deriving DecidableEq

namespace RetryPolicy

/-- The policy of a configuration; each limit is at least one. -/
def ofConfig (c : RetryConfig) : RetryPolicy where
  maxAttempts := max c.maxAttempts 1
  baseDelay := c.baseDelay
  maxTransferFailures := max c.maxTransferFailures 1

/-- The pause after attempt `n`. -/
def delay (p : RetryPolicy) (n : Nat) : Duration := p.baseDelay.times (min n (Nat.pow 2 32 - 1))

/-- How often a failed attempt is followed by another one. -/
def retries (p : RetryPolicy) : Nat := p.maxAttempts - 1

end RetryPolicy

/-! ### The pauses one by one -/

/-- Gives the pauses of a policy in order. -/
structure Backoff where
  policy : RetryPolicy
  given : Nat

namespace Backoff

def ofPolicy (policy : RetryPolicy) : Backoff := ⟨policy, 0⟩

def next? (b : Backoff) : Option (Duration × Backoff) :=
  if b.given < b.policy.retries then
    some (b.policy.delay (b.given + 1), { b with given := b.given + 1 })
  else
    none

/-- The next pauses, at most `limit` of them, and whether no other follows them. -/
def take : (limit : Nat) → Backoff → List Duration × Bool
  | 0, _ => ([], false)
  | limit + 1, b =>
    match b.next? with
    | none => ([], true)
    | some (delay, b) =>
      let (delays, ended) := take limit b
      (delay :: delays, ended)

end Backoff

end ChunkedStorage
