import ChunkedStorage.Reader.Next

/-!
# Copies

Reads of the whole rest of a range, into a sink or as a list of pieces. They go on after broken transfers, as long as
these are few enough to be retried.
-/

namespace ChunkedStorage

theorem Backend.attempt_failure_not_retryable (fault : Backend.AttemptFault) (index attempts : Nat) (s : Span) :
    (fault.failure index attempts s).isRetryable = false := by
  cases fault <;> rfl

theorem Backend.openFrom_not_retryable {σ β : Type} (b : Backend σ β) (c : Chunk) (s : Span) {failure : Failure}
    {world' : σ} (retries made : Nat) (world : σ)
    (h : b.openFrom c s retries made world = (.done (.error failure), world')) : failure.isRetryable = false := by
  induction retries generalizing made world with
  | zero =>
    unfold openFrom at h
    split at h <;> simp at h
    · simp [← h.1, Failure.isRetryable]
    · simp [← h.1, attempt_failure_not_retryable]
  | succ retries ih =>
    unfold openFrom at h
    split at h <;> simp at h
    · simp [← h.1, Failure.isRetryable]
    · exact ih _ _ h

namespace Reader

variable {σ β : Type}

/-! ### Broken transfers -/

/-- Whether a reader has less to go than another one: fewer slices, or fewer transfers of one that may yet break. -/
def LessToGo (limit : Nat) (r' r : Reader β) : Prop :=
  r'.pending.length < r.pending.length ∨
    r'.pending.length = r.pending.length ∧ limit - r'.failures < limit - r.failures

theorem answerBroken_retryable {r r' : Reader β} {b : Backend σ β} {fault : TransferFault} {failure : Failure}
    {world world' : σ} (h : r.answerBroken b fault world = .answered (.error failure) r' world')
    (retryable : failure.isRetryable = true) : LessToGo b.policy.maxTransferFailures r' r := by
  simp only [answerBroken, breakOff, Turn.answered.injEq, Except.error.injEq] at h
  obtain ⟨rfl, rfl, -⟩ := h
  simp [Failure.isRetryable] at retryable
  simp [LessToGo]
  omega

theorem turn_retryable {r r' : Reader β} {b : Backend σ β} {max : Nat} {failure : Failure} {world world' : σ}
    (h : r.turn b max world = .answered (.error failure) r' world') (retryable : failure.isRetryable = true) :
    LessToGo b.policy.maxTransferFailures r' r := by
  unfold turn at h
  split at h
  · simp only [answerClosed, Turn.answered.injEq, Except.error.injEq] at h
    simp [← h.1, Failure.isRetryable] at retryable
  · split at h
    · simp at h
    · simp only [Turn.answered.injEq, Except.error.injEq] at h
      simp [← h.1, Failure.isRetryable] at retryable
    · simp only [Turn.answered.injEq, Except.error.injEq] at h
      simp [← h.1, Failure.isRetryable] at retryable
    · unfold openFront at h
      split at h
      · cases h
      · split at h
        · simp only [Turn.answered.injEq, Except.error.injEq] at h
          simp [← h.1, Failure.isRetryable] at retryable
        · split at h
          · simp only [answerClosed, Turn.answered.injEq, Except.error.injEq] at h
            simp [← h.1, Failure.isRetryable] at retryable
          · cases h
          · next opened =>
            simp only [Turn.answered.injEq, Except.error.injEq] at h
            rw [← h.1, b.openFrom_not_retryable _ _ _ _ _ opened] at retryable
            cases retryable
    · unfold readFront at h
      split at h
      · simp only [answerClosed, Turn.answered.injEq, Except.error.injEq] at h
        simp [← h.1, Failure.isRetryable] at retryable
      · cases h
      · simp at h
      · split at h
        · exact answerBroken_retryable h retryable
        · cases h
      · exact answerBroken_retryable h retryable

theorem next_of_exhausted (r : Reader β) (b : Backend σ β) (max : Nat) (world : σ) (h : r.phase = .exhausted) :
    r.next b max world = (.ok none, r, world) :=
  next_of_answered (by simp [turn, isExhausted, Phase.isExhausted, h])

/-- A step that does not answer leaves the broken transfers of a slice, goes on to the next slice, or is the last. -/
theorem turn_going_failures {r r' : Reader β} {b : Backend σ β} {max : Nat} {world world' : σ}
    (h : r.turn b max world = .going r' world') :
    r'.pending.length < r.pending.length ∨ r'.pending = r.pending ∧ r'.failures = r.failures ∨
      r'.phase = .exhausted := by
  unfold turn at h
  split at h
  · simp [answerClosed] at h
  · split at h
    · cases h
    · cases h
    · cases h
    · unfold openFront at h
      split at h
      · cases h
        exact .inr (.inr rfl)
      · split at h
        · cases h
        · split at h
          · simp [answerClosed] at h
          · cases h
            exact .inr (.inl ⟨rfl, rfl⟩)
          · cases h
    · unfold readFront at h
      split at h
      · simp [answerClosed] at h
      · cases h
        exact .inr (.inl ⟨rfl, rfl⟩)
      · cases h
      · split at h
        · simp [answerBroken] at h
        · cases h
          by_cases empty : r.pending = []
          · exact .inr (.inr (by simp [advance, empty]))
          · have := List.length_pos_iff.2 empty
            exact .inl (by simp [advance]; omega)
      · simp [answerBroken] at h

/-- After a failure that can be retried there is less to go. -/
theorem next_retryable {r r' : Reader β} {b : Backend σ β} {max : Nat} {failure : Failure} {world world' : σ}
    (h : r.next b max world = (.error failure, r', world')) (retryable : failure.isRetryable = true) :
    LessToGo b.policy.maxTransferFailures r' r := by
  fun_induction next r b max world with
  | case1 r world result r'' world'' step =>
    simp only [Prod.mk.injEq] at h
    obtain ⟨rfl, rfl, rfl⟩ := h
    exact turn_retryable step retryable
  | case2 r world r'' world'' step ih =>
    have less := ih h
    rcases turn_going_failures step with fewer | same | last
    · simp only [LessToGo] at *
      omega
    · simpa [LessToGo, same.1, same.2] using less
    · simp [next_of_exhausted _ _ _ _ last] at h

/-! ### Reads that go on after broken transfers -/

/-- The next bytes of the range; broken transfers are gone over as long as they can be retried. -/
def nextRetrying (r : Reader β) (b : Backend σ β) (max : Nat) (world : σ) :
    Except Failure (Option Bytes) × Reader β × σ :=
  match _read : r.next b max world with
  | (.error failure, r', world) =>
    if _retryable : failure.isRetryable = true then r'.nextRetrying b max world else (.error failure, r', world)
  | (.ok piece, r, world) => (.ok piece, r, world)
termination_by (r.pending.length, b.policy.maxTransferFailures - r.failures)
decreasing_by
  simpa [Prod.lex_def, LessToGo] using next_retryable _read _retryable

/-- The largest piece of copies. -/
def readSize : Nat := 256 * 1024

/-- Reads pieces until the end of the range or a failure that cannot be retried; there are at most `fuel` of them. -/
def collectFor (b : Backend σ β) : (fuel : Nat) → Reader β → σ → List Bytes × Except Failure Unit × Reader β × σ
  | 0, r, world => ([], .ok (), r, world)
  | fuel + 1, r, world =>
    match r.nextRetrying b readSize world with
    | (.error failure, r, world) => ([], .error failure, r, world)
    | (.ok none, r, world) => ([], .ok (), r, world)
    | (.ok (some piece), r, world) =>
      let (pieces, result, r, world) := collectFor b fuel r world
      (piece :: pieces, result, r, world)

/-- The pieces of the rest of the range up to its end or the first failure that cannot be retried. A piece holds at
least one byte, so that there are no more pieces than bytes. -/
def collect (r : Reader β) (b : Backend σ β) (world : σ) : List Bytes × Except Failure Unit × Reader β × σ :=
  collectFor b (r.remaining + 1) r world

end Reader

/-! ### Sinks -/

/-- Takes bytes, and has them arrive for sure when it is flushed. -/
structure Sink (τ : Type) where
  write : Bytes → τ → Except IoFault Unit × τ
  flush : τ → Except IoFault Unit × τ

namespace Reader

variable {σ β τ : Type}

/-- Copies pieces, at most `fuel` of them, into a sink; `written` bytes were copied before. -/
def copyFor (b : Backend σ β) (sink : Sink τ) :
    (fuel written : Nat) → Reader β → σ → τ → Except Failure Nat × Reader β × σ × τ
  | 0, written, r, world, target => finish written r world target
  | fuel + 1, written, r, world, target =>
    match r.nextRetrying b readSize world with
    | (.error failure, r, world) => (.error failure, r, world, target)
    | (.ok none, r, world) => finish written r world target
    | (.ok (some piece), r, world) =>
      match sink.write piece target with
      | (.error fault, target) => (.error (.output fault), r, world, target)
      | (.ok (), target) => copyFor b sink fuel (written + piece.length) r world target
where
  /-- Flushes the sink and gives the number of bytes. -/
  finish (written : Nat) (r : Reader β) (world : σ) (target : τ) : Except Failure Nat × Reader β × σ × τ :=
    match sink.flush target with
    | (.error fault, target) => (.error (.output fault), r, world, target)
    | (.ok (), target) => (.ok written, r, world, target)

/-- Copies the rest of the range into a sink and gives the number of bytes. -/
def copyTo (r : Reader β) (b : Backend σ β) (sink : Sink τ) (world : σ) (target : τ) :
    Except Failure Nat × Reader β × σ × τ :=
  copyFor b sink (r.remaining + 1) 0 r world target

end Reader

end ChunkedStorage
