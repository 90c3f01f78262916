import ChunkedStorage.Reader

/-!
# Reads

A read takes steps until one of them answers. Each other step opens a chunk, skips an empty piece or goes on to the next
slice, so that every read comes to an end.
-/

namespace ChunkedStorage.Reader

variable {σ β : Type}

/-! ### Steps that do not answer -/

/-- The empty pieces that may still come in the present phase. -/
def idle (r : Reader β) (b : Backend σ β) (world : σ) : Nat :=
  match r.phase with
  | .streaming body => b.idle body world
  | _ => 0

/-- Whether a reader is nearer to the end of a read: in slices, in phases of one, or in empty pieces of one phase. -/
def Nearer (b : Backend σ β) (r' : Reader β) (world' : σ) (r : Reader β) (world : σ) : Prop :=
  r'.pending.length < r.pending.length ∨ r'.pending.length = r.pending.length ∧
    (r'.phase.rank < r.phase.rank ∨ r'.phase.rank = r.phase.rank ∧ r'.idle b world' < r.idle b world)

theorem openFront_going {r r' : Reader β} {b : Backend σ β} {world world' : σ} (phase : r.phase = .needNextChunk)
    (h : r.openFront b world = .going r' world') : Nearer b r' world' r world := by
  unfold openFront at h
  split at h
  · cases h
    simp [Nearer, Phase.rank, phase]
  · split at h
    · cases h
    · split at h
      · simp [answerClosed] at h
      · cases h
        simp [Nearer, Phase.rank, phase]
      · cases h

theorem readFront_going {r r' : Reader β} {b : Backend σ β} {max : Nat} {body : β} {world world' : σ}
    (phase : r.phase = .streaming body) (h : r.readFront b max body world = .going r' world') :
    Nearer b r' world' r world := by
  unfold readFront at h
  split at h
  · simp [answerClosed] at h
  · next body' world'' read =>
    cases h
    simp [Nearer, Phase.rank, idle, phase, b.idle_readBody read]
  · cases h
  · split at h
    · simp [answerBroken] at h
    · cases h
      by_cases empty : r.pending = []
      · simp [Nearer, phase, Phase.rank, advance, empty]
      · have := List.length_pos_iff.2 empty
        exact .inl (by simp [advance]; omega)
  · simp [answerBroken] at h

/-- A step that does not answer leads nearer to the end of the read. -/
theorem turn_going {r r' : Reader β} {b : Backend σ β} {max : Nat} {world world' : σ}
    (h : r.turn b max world = .going r' world') : Nearer b r' world' r world := by
  unfold turn at h
  split at h
  · simp [answerClosed] at h
  · split at h
    · cases h
    · cases h
    · cases h
    · next phase => exact openFront_going phase h
    · next phase => exact readFront_going phase h

/-! ### Reads -/

/-- The next bytes of the range, at most `max` but at least one; `none` at the end of the range and from then on. -/
def next (r : Reader β) (b : Backend σ β) (max : Nat) (world : σ) : Except Failure (Option Bytes) × Reader β × σ :=
  match _step : r.turn b max world with
  | .answered result r world => (result, r, world)
  | .going r world => r.next b max world
termination_by (r.pending.length, r.phase.rank, r.idle b world)
decreasing_by
  simpa [Prod.lex_def, Nearer] using turn_going _step

theorem next_of_answered {r r' : Reader β} {b : Backend σ β} {max : Nat} {result : Except Failure (Option Bytes)}
    {world world' : σ} (h : r.turn b max world = .answered result r' world') :
    r.next b max world = (result, r', world') := by
  rw [next]
  split
  · next hstep =>
    rw [h] at hstep
    cases hstep
    rfl
  · next hstep =>
    rw [h] at hstep
    cases hstep

theorem next_of_going {r r' : Reader β} {b : Backend σ β} {max : Nat} {world world' : σ}
    (h : r.turn b max world = .going r' world') : r.next b max world = r'.next b max world' := by
  rw [next]
  split
  · next hstep =>
    rw [h] at hstep
    cases hstep
  · next hstep =>
    rw [h] at hstep
    cases hstep
    rfl

/-- Reads into a buffer of `size` bytes. Nothing is read into an empty one. -/
def read (r : Reader β) (b : Backend σ β) (size : Nat) (world : σ) : Except Failure Bytes × Reader β × σ :=
  if size = 0 then (.ok [], r, world)
  else
    let (result, r, world) := r.next b size world
    (result.map (·.getD []), r, world)

end ChunkedStorage.Reader
