import ChunkedStorage.Proofs.Reader.History

/-!
# Backends that keep their promises

What a reader may rely on, whatever else fails: worlds stay sound (`Backend.Keeps`), a body delivers no more than the
span that it was opened for (`Backend.Bounded`), and what it delivers are the bytes of that span in order
(`Backend.Serves`).  A body may give an empty piece, come to its end or break at any time, and every call may fail.
-/

namespace ChunkedStorage

variable {σ β : Type}

namespace Backend

/-- Every call leads from a sound world to a sound one. -/
structure Keeps (b : Backend σ β) (sound : σ → Prop) : Prop where
  pause : ∀ {d world}, sound world → sound (b.pause d world)
  count : ∀ {counter n world}, sound world → sound (b.count counter n world)
  resolve : ∀ {ref world}, sound world → sound (b.resolve ref world).2
  openBody : ∀ {location s world}, sound world → sound (b.openBody location s world).2
  readBody : ∀ {body max world}, sound world → sound (b.readBody body max world).2.2
  closeBody : ∀ {body world}, sound world → sound (b.closeBody body world)

/-- The body was opened for a span of an object, at a location that was resolved right before. -/
def Opens (b : Backend σ β) (sound : σ → Prop) (ref : String) (s : Span) (body : β) : Prop :=
  ∃ world location world₁ world₂, sound world ∧ b.resolve ref world = (.done (.ok (some location)), world₁) ∧
    b.openBody location s world₁ = (.done (.ok body), world₂)

/-- A body delivers at most as many bytes as the span has that it was opened for; `room` is what is left of them. -/
structure Bounded (b : Backend σ β) (sound : σ → Prop) (room : β → Nat → Prop) : Prop extends b.Keeps sound where
  opened : ∀ {ref s body}, b.Opens sound ref s body → room body s.length
  read : ∀ {body n max world answer body' world'}, sound world → room body n →
    b.readBody body max world = (answer, body', world') →
    answer.piece.length ≤ n ∧ room body' (n - answer.piece.length)

/-- A body delivers the bytes of the span that it was opened for, from first to last, as far as it gets; `held` is what
it has not delivered yet. It delivers at most as many at a time as it is asked for, or else a single one. -/
structure Serves (b : Backend σ β) (object : String → Bytes) (sound : σ → Prop) (held : β → Bytes → Prop) :
    Prop extends b.Keeps sound where
  opened : ∀ {ref s body}, b.Opens sound ref s body → held body (s.cut (object ref))
  read : ∀ {body left max world answer body' world'}, sound world → held body left →
    b.readBody body max world = (answer, body', world') →
    answer.piece.length ≤ Nat.max max 1 ∧ ∃ left', left = answer.piece ++ left' ∧ held body' left'

/-- The body has no more than a number of bytes left. -/
def roomOf (held : β → Bytes → Prop) (body : β) (n : Nat) : Prop := ∃ left, held body left ∧ left.length ≤ n

/-- A backend that serves objects is bounded. -/
theorem Serves.bounded {b : Backend σ β} {object : String → Bytes} {sound : σ → Prop} {held : β → Bytes → Prop}
    (h : b.Serves object sound held) : b.Bounded sound (roomOf held) where
  toKeeps := h.toKeeps
  opened := by
    intro ref s body hopens
    exact ⟨_, h.opened hopens, by rw [Span.length_cut]; exact Nat.min_le_left ..⟩
  read := by
    intro body n max world answer body' world' hsound hroom hread
    obtain ⟨left, hheld, hleft⟩ := hroom
    obtain ⟨-, left', rfl, hheld'⟩ := h.read hsound hheld hread
    rw [List.length_append] at hleft
    exact ⟨by omega, left', hheld', by omega⟩

/-! ### Opening chunks in sound worlds -/

variable {b : Backend σ β} {sound : σ → Prop}

private theorem Keeps.attempt (h : b.Keeps sound) {ref : String} {s : Span} {world world' : σ}
    {answer : Reply (Except AttemptFault β)} (hsound : sound world)
    (hattempt : b.attempt ref s world = (answer, world')) :
    sound world' ∧ ∀ body, answer = .done (.ok body) → b.Opens sound ref s body := by
  have hresolved : sound (b.resolve ref world).2 := h.resolve hsound
  unfold Backend.attempt at hattempt
  rcases hresolve : b.resolve ref world with ⟨(cause | (_ | location)) | _, world₁⟩
  case done.ok.some =>
    simp only [hresolve] at hresolved hattempt
    have hopened : sound (b.openBody location s world₁).2 := h.openBody hresolved
    split at hattempt
    · cases hattempt
      exact ⟨hresolved, by simp⟩
    · rcases hopen : b.openBody location s world₁ with ⟨(fault | body) | _, world₂⟩
      all_goals
        simp only [hopen] at hopened hattempt
        cases hattempt
      · exact ⟨hopened, by simp⟩
      · refine ⟨hopened, ?_⟩
        intro body' hbody
        cases hbody
        exact ⟨world, location, world₁, _, hsound, hresolve, hopen⟩
      · exact ⟨hopened, by simp⟩
  all_goals
    simp only [hresolve] at hresolved hattempt
    cases hattempt
    exact ⟨hresolved, by simp⟩

private theorem Keeps.openFrom (h : b.Keeps sound) {c : Chunk} {s : Span} {retries made : Nat} {world world' : σ}
    {answer : Reply (Except Failure β)} (hsound : sound world)
    (hopen : b.openFrom c s retries made world = (answer, world')) :
    sound world' ∧ ∀ body, answer = .done (.ok body) → b.Opens sound c.remoteRef s body := by
  induction retries generalizing made world with
  | zero =>
    unfold Backend.openFrom at hopen
    rcases hattempt : b.attempt c.remoteRef s world with ⟨((_ | _ | _) | body) | _, world₁⟩
    all_goals
      obtain ⟨hkept, hbody⟩ := h.attempt hsound hattempt
      simp only [hattempt] at hopen
      cases hopen
    case zero.done.ok.refl => exact ⟨hkept, by simpa using hbody⟩
    all_goals exact ⟨hkept, by simp⟩
  | succ retries ih =>
    unfold Backend.openFrom at hopen
    rcases hattempt : b.attempt c.remoteRef s world with ⟨((_ | _ | _) | body) | _, world₁⟩
    all_goals
      obtain ⟨hkept, hbody⟩ := h.attempt hsound hattempt
      simp only [hattempt] at hopen
    -- only a fault that may pass leads to another attempt
    case done.error.resolution => exact ih (h.pause (h.count hkept)) hopen
    case done.error.opening => exact ih (h.pause (h.count hkept)) hopen
    case done.ok =>
      cases hopen
      exact ⟨hkept, by simpa using hbody⟩
    all_goals
      cases hopen
      exact ⟨hkept, by simp⟩

theorem Keeps.openChunk (h : b.Keeps sound) {c : Chunk} {s : Span} {world world' : σ}
    {answer : Reply (Except Failure β)} (hsound : sound world) (hopen : b.openChunk c s world = (answer, world')) :
    sound world' ∧ ∀ body, answer = .done (.ok body) → b.Opens sound c.remoteRef s body :=
  h.openFrom hsound hopen

/-! ### Reading in sound worlds -/

theorem Keeps.acts (h : b.Keeps sound) {r : Reader β} {max : Nat} {world : σ} {notes : List Exchange}
    {turn : Turn β σ} (hacts : Reader.Acts b max r world notes turn) (hsound : sound world) : sound turn.world := by
  have hread (body : β) : sound (b.readBody body (r.demand max) world).2.2 := h.readBody hsound
  cases hacts with
  | closing =>
    simp only [Turn.world, Reader.close]
    split
    · exact h.closeBody hsound
    · exact hsound
  | exhausted | closed | failed | noSlice | noChunk => exact hsound
  | openAbandoned _ _ _ _ hopen | opened _ _ _ _ hopen | refused _ _ _ _ hopen => exact (h.openChunk hsound hopen).1
  | @readAbandoned body _ _ _ _ heq | @advanced body _ _ _ _ heq =>
    have := hread body
    rw [heq] at this
    exact h.closeBody this
  | @idled body _ _ _ _ heq =>
    have := hread body
    rwa [heq] at this
  | @delivered body _ _ _ _ _ heq =>
    have := hread body
    rw [heq] at this
    exact h.count this
  | @broke body _ _ _ _ _ _ heq =>
    have := hread body
    rw [heq] at this
    exact h.count (h.closeBody this)

theorem Keeps.reads (h : b.Keeps sound) {max : Nat} {r : Reader β} {world : σ} {steps : List (Step σ β)}
    {outcome : Except Failure (Option Bytes) × Reader β × σ} (hreads : Reader.Reads b max r world steps outcome)
    (hsound : sound world) : ∀ step ∈ steps, sound step.world := by
  induction hreads with
  | answered hacts => simpa using hsound
  | going hacts _ ih => exact List.forall_mem_cons.2 ⟨hsound, ih (h.acts hacts hsound)⟩

theorem Keeps.next (h : b.Keeps sound) {max : Nat} {r r' : Reader β} {world world' : σ}
    {result : Except Failure (Option Bytes)} (hnext : r.next b max world = (result, r', world'))
    (hsound : sound world) : sound world' := by
  have hreads := r.reads_steps b max world
  rw [hnext] at hreads
  generalize r.steps b max world = steps, houtcome : (result, r', world') = outcome at hreads
  rw [show world' = outcome.2.2 by rw [← houtcome]]
  clear hnext houtcome
  induction hreads with
  | answered hacts => exact h.acts hacts hsound
  | going hacts _ ih => exact ih (h.acts hacts hsound)

/-- In calls that meet sound worlds every step does. -/
theorem Keeps.history (h : b.Keeps sound) (r : Reader β) {uses : List (Use σ)} (huses : ∀ use ∈ uses, sound use.world) :
    ∀ step ∈ r.history b uses, sound step.world := by
  induction uses generalizing r with
  | nil => simp [Reader.history]
  | cons use uses ih =>
    obtain ⟨huse, huses⟩ := List.forall_mem_cons.1 huses
    have hfirst : ∀ step ∈ r.stepsOf b use, sound step.world := by
      cases use with
      | next max world => exact h.reads (r.reads_steps b max world) huse
      | read size world =>
        by_cases hsize : size = 0
        · simp [Reader.stepsOf, hsize]
        · simp only [Reader.stepsOf, if_neg hsize]
          exact h.reads (r.reads_steps b size world) huse
      | close world => exact List.forall_mem_singleton.2 huse
    intro step hstep
    rcases List.mem_append.1 hstep with hstep | hstep
    · exact hfirst step hstep
    · exact ih _ huses step hstep

end Backend

end ChunkedStorage
