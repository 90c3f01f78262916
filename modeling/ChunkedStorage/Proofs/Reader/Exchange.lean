import ChunkedStorage.Reader.Next

/-!
# Exchanges

What passes between a reader and its backend.  Any backend can be made to note its calls behind the world
(`Backend.noting`), which changes nothing else.  The opening of a chunk then shows as a row of attempts
(`Backend.openChunk_noting`).
-/

namespace ChunkedStorage

variable {σ β : Type}

/-! ### Notes of calls -/

def Reply.map {α γ : Type} (f : α → γ) : Reply α → Reply γ
  | .done answer => .done (f answer)
  | .abandoned => .abandoned

/-- The bytes that a read of a body hands over. -/
def Reply.piece : Reply Delivery → Bytes
  | .done (.ok (some piece)) => piece
  | _ => []

/-- One call that a reader makes, with what comes back. -/
inductive Exchange where
  | resolved (ref : String) (answer : Reply (Except Cause (Option AccessLocation)))
  | opened (location : AccessLocation) (s : Span) (answer : Reply (Except TransferFault Unit))
  | read (max : Nat) (answer : Reply Delivery)
  | closed
  | paused (d : Duration)

namespace Backend

/-- The same backend, with every call noted behind the world. -/
def noting (b : Backend σ β) : Backend (σ × List Exchange) β where
  isClosed := fun w => b.isClosed w.1
  now := fun w => b.now w.1
  pause := fun d w => (b.pause d w.1, w.2 ++ [.paused d])
  count := fun counter n w => (b.count counter n w.1, w.2)
  policy := b.policy
  resolve := fun ref w =>
    let (answer, world) := b.resolve ref w.1
    (answer, world, w.2 ++ [.resolved ref answer])
  openBody := fun location s w =>
    let (answer, world) := b.openBody location s w.1
    (answer, world, w.2 ++ [.opened location s (answer.map fun opened => opened.map fun _ => ())])
  readBody := fun body max w =>
    let (answer, body, world) := b.readBody body max w.1
    (answer, body, world, w.2 ++ [.read max answer])
  closeBody := fun body w => (b.closeBody body w.1, w.2 ++ [.closed])
  idle := fun body w => b.idle body w.1
  idle_readBody := by
    intro body max w body' w' h
    simp only [Prod.mk.injEq] at h
    obtain ⟨hanswer, hbody, hworld⟩ := h
    subst hbody hworld
    exact b.idle_readBody (by rw [← hanswer])

/-! ### Attempts to open a chunk -/

/-- Notes of attempts to open a span of an object: each resolves the object afresh, and opens it, if at all, in that
span and at the location it has just been given. -/
inductive Attempts (ref : String) (s : Span) : List Exchange → Prop where
  | nil : Attempts ref s []
  | resolved (answer : Reply (Except Cause (Option AccessLocation))) {rest : List Exchange} :
      Attempts ref s rest → Attempts ref s (.resolved ref answer :: rest)
  | opened (location : AccessLocation) (answer : Reply (Except TransferFault Unit)) {rest : List Exchange} :
      Attempts ref s rest →
        Attempts ref s (.resolved ref (.done (.ok (some location))) :: .opened location s answer :: rest)
  | paused (d : Duration) {rest : List Exchange} : Attempts ref s rest → Attempts ref s (.paused d :: rest)

/-- Noting changes nothing about an attempt. -/
private theorem attempt_noting (b : Backend σ β) (ref : String) (s : Span) (world : σ) (notes : List Exchange) :
    ∃ answer rest, b.noting.attempt ref s (world, notes) =
        ((b.attempt ref s world).1, (b.attempt ref s world).2, notes ++ .resolved ref answer :: rest) ∧
      ∀ later, Attempts ref s later → Attempts ref s (.resolved ref answer :: rest ++ later) := by
  rcases hresolve : b.resolve ref world with ⟨(cause | (_ | location)) | _, world₁⟩
  · exact ⟨.done (.error cause), [], by simp [attempt, noting, hresolve], fun _ h => .resolved _ h⟩
  · exact ⟨.done (.ok none), [], by simp [attempt, noting, hresolve], fun _ h => .resolved _ h⟩
  · by_cases hexpired : location.isExpiredAt (b.now world₁) = true
    · exact ⟨_, [], by simp [attempt, noting, hresolve, hexpired]; rfl, fun _ h => .resolved _ h⟩
    · rcases hopen : b.openBody location s world₁ with ⟨opened | _, world₂⟩
      · refine ⟨_, [.opened location s (.done (opened.map fun _ => ()))], ?_, fun _ h => .opened _ _ h⟩
        cases opened <;> simp [attempt, noting, hresolve, hexpired, hopen, Reply.map]
      · refine ⟨_, [.opened location s .abandoned], ?_, fun _ h => .opened _ _ h⟩
        simp [attempt, noting, hresolve, hexpired, hopen, Reply.map]
  · exact ⟨.abandoned, [], by simp [attempt, noting, hresolve], fun _ h => .resolved _ h⟩

/-- Noting changes nothing about the opening of a chunk, and what is noted are attempts. -/
private theorem openFrom_noting (b : Backend σ β) (c : Chunk) (s : Span) (retries made : Nat) (world : σ)
    (notes : List Exchange) :
    ∃ answer rest, b.noting.openFrom c s retries made (world, notes) =
        ((b.openFrom c s retries made world).1, (b.openFrom c s retries made world).2,
          notes ++ .resolved c.remoteRef answer :: rest) ∧
      Attempts c.remoteRef s (.resolved c.remoteRef answer :: rest) := by
  induction retries generalizing made world notes with
  | zero =>
    obtain ⟨answer, rest, hnoting, hattempts⟩ := b.attempt_noting c.remoteRef s world notes
    refine ⟨answer, rest, ?_, by simpa using hattempts [] .nil⟩
    unfold openFrom
    rw [hnoting]
    rcases b.attempt c.remoteRef s world with ⟨((_ | _ | _) | _) | _, world₁⟩ <;> rfl
  | succ retries ih =>
    obtain ⟨answer, rest, hnoting, hattempts⟩ := b.attempt_noting c.remoteRef s world notes
    unfold openFrom
    rw [hnoting]
    -- every fault but a missing object leads to the same next round
    have again : ∀ (fault : AttemptFault) (world₁ : σ),
        let paused := b.pause (b.policy.delay (made + 1)) (b.count fault.counter 1 world₁)
        ∃ answer' rest', b.noting.openFrom c s retries (made + 1)
            (paused, notes ++ .resolved c.remoteRef answer :: rest ++ [.paused (b.policy.delay (made + 1))]) =
          ((b.openFrom c s retries (made + 1) paused).1, (b.openFrom c s retries (made + 1) paused).2,
            notes ++ .resolved c.remoteRef answer' :: rest') ∧
        Attempts c.remoteRef s (.resolved c.remoteRef answer' :: rest') := by
      intro fault world₁ paused
      obtain ⟨answer', rest', hagain, hattempts'⟩ := ih (made + 1) paused _
      refine ⟨answer, rest ++ .paused (b.policy.delay (made + 1)) :: .resolved c.remoteRef answer' :: rest', ?_,
        hattempts _ (.paused _ hattempts')⟩
      rw [hagain]
      simp
    rcases b.attempt c.remoteRef s world with ⟨((cause | _ | fault) | _) | _, world₁⟩
    · exact again (.resolution cause) world₁
    · exact ⟨answer, rest, rfl, by simpa using hattempts [] .nil⟩
    · exact again (.opening fault) world₁
    · exact ⟨answer, rest, rfl, by simpa using hattempts [] .nil⟩
    · exact ⟨answer, rest, rfl, by simpa using hattempts [] .nil⟩

theorem openChunk_noting (b : Backend σ β) (c : Chunk) (s : Span) (world : σ) (notes : List Exchange) :
    ∃ answer rest, b.noting.openChunk c s (world, notes) =
        ((b.openChunk c s world).1, (b.openChunk c s world).2, notes ++ .resolved c.remoteRef answer :: rest) ∧
      Attempts c.remoteRef s (.resolved c.remoteRef answer :: rest) :=
  b.openFrom_noting c s b.policy.retries 0 world notes

end Backend

end ChunkedStorage
