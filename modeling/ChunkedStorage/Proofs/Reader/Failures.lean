import ChunkedStorage.Proofs.Reader.Position
import ChunkedStorage.Proofs.Rehearsal
import ChunkedStorage.Reader.Copy

/-!
# Broken transfers

A reader counts the transfers that break one after another.  The count is the one that the history of its calls gives
(`Path.failures_eq`), and it never gets beyond the limit (`Tallied.path`): below the limit the failure can be retried
and the next read opens the same chunk again; at the limit the chunk is given up.
-/

namespace ChunkedStorage

variable {σ β : Type}

/-! ### Counting broken transfers -/

/-- Whether an answer of the open body takes the reader on: by a byte, or to the next slice. -/
def Reader.moves (r : Reader β) : Delivery → Bool
  | .ok (some piece) => !piece.isEmpty
  | .ok none => r.frontLength ≤ r.sliceDelivered
  | .error _ => false

private theorem Reader.moves_of_breakage {r : Reader β} {answer : Delivery} {fault : TransferFault}
    (h : r.breakage? answer = some fault) : r.moves answer = false := by
  unfold breakage? at h
  split at h
  · rfl
  · split at h
    · next hshort => simpa [moves] using hshort
    · cases h
  · cases h

namespace Step

/-- The fault with which the transfer breaks at a step, if it does. -/
def fault? (step : Step σ β) : Option TransferFault :=
  match step.notes with
  | .read _ (.done answer) :: _ => step.reader.breakage? answer
  | _ => none

/-- Whether a step delivers a byte or goes on to the next chunk. -/
def progresses (step : Step σ β) : Bool :=
  match step.notes with
  | .read _ (.done answer) :: _ => step.reader.moves answer
  | _ => false

/-- The number of transfers that broke in a row, after a step. -/
def tally (k : Nat) (step : Step σ β) : Nat :=
  if step.progresses then 0 else if step.fault?.isSome then k + 1 else k

/-- Whether a step answers with a broken transfer. -/
def isTransfer (step : Step σ β) : Bool :=
  match step.answer? with
  | some (.error (.transfer ..)) => true
  | _ => false

end Step

namespace Backend

/-- A chunk that cannot be opened fails with the fault of some attempt. -/
theorem openFrom_failure (b : Backend σ β) {c : Chunk} {s : Span} {retries made : Nat} {world world' : σ}
    {failure : Failure} (h : b.openFrom c s retries made world = (.done (.error failure), world')) :
    ∃ (fault : AttemptFault) (attempts : Nat), failure = fault.failure c.index attempts s := by
  induction retries generalizing made world with
  | zero =>
    unfold openFrom at h
    rcases hattempt : b.attempt c.remoteRef s world with ⟨((cause | _ | fault) | _) | _, world₁⟩
    all_goals
      simp only [hattempt] at h
      cases h
    · exact ⟨.resolution cause, made + 1, rfl⟩
    · exact ⟨.missing, made + 1, rfl⟩
    · exact ⟨.opening fault, made + 1, rfl⟩
  | succ retries ih =>
    unfold openFrom at h
    rcases hattempt : b.attempt c.remoteRef s world with ⟨((_ | _ | _) | _) | _, world₁⟩
    all_goals simp only [hattempt] at h
    case done.error.resolution => exact ih h
    case done.error.opening => exact ih h
    all_goals cases h
    exact ⟨.missing, made + 1, rfl⟩

end Backend

namespace Reader

variable {b : Backend σ β} {r r' : Reader β} {max : Nat} {world : σ} {notes : List Exchange} {turn : Turn β σ}

private theorem fault?_closeNotes (r r' : Reader β) (world : σ) (answer? : Option (Except Failure (Option Bytes))) :
    (⟨r, world, r'.closeNotes, answer?⟩ : Step σ β).fault? = none ∧
      (⟨r, world, r'.closeNotes, answer?⟩ : Step σ β).progresses = false := by
  simp only [Step.fault?, Step.progresses, closeNotes]
  cases r'.phase <;> exact ⟨rfl, rfl⟩

/-- The count of a reader changes as the notes of a step tell. -/
theorem Acts.failures_eq (h : Acts b max r world notes turn) :
    turn.reader.failures = (⟨r, world, notes, turn.answer?⟩ : Step σ β).tally r.failures := by
  cases h with
  | closing =>
    obtain ⟨hfault, hprogress⟩ := fault?_closeNotes r r world (some (.error .closed))
    simp [Step.tally, Turn.answer?, Turn.reader, hfault, hprogress]
  | exhausted | closed | failed | noSlice | noChunk => rfl
  | openAbandoned | opened | refused => rfl
  | readAbandoned | idled => rfl
  | delivered _ _ _ hpiece => simp [Step.tally, Step.progresses, moves, hpiece, Turn.reader, accept]
  | broke _ _ _ hfault =>
    simp [Step.tally, Step.progresses, Step.fault?, hfault, moves_of_breakage hfault, Turn.reader, answerBroken,
      breakOff]
  | advanced _ _ _ hwhole =>
    simp [Step.tally, Step.progresses, moves, hwhole, Turn.reader, Reader.advance]

/-- So after a path the count is the one that its steps give. -/
theorem Path.failures_eq {steps : List (Step σ β)} (h : Path b r steps r') :
    r'.failures = steps.foldl Step.tally r.failures := by
  induction h with
  | nil => rfl
  | turn hacts _ ih => rw [ih, hacts.failures_eq, List.foldl_cons]
  | @close r _ world _ _ ih =>
    obtain ⟨hfault, hprogress⟩ := fault?_closeNotes r r world none
    rw [ih, List.foldl_cons]
    simp [Step.tally, hfault, hprogress]

/-! ### Steps with a broken transfer -/

/-- At a fault of an open body the read is answered. -/
private theorem Acts.of_fault (h : Acts b max r world notes turn) {answer? : Option (Except Failure (Option Bytes))}
    {fault : TransferFault} (hfault : (⟨r, world, notes, answer?⟩ : Step σ β).fault? = some fault) :
    ∃ body world', r.phase = .streaming body ∧ turn = r.answerBroken b fault world' := by
  cases h with
  | closing => simp [(fault?_closeNotes r r world answer?).1] at hfault
  | exhausted | closed | failed | noSlice | noChunk | openAbandoned | opened | refused | readAbandoned =>
    simp [Step.fault?] at hfault
  | idled | delivered => simp [Step.fault?, breakage?] at hfault
  | advanced _ _ _ hwhole =>
    have : ¬ r.sliceDelivered < r.frontLength := Nat.not_lt.2 hwhole
    simp [Step.fault?, breakage?, this] at hfault
  | broke _ hphase _ hbreakage =>
    simp only [Step.fault?, hbreakage, Option.some.injEq] at hfault
    subst hfault
    exact ⟨_, _, hphase, rfl⟩

/-- A broken transfer is told only of a fault of an open body. -/
private theorem Acts.fault_of_transfer {r' : Reader β} {world' : σ} {index offset failures limit : Nat}
    {fault : TransferFault} {answer? : Option (Except Failure (Option Bytes))}
    (h : Acts b max r world notes (.answered (.error (.transfer index offset failures limit fault)) r' world')) :
    ∃ fault', (⟨r, world, notes, answer?⟩ : Step σ β).fault? = some fault' := by
  generalize hturn : Turn.answered (.error (.transfer index offset failures limit fault)) r' world' = turn at h
  cases h with
  | broke _ _ _ hbreakage => exact ⟨_, hbreakage⟩
  | refused _ _ _ _ hopen =>
    obtain ⟨fault', attempts, rfl⟩ := b.openFrom_failure hopen
    cases fault' <;> simp [Backend.AttemptFault.failure] at hturn
  | closing | exhausted | closed | failed | noSlice | noChunk | openAbandoned | opened | readAbandoned | idled
  | delivered | advanced => simp at hturn

private theorem Acts.isTransfer_eq (h : Acts b max r world notes turn) :
    (⟨r, world, notes, turn.answer?⟩ : Step σ β).isTransfer =
      (⟨r, world, notes, turn.answer?⟩ : Step σ β).fault?.isSome := by
  cases hfault : (⟨r, world, notes, turn.answer?⟩ : Step σ β).fault? with
  | some fault =>
    obtain ⟨body, world', -, rfl⟩ := h.of_fault hfault
    rfl
  | none =>
    cases turn with
    | going => rfl
    | answered result r' world' =>
      cases result with
      | ok => rfl
      | error failure =>
        cases failure with
        | transfer =>
          obtain ⟨fault', hfault'⟩ := h.fault_of_transfer
          rw [hfault'] at hfault
          cases hfault
        | _ => rfl

/-- Without progress every broken transfer is counted. -/
private theorem Path.failures_of_still {steps : List (Step σ β)} (h : Path b r steps r')
    (hstill : ∀ step ∈ steps, step.progresses = false) :
    r'.failures = r.failures + steps.countP Step.isTransfer := by
  induction h with
  | nil => rfl
  | turn hacts _ ih =>
    obtain ⟨hfirst, hrest⟩ := List.forall_mem_cons.1 hstill
    rw [ih hrest, hacts.failures_eq, List.countP_cons, hacts.isTransfer_eq]
    simp only [Step.tally, hfirst, Bool.false_eq_true, if_false]
    split <;> omega
  | close _ ih =>
    rw [ih (List.forall_mem_cons.1 hstill).2, List.countP_cons]
    rfl

/-! ### The count and the phase agree -/

/-- The count of a reader is below the limit as long as the reader is of use, and never above it; an open body belongs
to a slice in front. -/
structure Tallied (limit : Nat) (chunks : List Chunk) (r : Reader β) : Prop where
  listing : r.chunks = chunks
  bounded : r.failures ≤ Nat.max limit 1
  usable : r.phase = .needNextChunk ∨ (∃ body, r.phase = .streaming body) → r.failures < Nat.max limit 1
  front : ∀ body, r.phase = .streaming body → ∃ slice rest c, r.pending = slice :: rest ∧ chunks[slice.index]? = some c

namespace Tallied

variable {limit : Nat} {chunks : List Chunk}

theorem ofSlices (limit : Nat) (chunks : List Chunk) (slices : List ChunkSlice) (wanted : Span) :
    Tallied limit chunks (.ofSlices chunks slices wanted : Reader β) where
  listing := rfl
  bounded := Nat.zero_le _
  usable := fun _ => Nat.lt_of_lt_of_le Nat.zero_lt_one (Nat.le_max_right ..)
  front := fun body hphase => absurd hphase (ofSlices_not_streaming chunks slices wanted body)

private theorem withPhase {phase : Phase β} (h : Tallied limit chunks r)
    (husable : phase = .needNextChunk ∨ (∃ body, phase = .streaming body) → r.failures < Nat.max limit 1)
    (hfront : ∀ body, phase = .streaming body →
      ∃ slice rest c, r.pending = slice :: rest ∧ chunks[slice.index]? = some c) :
    Tallied limit chunks { r with phase } :=
  ⟨h.listing, h.bounded, husable, hfront⟩

theorem close (h : Tallied limit chunks r) : Tallied limit chunks { r with phase := (.closed : Phase β) } :=
  h.withPhase (by simp) (by simp)

/-- Every step keeps the count within the limit. -/
theorem acts (h : Tallied b.policy.maxTransferFailures chunks r) (hacts : Acts b max r world notes turn) :
    Tallied b.policy.maxTransferFailures chunks turn.reader := by
  have hpositive : 0 < Nat.max b.policy.maxTransferFailures 1 :=
    Nat.lt_of_lt_of_le Nat.zero_lt_one (Nat.le_max_right ..)
  cases hacts with
  | closing =>
    simp only [Turn.reader, close_reader]
    exact h.close
  | exhausted | closed | failed | noChunk => exact h
  | noSlice | openAbandoned | refused | readAbandoned => exact h.withPhase (by simp) (by simp)
  | @opened slice rest c body _ _ _ _ hphase hpending hchunk _ _ =>
    rw [h.listing] at hchunk
    exact h.withPhase (fun _ => h.usable (.inl hphase)) fun _ _ => ⟨slice, rest, c, hpending, hchunk⟩
  | idled _ hphase _ => exact h.withPhase (fun _ => h.usable (.inr ⟨_, hphase⟩)) fun _ _ => h.front _ hphase
  | delivered _ hphase _ _ => exact ⟨h.listing, Nat.zero_le _, fun _ => hpositive, fun _ _ => h.front _ hphase⟩
  | broke _ hphase _ _ =>
    have hbelow := h.usable (.inr ⟨_, hphase⟩)
    refine ⟨h.listing, hbelow, ?_, ?_⟩
    · simp only [Turn.reader, answerBroken, breakOff]
      split
      · simp
      · next hlimit =>
        intro _
        exact Nat.lt_of_lt_of_le (Nat.lt_of_not_le hlimit) (Nat.le_max_left ..)
    · exact fun body hphase => absurd hphase (r.answerBroken_not_streaming b _ _ body)
  | advanced =>
    refine ⟨h.listing, Nat.zero_le _, fun _ => hpositive, ?_⟩
    exact fun body hphase => absurd hphase (r.advance_not_streaming body)

theorem path {steps : List (Step σ β)} (hpath : Path b r steps r')
    (h : Tallied b.policy.maxTransferFailures chunks r) : Tallied b.policy.maxTransferFailures chunks r' := by
  induction hpath with
  | nil => exact h
  | turn hacts _ ih => exact ih (h.acts hacts)
  | close _ ih => exact ih h.close

end Tallied

/-! ### After a failure -/

/-- A reader that has to open its front slice resolves the chunk of it at once, and fails with it if it is refused. -/
private theorem Acts.of_front (h : Acts b max r world notes turn) {slice : ChunkSlice} {rest : List ChunkSlice}
    {c : Chunk} (hphase : r.phase = .needNextChunk) (hlive : b.isClosed world = false)
    (hpending : r.pending = slice :: rest) (hchunk : r.chunks[slice.index]? = some c) :
    (∃ answer later, notes = .resolved c.remoteRef answer :: later ∧
      Backend.Attempts c.remoteRef (r.rest slice) notes) ∧
    ∀ failure world', b.openChunk c (r.rest slice) world = (.done (.error failure), world') →
      turn = .answered (.error failure) { r with phase := .failed slice.index } world' := by
  cases h with
  | closing hclosed => simp [hlive] at hclosed
  | exhausted h | closed _ h | failed _ h | readAbandoned _ h | idled _ h | delivered _ h | broke _ h
  | advanced _ h => simp [hphase] at h
  | noSlice _ _ hnil => simp [hpending] at hnil
  | noChunk _ _ hcons hnone =>
    rw [hpending] at hcons
    cases hcons
    rw [hchunk] at hnone
    cases hnone
  | openAbandoned _ _ hcons hchunk' hopen hnotes | opened _ _ hcons hchunk' hopen hnotes =>
    rw [hpending] at hcons
    cases hcons
    obtain rfl := Option.some.inj (hchunk.symm.trans hchunk')
    refine ⟨⟨_, _, rfl, hnotes⟩, ?_⟩
    intro failure world' hrefused
    rw [hopen] at hrefused
    cases hrefused
  | refused _ _ hcons hchunk' hopen hnotes =>
    rw [hpending] at hcons
    cases hcons
    obtain rfl := Option.some.inj (hchunk.symm.trans hchunk')
    refine ⟨⟨_, _, rfl, hnotes⟩, ?_⟩
    intro failure world' hrefused
    rw [hopen] at hrefused
    cases hrefused
    rfl

private theorem opening_of_steps {slice : ChunkSlice} {rest : List ChunkSlice} {c : Chunk}
    (hphase : r.phase = .needNextChunk) (hpending : r.pending = slice :: rest)
    (hchunk : r.chunks[slice.index]? = some c) (max : Nat) (hlive : b.isClosed world = false) :
    ∃ first answer later, (r.steps b max world).head? = some first ∧
      first.notes = .resolved c.remoteRef answer :: later ∧
      Backend.Attempts c.remoteRef (r.rest slice) first.notes := by
  have hreads := r.reads_steps b max world
  generalize r.steps b max world = steps, r.next b max world = outcome at hreads
  cases hreads with
  | answered hacts | going hacts _ =>
    obtain ⟨⟨answer, later, hnotes, hattempts⟩, -⟩ := hacts.of_front hphase hlive hpending hchunk
    exact ⟨_, answer, later, rfl, hnotes, hattempts⟩

private theorem next_of_failed {index : Nat} (hphase : r.phase = .failed index) (max : Nat)
    (hlive : b.isClosed world = false) : r.next b max world = (.error (.readerFailed index), r, world) :=
  next_of_answered (by simp [turn, hlive, hphase])

/-- What a read comes to, and what it leaves, when the transfer of a slice breaks for the `k`-th time in a row. -/
structure Broken (b : Backend σ β) (slice : ChunkSlice) (c : Chunk) (k : Nat) (fault : TransferFault) (r : Reader β)
    (result : Except Failure (Option Bytes)) (r' : Reader β) : Prop where
  failure : result = .error (.transfer slice.index r'.position k b.policy.maxTransferFailures fault)
  position : r'.position = r.position
  pending : r'.pending = r.pending
  retryable : (∀ failure, result = .error failure → failure.isRetryable = decide (k < b.policy.maxTransferFailures))
  usable : k < b.policy.maxTransferFailures → r'.phase = .needNextChunk
  /-- Below the limit the next read opens what is left of the same chunk. -/
  again : k < b.policy.maxTransferFailures → ∀ max world, b.isClosed world = false →
    ∃ first answer later, (r'.steps b max world).head? = some first ∧
      first.notes = .resolved c.remoteRef answer :: later ∧ Backend.Attempts c.remoteRef (r'.rest slice) first.notes
  /-- At the limit the chunk is given up. -/
  givenUp : b.policy.maxTransferFailures ≤ k → r'.phase = .failed slice.index ∧
    ∀ max world, b.isClosed world = false → r'.next b max world = (.error (.readerFailed slice.index), r', world)

private theorem broken_of_answerBroken {slice : ChunkSlice} {rest : List ChunkSlice} {c : Chunk} {fault : TransferFault}
    {result : Except Failure (Option Bytes)} {world' world'' : σ} (hpending : r.pending = slice :: rest)
    (hchunk : r.chunks[slice.index]? = some c)
    (h : .answered result r' world' = r.answerBroken b fault world'') :
    Broken b slice c r'.failures fault r result r' := by
  simp only [answerBroken, breakOff, Turn.answered.injEq, frontIndex, hpending, List.head?_cons, Option.map_some,
    Option.getD_some] at h
  obtain ⟨rfl, rfl, -⟩ := h
  refine ⟨rfl, rfl, by simp [hpending], ?_, ?_, ?_, ?_⟩
  · rintro failure ⟨⟩
    rfl
  · intro hlimit
    exact if_neg (Nat.not_le.2 hlimit)
  · intro hlimit max world hlive
    apply opening_of_steps
    · exact if_neg (Nat.not_le.2 hlimit)
    · rfl
    · exact hchunk
    · exact hlive
  · intro hlimit
    have hphase : (if b.policy.maxTransferFailures ≤ r.failures + 1 then Phase.failed slice.index else .needNextChunk) =
        (.failed slice.index : Phase β) := if_pos hlimit
    exact ⟨hphase, fun max world hlive => next_of_failed hphase max hlive⟩

variable {steps : List (Step σ β)} {outcome : Except Failure (Option Bytes) × Reader β × σ}

/-- Only the last step of a read breaks. -/
private theorem Reads.of_fault (h : Reads b max r world steps outcome) {step : Step σ β} (hstep : step ∈ steps)
    {fault : TransferFault} (hfault : step.fault? = some fault) :
    ∃ body world', step.reader.phase = .streaming body ∧
      .answered outcome.1 outcome.2.1 outcome.2.2 = step.reader.answerBroken b fault world' := by
  induction h with
  | answered hacts =>
    obtain rfl := List.mem_singleton.1 hstep
    exact hacts.of_fault hfault
  | going hacts hreads ih =>
    rcases List.mem_cons.1 hstep with rfl | hstep
    · obtain ⟨body, world', -, hturn⟩ := hacts.of_fault hfault
      cases hturn
    · exact ih hstep

/-- A read whose front chunk is refused fails with the refusal. -/
private theorem Reads.of_refusal (h : Reads b max r world steps outcome) {step : Step σ β} (hstep : step ∈ steps)
    {slice : ChunkSlice} {rest : List ChunkSlice} {c : Chunk} {failure : Failure} {world' : σ}
    (hphase : step.reader.phase = .needNextChunk) (hlive : b.isClosed step.world = false)
    (hpending : step.reader.pending = slice :: rest) (hchunk : step.reader.chunks[slice.index]? = some c)
    (hopen : b.openChunk c (step.reader.rest slice) step.world = (.done (.error failure), world')) :
    outcome = (.error failure, { step.reader with phase := .failed slice.index }, world') := by
  induction h with
  | answered hacts =>
    obtain rfl := List.mem_singleton.1 hstep
    cases (hacts.of_front hphase hlive hpending hchunk).2 failure world' hopen
    rfl
  | going hacts hreads ih =>
    rcases List.mem_cons.1 hstep with rfl | hstep
    · cases (hacts.of_front hphase hlive hpending hchunk).2 failure world' hopen
    · exact ih hstep

end Reader

/-! ### Readers of ranges -/

/-- A reader of a range counts the transfers that break in a row, since it was made, since the last byte or since the
last chunk that was finished.  The `k`-th of them is told as such, leaves the reader where it is, and can be retried,
with the same chunk, as long as `k` is below the limit; then the chunk is given up, as it is at once when it cannot be
opened.  Broken transfers are told of nothing else, and without progress there are only as many as the limit allows. -/
theorem ChunkedObject.rangeRead_failures {b : Backend σ β} {o : ChunkedObject} {request : RangeRequest} {world₀ : σ}
    {r : Reader β} (hread : o.rangeRead b request world₀ = .ok r) (uses : List (Use σ)) :
    (∀ max world result r' world', (r.after b uses).next b max world = (result, r', world') →
      (∀ step ∈ (r.after b uses).steps b max world, ∀ fault, step.fault? = some fault →
        r'.position = (r.after b uses).position ∧
        ∃ slice rest c, step.reader.pending = slice :: rest ∧ o.chunks[slice.index]? = some c ∧ c.index = slice.index ∧
          Reader.Broken b slice c ((r.history b uses ++ (r.after b uses).steps b max world).foldl Step.tally 0) fault
            step.reader result r') ∧
      (∀ step ∈ (r.after b uses).steps b max world, ∀ slice rest c failure world'',
        step.reader.phase = .needNextChunk → b.isClosed step.world = false → step.reader.pending = slice :: rest →
        o.chunks[slice.index]? = some c →
        b.openChunk c (step.reader.rest slice) step.world = (.done (.error failure), world'') →
        result = .error failure ∧ r' = { step.reader with phase := .failed slice.index }) ∧
      ∀ index offset failures limit fault, result = .error (.transfer index offset failures limit fault) →
        ∃ step ∈ (r.after b uses).steps b max world, ∃ fault', step.fault? = some fault') ∧
    ∀ before still after, r.history b uses = before ++ still ++ after → (∀ step ∈ still, step.progresses = false) →
      still.countP Step.isTransfer ≤ Nat.max b.policy.maxTransferFailures 1 := by
  obtain ⟨wanted, slices, -, rfl, -, -⟩ := slicing_of_rangeRead hread
  have hindices := (Listing.verify_tiles o.verify_chunks).2
  have hfirst : Reader.Tallied b.policy.maxTransferFailures o.chunks (.ofSlices o.chunks slices wanted : Reader β) :=
    .ofSlices _ o.chunks slices wanted
  have hhistory := Reader.history_path (.ofSlices o.chunks slices wanted) b uses
  have hafter := hfirst.path hhistory
  constructor
  · intro max world result r' world' hnext
    have hreads := (Reader.after b uses (.ofSlices o.chunks slices wanted)).reads_steps b max world
    rw [hnext] at hreads
    refine ⟨?_, ?_, ?_⟩
    · intro step hstep fault hfault
      obtain ⟨body, world'', hphase, hanswer⟩ := hreads.of_fault hstep hfault
      -- the invariant holds where the step starts
      obtain ⟨front, back, hsteps⟩ := List.append_of_mem hstep
      have hpath := hreads.path
      rw [hsteps] at hpath
      have hthere := hafter.path hpath.split.1
      obtain ⟨slice, rest, c, hpending, hchunk⟩ := hthere.front body hphase
      have hbroken := Reader.broken_of_answerBroken hpending (by rwa [hthere.listing]) hanswer
      have hcount : r'.failures = _ := (hhistory.append hreads.path).failures_eq
      rw [hcount] at hbroken
      have hposition : r'.position = (Reader.after b uses (.ofSlices o.chunks slices wanted)).position := by
        -- a read that fails hands nothing out
        obtain ⟨hdelivered, hstart, -⟩ := hreads.path.delivered_eq
        rw [hreads.output] at hdelivered
        simp only [show result = _ from hbroken.failure, Except.toOption, Option.getD_none, List.length_nil,
          Nat.add_zero] at hdelivered hstart
        rw [Reader.position, Reader.position, hdelivered, hstart]
      exact ⟨hposition, slice, rest, c, hpending, hchunk, hindices _ _ hchunk, hbroken⟩
    · intro step hstep slice rest c failure world'' hphase hlive hpending hchunk hopen
      obtain ⟨front, back, hsteps⟩ := List.append_of_mem hstep
      have hpath := hreads.path
      rw [hsteps] at hpath
      have hthere := hafter.path hpath.split.1
      cases hreads.of_refusal hstep hphase hlive hpending (by rwa [hthere.listing]) hopen
      exact ⟨rfl, rfl⟩
    · rintro index offset failures limit fault rfl
      obtain ⟨init, last, hsteps, -, hacts, -⟩ := hreads.last
      exact ⟨last, by simp [hsteps], hacts.fault_of_transfer⟩
  · intro before still after hsplit hstill
    rw [hsplit] at hhistory
    obtain ⟨r₁, hbefore, hrest⟩ := Reader.Path.of_append hhistory
    obtain ⟨r₂, hfront, hback⟩ := hbefore.of_append
    -- every broken transfer is counted, and the count stays within the limit
    have hcount := hback.failures_of_still hstill
    have hbounded := (hfirst.path hbefore).bounded
    omega

theorem ChunkedObject.rangeRead_failures_twoChunks :
    let b := Rehearsal.backend 0 ⟨2, .ofSeconds 1, 0⟩
    let r := Rehearsal.middle
    let uses := [.next 2 Rehearsal.broken, .next 2 Rehearsal.broken, .next 2 Rehearsal.broken]
    ∀ before still after, r.history b uses = before ++ still ++ after → (∀ step ∈ still, step.progresses = false) →
      still.countP Step.isTransfer ≤ 1 := by
  intro b r uses
  have hread : Rehearsal.twoChunks.rangeRead b ⟨1, .bytes 3⟩ Rehearsal.broken = .ok r := Rehearsal.rangeRead_middle _
  exact (rangeRead_failures hread uses).2

end ChunkedStorage
