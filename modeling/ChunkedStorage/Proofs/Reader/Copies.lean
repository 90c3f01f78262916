import ChunkedStorage.Proofs.Reader.Delivery
import ChunkedStorage.Proofs.Reader.Failures
import ChunkedStorage.Proofs.Reader.Openings

/-!
# How copies end

A copy goes on after broken transfers, and yet it ends: each opening of a chunk is paid for by a delivered byte, by a
finished slice or by one of the few transfers that may break in between (`Path.openings_le`).  It is all or an error:
either the whole rest of the range is in the sink, or the copy fails and the sink was given a part from its start.
-/

namespace ChunkedStorage

variable {σ β τ : Type}

/-- Whether a step tries to open a chunk. -/
def Step.opensChunk (step : Step σ β) : Bool := step.notes.any Exchange.isOpening

namespace Reader

variable {b : Backend σ β} {r r' : Reader β} {max : Nat} {world : σ} {notes : List Exchange} {turn : Turn β σ}

/-! ### How often chunks are opened -/

/-- How often a reader may still open a chunk: each byte and each slice to come buys as many openings as transfers may
break in a row. -/
def budget (r : Reader β) (limit : Nat) : Nat :=
  match r.phase with
  | .needNextChunk => (r.remaining + r.pending.length) * Nat.max limit 1 + (Nat.max limit 1 - r.failures)
  | .streaming _ => (r.remaining + r.pending.length) * Nat.max limit 1 + (Nat.max limit 1 - 1 - r.failures)
  | _ => 0

theorem budget_le (r : Reader β) (limit : Nat) :
    r.budget limit ≤ (r.remaining + r.pending.length + 1) * (Nat.max limit 1 + 1) := by
  have hmono : (r.remaining + r.pending.length + 1) * Nat.max limit 1 ≤
      (r.remaining + r.pending.length + 1) * (Nat.max limit 1 + 1) := Nat.mul_le_mul_left _ (Nat.le_succ _)
  rw [Nat.succ_mul] at hmono
  unfold budget
  split <;> omega

private theorem budget_of_needNextChunk (limit : Nat) (hphase : r.phase = .needNextChunk) :
    r.budget limit = (r.remaining + r.pending.length) * Nat.max limit 1 + (Nat.max limit 1 - r.failures) := by
  simp only [budget, hphase]

private theorem budget_of_streaming (limit : Nat) {body : β} (hphase : r.phase = .streaming body) :
    r.budget limit = (r.remaining + r.pending.length) * Nat.max limit 1 + (Nat.max limit 1 - 1 - r.failures) := by
  simp only [budget, hphase]

private theorem budget_of_still (limit : Nat) (hphase : r.phase ≠ .needNextChunk)
    (hstreaming : ∀ body, r.phase ≠ .streaming body) : r.budget limit = 0 := by
  unfold budget
  split
  · next h => exact absurd h hphase
  · next body h => exact absurd h (hstreaming body)
  · rfl

private theorem opensChunk_closeNotes (r r' : Reader β) (world : σ)
    (answer? : Option (Except Failure (Option Bytes))) :
    (⟨r, world, r'.closeNotes, answer?⟩ : Step σ β).opensChunk = false := by
  simp only [Step.opensChunk, closeNotes]
  split <;> simp [Exchange.isOpening]

variable {chunks : List Chunk} {slices : List ChunkSlice} {wanted : Span} {room : β → Nat → Prop} {sound : σ → Prop}

/-- A step that opens a chunk is paid for. -/
theorem Acts.openings_le (hslicing : Slicing chunks wanted slices) (hacts : Acts b max r world notes turn)
    (htallied : Tallied b.policy.maxTransferFailures chunks r)
    (hplaced : Placed chunks slices wanted room turn.reader) :
    (if (⟨r, world, notes, turn.answer?⟩ : Step σ β).opensChunk then 1 else 0) +
      turn.reader.budget b.policy.maxTransferFailures ≤ r.budget b.policy.maxTransferFailures := by
  -- a reader that is of use has fewer broken transfers behind it than the limit allows
  have husable := htallied.usable
  cases hacts with
  | closing =>
    rw [opensChunk_closeNotes, budget_of_still _ (by simp [Turn.reader]) (by simp [Turn.reader])]
    simp
  | exhausted | closed | failed | noChunk => simp [Step.opensChunk, Turn.reader]
  | noSlice | readAbandoned =>
    rw [budget_of_still _ (by simp [Turn.reader]) (by simp [Turn.reader])]
    simp [Step.opensChunk, Exchange.isOpening]
  | openAbandoned _ hphase | refused _ hphase =>
    have hbelow := husable (.inl hphase)
    rw [budget_of_still _ (by simp [Turn.reader]) (by simp [Turn.reader]), budget_of_needNextChunk _ hphase]
    split <;> omega
  | opened _ hphase =>
    have hbelow := husable (.inl hphase)
    rw [budget_of_streaming _ (by rfl), budget_of_needNextChunk _ hphase]
    simp only [Turn.reader, remaining]
    split <;> omega
  | idled _ hphase =>
    rw [budget_of_streaming _ (by rfl), budget_of_streaming _ hphase]
    simp [Step.opensChunk, Exchange.isOpening, Turn.reader, remaining]
  | @delivered body body' _ piece _ hphase _ hpiece =>
    have hbelow := husable (.inr ⟨_, hphase⟩)
    have hpositive := List.length_pos_iff.2 hpiece
    have hdelivered := hplaced.delivered_le hslicing
    have hrequested := hplaced.requested
    simp only [Turn.reader, accept] at hdelivered hrequested
    -- the byte buys the transfers that may break again
    have hbyte : (r.requested - (r.delivered + piece.length) + r.pending.length + 1) *
        Nat.max b.policy.maxTransferFailures 1 ≤
        (r.requested - r.delivered + r.pending.length) * Nat.max b.policy.maxTransferFailures 1 :=
      Nat.mul_le_mul_right _ (by omega)
    rw [Nat.succ_mul] at hbyte
    rw [budget_of_streaming _ (by rfl), budget_of_streaming _ hphase]
    simp only [Step.opensChunk, Exchange.isOpening, Turn.reader, accept, remaining, List.any_cons, List.any_nil,
      Bool.or_false, Bool.false_eq_true, if_false]
    omega
  | @broke _ _ _ _ fault _ hphase =>
    have hbelow := husable (.inr ⟨_, hphase⟩)
    rw [budget_of_streaming _ hphase]
    by_cases hlimit : b.policy.maxTransferFailures ≤ r.failures + 1
    · rw [budget_of_still]
      · simp [Step.opensChunk, Exchange.isOpening]
      · simp [answerBroken, breakOff, Turn.reader, hlimit]
      · simp [answerBroken, breakOff, Turn.reader, hlimit]
    · rw [budget_of_needNextChunk _ (by simp [answerBroken, breakOff, Turn.reader, hlimit])]
      simp only [Step.opensChunk, Exchange.isOpening, answerBroken, breakOff, Turn.reader, remaining, List.any_cons,
        List.any_nil, Bool.or_false, Bool.false_eq_true, if_false]
      omega
  | advanced _ hphase =>
    have hbelow := husable (.inr ⟨_, hphase⟩)
    obtain ⟨slice, rest, c, hpending, -⟩ := htallied.front _ hphase
    rw [budget_of_streaming _ hphase, hpending]
    rw [show (Turn.going r.advance _ : Turn β σ).reader = r.advance from rfl]
    by_cases hend : r.advance.phase = .needNextChunk
    · -- the slice buys the opening of the next one
      rw [budget_of_needNextChunk _ hend]
      have hslice : (r.requested - r.delivered + (rest.length + 1)) * Nat.max b.policy.maxTransferFailures 1 =
          (r.requested - r.delivered + rest.length) * Nat.max b.policy.maxTransferFailures 1 +
            Nat.max b.policy.maxTransferFailures 1 := Nat.succ_mul _ _
      simp only [Step.opensChunk, Exchange.isOpening, advance, remaining, hpending, List.any_cons, List.any_nil,
        Bool.or_false, Bool.false_eq_true, if_false, List.tail_cons, List.length_cons]
      omega
    · rw [budget_of_still _ hend r.advance_not_streaming]
      simp [Step.opensChunk, Exchange.isOpening]

/-- So are all openings along a path. -/
theorem Path.openings_le (hb : b.Bounded sound room) (hslicing : Slicing chunks wanted slices)
    {steps : List (Step σ β)} (hpath : Path b r steps r') (hsound : ∀ step ∈ steps, sound step.world)
    (htallied : Tallied b.policy.maxTransferFailures chunks r) (hplaced : Placed chunks slices wanted room r) :
    steps.countP Step.opensChunk + r'.budget b.policy.maxTransferFailures ≤ r.budget b.policy.maxTransferFailures := by
  induction hpath with
  | nil => simp
  | turn hacts _ ih =>
    obtain ⟨hworld, hsteps⟩ := List.forall_mem_cons.1 hsound
    have hplaced' := hplaced.acts hb hslicing hacts hworld
    have hfirst := hacts.openings_le hslicing htallied hplaced'
    have hrest := ih hsteps (htallied.acts hacts) hplaced'
    rw [List.countP_cons]
    omega
  | @close r _ world _ _ ih =>
    have hrest := ih (List.forall_mem_cons.1 hsound).2 htallied.close hplaced.close
    have hclosed : ({ r with phase := .closed } : Reader β).budget b.policy.maxTransferFailures = 0 := rfl
    rw [List.countP_cons, opensChunk_closeNotes]
    simp only [Bool.false_eq_true, if_false]
    omega

/-! ### Reads that go on -/

/-- Reads one after another, as long as their failures can be retried: their steps, and what the last one comes to. -/
inductive Retries (b : Backend σ β) (max : Nat) :
    Reader β → σ → List (Step σ β) → Except Failure (Option Bytes) × Reader β × σ → Prop where
  | done {r r' : Reader β} {world world' : σ} {result : Except Failure (Option Bytes)}
      (hnext : r.next b max world = (result, r', world'))
      (hdone : ∀ failure, result = .error failure → failure.isRetryable = false) :
      Retries b max r world (r.steps b max world) (result, r', world')
  | again {r r' : Reader β} {world world' : σ} {failure : Failure} {steps : List (Step σ β)}
      {outcome : Except Failure (Option Bytes) × Reader β × σ}
      (hnext : r.next b max world = (.error failure, r', world')) (hretryable : failure.isRetryable = true)
      (hretries : Retries b max r' world' steps outcome) :
      Retries b max r world (r.steps b max world ++ steps) outcome

theorem retries_nextRetrying (r : Reader β) (b : Backend σ β) (max : Nat) (world : σ) :
    ∃ steps, Retries b max r world steps (r.nextRetrying b max world) := by
  fun_induction nextRetrying r b max world with
  | case1 r world failure r' world' hnext hretryable ih =>
    obtain ⟨steps, hretries⟩ := ih
    exact ⟨_, .again hnext hretryable hretries⟩
  | case2 r world failure r' world' hnext hfatal =>
    refine ⟨_, .done hnext ?_⟩
    rintro failure' ⟨⟩
    simpa using hfatal
  | case3 r world piece? r' world' hnext => exact ⟨_, .done hnext (by simp)⟩

namespace Retries

variable {steps : List (Step σ β)} {outcome : Except Failure (Option Bytes) × Reader β × σ}

private theorem path_of_next {r r' : Reader β} {max : Nat} {world world' : σ} {result : Except Failure (Option Bytes)}
    (hnext : r.next b max world = (result, r', world')) :
    Path b r (r.steps b max world) r' ∧
      (r.steps b max world).flatMap Step.output = ((result.toOption).getD none).getD [] := by
  have hreads := r.reads_steps b max world
  rw [hnext] at hreads
  exact ⟨hreads.path, hreads.output⟩

theorem path (h : Retries b max r world steps outcome) : Path b r steps outcome.2.1 := by
  induction h with
  | done hnext => exact (path_of_next hnext).1
  | again hnext _ _ ih => exact (path_of_next hnext).1.append ih

/-- Only the last read hands anything out. -/
theorem output (h : Retries b max r world steps outcome) :
    steps.flatMap Step.output = ((outcome.1.toOption).getD none).getD [] := by
  induction h with
  | done hnext => exact (path_of_next hnext).2
  | again hnext _ _ ih =>
    rw [List.flatMap_append, (path_of_next hnext).2, ih]
    rfl

/-- What retried reads come to is what one read comes to, and no failure that can be retried. -/
theorem last (h : Retries b max r world steps outcome) :
    (∃ r₁ world₁, (r₁ : Reader β).next b max world₁ = outcome) ∧
      ∀ failure, outcome.1 = .error failure → failure.isRetryable = false := by
  induction h with
  | done hnext hdone => exact ⟨⟨_, _, hnext⟩, hdone⟩
  | again _ _ _ ih => exact ih

theorem worlds (hb : b.Keeps sound) (h : Retries b max r world steps outcome) (hsound : sound world) :
    (∀ step ∈ steps, sound step.world) ∧ sound outcome.2.2 := by
  induction h with
  | @done r _ world _ _ hnext => exact ⟨hb.reads (r.reads_steps b max world) hsound, hb.next hnext hsound⟩
  | @again r _ world _ _ _ _ hnext _ _ ih =>
    obtain ⟨hsteps, hend⟩ := ih (hb.next hnext hsound)
    exact ⟨List.forall_mem_append.2 ⟨hb.reads (r.reads_steps b max world) hsound, hsteps⟩, hend⟩

end Retries

/-! ### Pieces one after another -/

/-- Pieces that are read one after another, and what the read after them comes to. -/
inductive Pulls (b : Backend σ β) :
    Reader β → σ → List (Step σ β) → List Bytes → Except Failure (Option Bytes) × Reader β × σ → Prop where
  | last {r : Reader β} {world : σ} {steps : List (Step σ β)} {outcome : Except Failure (Option Bytes) × Reader β × σ}
      (hread : Retries b readSize r world steps outcome) : Pulls b r world steps [] outcome
  | piece {r r' : Reader β} {world world' : σ} {steps more : List (Step σ β)} {piece : Bytes} {pieces : List Bytes}
      {outcome : Except Failure (Option Bytes) × Reader β × σ}
      (hread : Retries b readSize r world steps (.ok (some piece), r', world'))
      (hpulls : Pulls b r' world' more pieces outcome) : Pulls b r world (steps ++ more) (piece :: pieces) outcome

namespace Pulls

variable {steps : List (Step σ β)} {pieces : List Bytes} {outcome : Except Failure (Option Bytes) × Reader β × σ}

theorem path (h : Pulls b r world steps pieces outcome) : Path b r steps outcome.2.1 := by
  induction h with
  | last hread => exact hread.path
  | piece hread _ ih => exact hread.path.append ih

theorem output (h : Pulls b r world steps pieces outcome) :
    steps.flatMap Step.output = pieces.flatten ++ ((outcome.1.toOption).getD none).getD [] := by
  induction h with
  | last hread => simpa using hread.output
  | piece hread _ ih => simp [hread.output, ih, Except.toOption]

theorem worlds (hb : b.Keeps sound) (h : Pulls b r world steps pieces outcome) (hsound : sound world) :
    (∀ step ∈ steps, sound step.world) ∧ sound outcome.2.2 := by
  induction h with
  | last hread => exact hread.worlds hb hsound
  | piece hread _ ih =>
    obtain ⟨hsteps, hend⟩ := hread.worlds hb hsound
    obtain ⟨hmore, hlast⟩ := ih hend
    exact ⟨List.forall_mem_append.2 ⟨hsteps, hmore⟩, hlast⟩

theorem outcome_of_last (h : Pulls b r world steps pieces outcome) :
    (∃ r₁ world₁, (r₁ : Reader β).next b readSize world₁ = outcome) ∧
      ∀ failure, outcome.1 = .error failure → failure.isRetryable = false := by
  induction h with
  | last hread => exact hread.last
  | piece _ _ ih => exact ih

end Pulls

end Reader

/-- Writes pieces one after another. -/
def Sink.writeAll (sink : Sink τ) : List Bytes → τ → Except IoFault Unit × τ
  | [], target => (.ok (), target)
  | piece :: pieces, target =>
    match sink.write piece target with
    | (.error fault, target) => (.error fault, target)
    | (.ok (), target) => sink.writeAll pieces target

namespace Reader

variable {b : Backend σ β} {r r' : Reader β} {max : Nat} {world world' : σ} {sink : Sink τ} {target : τ}

/-! ### Copies and lists of pieces -/

/-- A copy writes the pieces that it reads, after `written` bytes before them, until one of them is the last to be read
or to be written: its steps, the pieces that the sink is given, and what the copy comes to. -/
inductive Copies (b : Backend σ β) (sink : Sink τ) (written : Nat) (r : Reader β) (world : σ) (target : τ) :
    List (Step σ β) → List Bytes → Except Failure Nat × Reader β × σ × τ → Prop where
  | ended {r' : Reader β} {world' : σ} {target₁ target' : τ} {steps : List (Step σ β)} {pieces : List Bytes}
      (hpulls : Pulls b r world steps pieces (.ok none, r', world'))
      (hwrite : sink.writeAll pieces target = (.ok (), target₁)) (hflush : sink.flush target₁ = (.ok (), target')) :
      Copies b sink written r world target steps pieces (.ok (written + pieces.flatten.length), r', world', target')
  | unflushed {r' : Reader β} {world' : σ} {target₁ target' : τ} {fault : IoFault} {steps : List (Step σ β)}
      {pieces : List Bytes} (hpulls : Pulls b r world steps pieces (.ok none, r', world'))
      (hwrite : sink.writeAll pieces target = (.ok (), target₁))
      (hflush : sink.flush target₁ = (.error fault, target')) :
      Copies b sink written r world target steps pieces (.error (.output fault), r', world', target')
  | failed {r' : Reader β} {world' : σ} {target' : τ} {failure : Failure} {steps : List (Step σ β)}
      {pieces : List Bytes} (hpulls : Pulls b r world steps pieces (.error failure, r', world'))
      (hwrite : sink.writeAll pieces target = (.ok (), target')) :
      Copies b sink written r world target steps pieces (.error failure, r', world', target')
  | refused {r' : Reader β} {world' : σ} {target₁ target' : τ} {piece : Bytes} {fault : IoFault}
      {steps : List (Step σ β)} {pieces : List Bytes}
      (hpulls : Pulls b r world steps pieces (.ok (some piece), r', world'))
      (hwrite : sink.writeAll pieces target = (.ok (), target₁))
      (hrefused : sink.write piece target₁ = (.error fault, target')) :
      Copies b sink written r world target steps (pieces ++ [piece]) (.error (.output fault), r', world', target')

/-- The pieces of the rest of a range, up to its end or to the first failure that is not retried. -/
inductive Streams (b : Backend σ β) (r : Reader β) (world : σ) :
    List (Step σ β) → List Bytes × Except Failure Unit × Reader β × σ → Prop where
  | ended {r' : Reader β} {world' : σ} {steps : List (Step σ β)} {pieces : List Bytes}
      (hpulls : Pulls b r world steps pieces (.ok none, r', world')) :
      Streams b r world steps (pieces, .ok (), r', world')
  | failed {r' : Reader β} {world' : σ} {failure : Failure} {steps : List (Step σ β)} {pieces : List Bytes}
      (hpulls : Pulls b r world steps pieces (.error failure, r', world')) :
      Streams b r world steps (pieces, .error failure, r', world')

/-- A copy that writes a piece goes on as a copy. -/
private theorem Copies.piece {written : Nat} {target₁ : τ} {steps more : List (Step σ β)} {piece : Bytes}
    {pieces : List Bytes} {outcome : Except Failure Nat × Reader β × σ × τ}
    (hread : Retries b readSize r world steps (.ok (some piece), r', world'))
    (hwrite : sink.write piece target = (.ok (), target₁))
    (h : Copies b sink (written + piece.length) r' world' target₁ more pieces outcome) :
    Copies b sink written r world target (steps ++ more) (piece :: pieces) outcome := by
  have hwritten {later : List Bytes} {target₂ : τ} (hlater : sink.writeAll later target₁ = (.ok (), target₂)) :
      sink.writeAll (piece :: later) target = (.ok (), target₂) := by
    simp only [Sink.writeAll, hwrite, hlater]
  cases h with
  | ended hpulls hall hflush =>
    rw [Nat.add_assoc, ← List.length_append, ← List.flatten_cons]
    exact .ended (.piece hread hpulls) (hwritten hall) hflush
  | unflushed hpulls hall hflush => exact .unflushed (.piece hread hpulls) (hwritten hall) hflush
  | failed hpulls hall => exact .failed (.piece hread hpulls) (hwritten hall)
  | refused hpulls hall hrefused => exact .refused (.piece hread hpulls) (hwritten hall) hrefused

variable {chunks : List Chunk} {slices : List ChunkSlice} {wanted : Span} {room : β → Nat → Prop} {sound : σ → Prop}

section

variable (hb : b.Bounded sound room) (hslicing : Slicing chunks wanted slices)
include hb hslicing

/-- After a piece there is less to go. -/
private theorem Retries.remaining_lt {steps : List (Step σ β)} {piece : Bytes}
    (h : Retries b max r world steps (.ok (some piece), r', world')) (hsound : sound world)
    (hplaced : Placed chunks slices wanted room r) :
    sound world' ∧ Placed chunks slices wanted room r' ∧ r'.remaining < r.remaining := by
  obtain ⟨hsteps, hsound'⟩ := h.worlds hb.toKeeps hsound
  have hplaced' : Placed chunks slices wanted room r' := hplaced.path hb hslicing h.path hsteps
  refine ⟨hsound', hplaced', ?_⟩
  obtain ⟨r₁, world₁, hnext⟩ := h.last.1
  have hpositive := List.length_pos_iff.2 (piece_ne_nil_of_next hnext)
  have hdelivered : r'.delivered = r.delivered + piece.length := by
    simpa [h.output, Except.toOption] using h.path.delivered_eq.1
  have hle := hplaced'.delivered_le hslicing
  have hwanted := hplaced.requested
  have hwanted' := hplaced'.requested
  simp only [remaining]
  omega

private theorem copies_copyFor (sink : Sink τ) {fuel : Nat} (written : Nat) (target : τ) (hfuel : r.remaining < fuel)
    (hsound : sound world) (hplaced : Placed chunks slices wanted room r) :
    ∃ steps pieces, Copies b sink written r world target steps pieces (copyFor b sink fuel written r world target) := by
  induction fuel generalizing r written world target with
  | zero => omega
  | succ fuel ih =>
    obtain ⟨steps, hread⟩ := r.retries_nextRetrying b readSize world
    unfold copyFor
    rcases hnext : r.nextRetrying b readSize world with ⟨failure | (_ | piece), r', world'⟩
    all_goals rw [hnext] at hread
    · exact ⟨steps, [], .failed (.last hread) rfl⟩
    · simp only [copyFor.finish]
      rcases hflush : sink.flush target with ⟨fault | _, target'⟩
      · exact ⟨steps, [], .unflushed (.last hread) rfl hflush⟩
      · exact ⟨steps, [], .ended (.last hread) rfl hflush⟩
    · rcases hwrite : sink.write piece target with ⟨fault | _, target'⟩
      all_goals simp only [hwrite]
      · exact ⟨steps, [piece], .refused (.last hread) rfl hwrite⟩
      · -- the piece holds a byte at least, and so the fuel lasts
        obtain ⟨hsound', hplaced', hless⟩ := hread.remaining_lt hb hslicing hsound hplaced
        obtain ⟨more, pieces, hcopies⟩ := ih (written + piece.length) target' (by omega) hsound' hplaced'
        exact ⟨steps ++ more, piece :: pieces, hcopies.piece hread hwrite⟩

private theorem streams_collectFor {fuel : Nat} (hfuel : r.remaining < fuel) (hsound : sound world)
    (hplaced : Placed chunks slices wanted room r) : ∃ steps, Streams b r world steps (collectFor b fuel r world) := by
  induction fuel generalizing r world with
  | zero => omega
  | succ fuel ih =>
    obtain ⟨steps, hread⟩ := r.retries_nextRetrying b readSize world
    unfold collectFor
    rcases hnext : r.nextRetrying b readSize world with ⟨failure | (_ | piece), r', world'⟩
    all_goals rw [hnext] at hread
    · exact ⟨steps, .failed (.last hread)⟩
    · exact ⟨steps, .ended (.last hread)⟩
    · obtain ⟨hsound', hplaced', hless⟩ := hread.remaining_lt hb hslicing hsound hplaced
      obtain ⟨more, hstreams⟩ := ih (by omega) hsound' hplaced'
      refine ⟨steps ++ more, ?_⟩
      simp only
      generalize collectFor b fuel r' world' = outcome at hstreams
      cases hstreams with
      | ended hpulls => exact .ended (.piece hread hpulls)
      | failed hpulls => exact .failed (.piece hread hpulls)

end

/-! ### All or an error -/

/-- What becomes of the rest of a range whose pieces are handed out: all of it, or a part from its start and a failure
that cannot be retried, after no more openings of chunks than there are bytes and slices to pay for. -/
structure AllOrError {α : Type} (b : Backend σ β) (chunks : List Chunk) (sound : σ → Prop) (wanted : Span)
    (r : Reader β) (steps : List (Step σ β)) (pieces : List Bytes) (result : Except Failure α) : Prop where
  openings : steps.countP Step.opensChunk ≤
    (r.remaining + r.pending.length + 1) * (Nat.max b.policy.maxTransferFailures 1 + 1)
  whole : ∀ a, result = .ok a → pieces.flatten.length = r.remaining
  fatal : ∀ failure, result = .error failure → failure.isRetryable = false
  content : ∀ {content : Bytes} {object : String → Bytes} {held : β → Bytes → Prop}, b.Serves object sound held →
    (∀ c ∈ chunks, object c.remoteRef = c.span.cut content) →
    pieces.flatten <+: (⟨r.position, wanted.stop⟩ : Span).cut content ∧
      ∀ a, result = .ok a → pieces.flatten = (⟨r.position, wanted.stop⟩ : Span).cut content

section

variable (hb : b.Bounded sound room) (hslicing : Slicing chunks wanted slices)
variable (hsound : sound world) (htallied : Tallied b.policy.maxTransferFailures chunks r)
variable (hplaced : Placed chunks slices wanted room r)
variable (hcarries : ∀ {content : Bytes} {object : String → Bytes} {held : β → Bytes → Prop},
  b.Serves object sound held → (∀ c ∈ chunks, object c.remoteRef = c.span.cut content) → Carries content held r)
include hb hslicing hsound htallied hplaced hcarries

private theorem Pulls.allOrError {α : Type} {steps : List (Step σ β)} {pieces given : List Bytes}
    {last : Except Failure (Option Bytes)} {result : Except Failure α}
    (h : Pulls b r world steps pieces (last, r', world'))
    (hgiven : given.flatten = pieces.flatten ++ ((last.toOption).getD none).getD [])
    (hresult : (∃ a, result = .ok a) ∧ last = .ok none ∨
      ∃ failure, result = .error failure ∧ (last = .error failure ∨ failure.isRetryable = false)) :
    AllOrError b chunks sound wanted r steps given result := by
  have hsteps := (h.worlds hb.toKeeps hsound).1
  have hpath : Path b r steps r' := h.path
  have hplaced' := hplaced.path hb hslicing hpath hsteps
  obtain ⟨⟨r₁, world₁, hnext⟩, hfatal⟩ := h.outcome_of_last
  have houtput : steps.flatMap Step.output = given.flatten := by rw [h.output, hgiven]
  obtain ⟨hdelivered, hstart, hrequested⟩ := hpath.delivered_eq
  rw [houtput] at hdelivered
  have hall : ∀ a, result = .ok a → r'.delivered = r'.requested := by
    rintro a rfl
    rcases hresult with ⟨-, rfl⟩ | ⟨failure, hfailure, -⟩
    · exact hplaced'.whole (phase_of_next_end hnext)
    · cases hfailure
  refine ⟨?_, ?_, ?_, ?_⟩
  · have hpaid := hpath.openings_le hb hslicing hsteps htallied hplaced
    have hbudget := r.budget_le b.policy.maxTransferFailures
    omega
  · intro a hok
    have := hall a hok
    simp only [remaining]
    omega
  · rintro failure rfl
    rcases hresult with ⟨⟨a, hok⟩, -⟩ | ⟨failure', hfailure, hlast | hretryable⟩
    · cases hok
    · cases hfailure
      exact hfatal failure hlast
    · cases hfailure
      exact hretryable
  · intro content object held hserves hobject
    obtain ⟨-, hcut⟩ := (hcarries hserves hobject).path hserves hb hobject hslicing hpath hsteps hplaced
    rw [houtput] at hcut
    have hle := hplaced'.delivered_le hslicing
    have hplace := hplaced.start
    have hwanted := hplaced.requested
    -- an empty range may be reversed
    have hrest : (⟨r.position, wanted.stop⟩ : Span).cut content =
        (⟨r.position, wanted.start + wanted.length⟩ : Span).cut content := by
      simp only [Span.cut, Span.length, position, hplace]
      congr 1
      omega
    rw [hrest]
    constructor
    · have happend := Span.cut_append hpath.position_le
        (show r'.position ≤ wanted.start + wanted.length by rw [position, hstart]; omega) content
      rw [← happend, hcut]
      exact List.prefix_append _ _
    · intro a hok
      have hend : r'.position = wanted.start + wanted.length := by
        have := hall a hok
        rw [position, hstart]
        omega
      rw [hcut, hend]

private theorem Copies.allOrError {written : Nat} {steps : List (Step σ β)} {pieces : List Bytes}
    {outcome : Except Failure Nat × Reader β × σ × τ} (h : Copies b sink written r world target steps pieces outcome) :
    AllOrError b chunks sound wanted r steps pieces outcome.1 := by
  cases h with
  | ended hpulls =>
    exact hpulls.allOrError hb hslicing hsound htallied hplaced hcarries (by simp [Except.toOption])
      (.inl ⟨⟨_, rfl⟩, rfl⟩)
  | unflushed hpulls =>
    exact hpulls.allOrError hb hslicing hsound htallied hplaced hcarries (by simp [Except.toOption])
      (.inr ⟨_, rfl, .inr rfl⟩)
  | failed hpulls =>
    exact hpulls.allOrError hb hslicing hsound htallied hplaced hcarries (by simp [Except.toOption])
      (.inr ⟨_, rfl, .inl rfl⟩)
  | refused hpulls =>
    exact hpulls.allOrError hb hslicing hsound htallied hplaced hcarries (by simp [Except.toOption])
      (.inr ⟨_, rfl, .inr rfl⟩)

private theorem Streams.allOrError {steps : List (Step σ β)} {outcome : List Bytes × Except Failure Unit × Reader β × σ}
    (h : Streams b r world steps outcome) : AllOrError b chunks sound wanted r steps outcome.1 outcome.2.1 := by
  cases h with
  | ended hpulls =>
    exact hpulls.allOrError hb hslicing hsound htallied hplaced hcarries (by simp [Except.toOption])
      (.inl ⟨⟨_, rfl⟩, rfl⟩)
  | failed hpulls =>
    exact hpulls.allOrError hb hslicing hsound htallied hplaced hcarries (by simp [Except.toOption])
      (.inr ⟨_, rfl, .inl rfl⟩)

end

/-- A copy that succeeds counts what it wrote, and has flushed it. -/
private theorem Copies.ok {written n : Nat} {steps : List (Step σ β)} {pieces : List Bytes}
    {outcome : Except Failure Nat × Reader β × σ × τ} (h : Copies b sink written r world target steps pieces outcome)
    (hn : outcome.1 = .ok n) :
    n = written + pieces.flatten.length ∧ ∃ target₁, sink.writeAll pieces target = (.ok (), target₁) ∧
      sink.flush target₁ = (.ok (), outcome.2.2.2) := by
  cases h with
  | ended _ hwrite hflush =>
    cases hn
    exact ⟨rfl, _, hwrite, hflush⟩
  | unflushed | failed | refused => cases hn

end Reader

/-! ### Readers of ranges -/

/-- A copy from a reader of a range ends, whatever the sink does and however the backend fails, as long as bodies give
no more than the span that they were opened for.  With `n` bytes and `s` slices to go and at most `l` transfers that may
break in a row, it opens chunks at most `(n + s + 1) * (l + 1)` times.  It succeeds only with all bytes of the rest of
the range written and flushed, and else fails for good, with a part from the start of the rest given to the sink.  The
same holds of the rest of the range as a row of pieces, which ends with the first failure. -/
theorem ChunkedObject.rangeRead_copyTo {b : Backend σ β} {o : ChunkedObject} {request : RangeRequest} {wanted : Span}
    {world₀ : σ} {r : Reader β} {sound : σ → Prop} {room : β → Nat → Prop} (hb : b.Bounded sound room)
    (hwanted : request.resolve o.totalSize = .ok wanted) (hread : o.rangeRead b request world₀ = .ok r)
    (uses : List (Use σ)) (hsound : ∀ use ∈ uses, sound use.world) {world : σ} (hworld : sound world) :
    (∀ (sink : Sink τ) (target : τ), ∃ steps pieces,
      Reader.Copies b sink 0 (r.after b uses) world target steps pieces ((r.after b uses).copyTo b sink world target) ∧
      Reader.AllOrError b o.chunks sound wanted (r.after b uses) steps pieces
        ((r.after b uses).copyTo b sink world target).1 ∧
      ∀ n, ((r.after b uses).copyTo b sink world target).1 = .ok n → n = (r.after b uses).remaining ∧
        ∃ target₁, sink.writeAll pieces target = (.ok (), target₁) ∧
          sink.flush target₁ = (.ok (), ((r.after b uses).copyTo b sink world target).2.2.2)) ∧
    ∃ steps, Reader.Streams b (r.after b uses) world steps ((r.after b uses).collect b world) ∧
      Reader.AllOrError b o.chunks sound wanted (r.after b uses) steps ((r.after b uses).collect b world).1
        ((r.after b uses).collect b world).2.1 := by
  obtain ⟨wanted', slices, hwanted', rfl, hslicing, -⟩ := slicing_of_rangeRead hread
  obtain rfl : wanted = wanted' := by
    rw [hwanted] at hwanted'
    exact Except.ok.inj hwanted'
  have hsteps := hb.toKeeps.history (.ofSlices o.chunks slices wanted) hsound
  have hpath := Reader.history_path (.ofSlices o.chunks slices wanted) b uses
  have hfirst := Reader.Placed.ofSlices room hslicing
  have hplaced := hfirst.path hb hslicing hpath hsteps
  have htallied := (Reader.Tallied.ofSlices b.policy.maxTransferFailures o.chunks slices wanted).path hpath
  have hcarries {content : Bytes} {object : String → Bytes} {held : β → Bytes → Prop}
      (hserves : b.Serves object sound held) (hobject : ∀ c ∈ o.chunks, object c.remoteRef = c.span.cut content) :
      Reader.Carries content held (Reader.after b uses (.ofSlices o.chunks slices wanted)) :=
    ((Reader.Carries.ofSlices o.chunks slices wanted).path hserves hb hobject hslicing hpath hsteps hfirst).1
  constructor
  · intro sink target
    obtain ⟨steps, pieces, hcopies⟩ :=
      Reader.copies_copyFor hb hslicing sink 0 target (Nat.lt_succ_self _) hworld hplaced
    have hall := hcopies.allOrError hb hslicing hworld htallied hplaced hcarries
    refine ⟨steps, pieces, hcopies, hall, ?_⟩
    intro n hn
    obtain ⟨hcount, hwritten⟩ := hcopies.ok hn
    refine ⟨?_, hwritten⟩
    rw [hcount, Nat.zero_add]
    exact hall.whole n hn
  · obtain ⟨steps, hstreams⟩ := Reader.streams_collectFor hb hslicing (Nat.lt_succ_self _) hworld hplaced
    exact ⟨steps, hstreams, hstreams.allOrError hb hslicing hworld htallied hplaced hcarries⟩

theorem ChunkedObject.rangeRead_copyTo_twoChunks :
    let b := Rehearsal.backend 0 ⟨2, .ofSeconds 1, 3⟩
    let r := Rehearsal.middle
    let r₁ := r.after b [.next 2 Rehearsal.broken]
    let sink := Rehearsal.boundedSink (some 1) false
    ∃ steps pieces,
      Reader.Copies b sink 0 r₁ Rehearsal.broken [] steps pieces (r₁.copyTo b sink Rehearsal.broken []) ∧
      steps.countP Step.opensChunk ≤ 20 ∧ pieces.flatten <+: [30, 40] := by
  intro b r r₁ sink
  have hserves := Rehearsal.backend_serves 0 ⟨2, .ofSeconds 1, 3⟩ Rehearsal.broken.objects
  have hread : Rehearsal.twoChunks.rangeRead b ⟨1, .bytes 3⟩ Rehearsal.broken = .ok r := Rehearsal.rangeRead_middle _
  have hobject : ∀ c ∈ Rehearsal.twoChunks.chunks,
      (Rehearsal.broken.objects.lookup c.remoteRef).getD [] = c.span.cut [10, 20, 30, 40, 50] := by decide
  have hwanted : (⟨1, .bytes 3⟩ : RangeRequest).resolve Rehearsal.twoChunks.totalSize = .ok ⟨1, 4⟩ := by rfl
  obtain ⟨steps, pieces, hcopies, hall, -⟩ := (rangeRead_copyTo hserves.bounded hwanted hread [.next 2 Rehearsal.broken]
    (by simp [Use.world]) (show Rehearsal.broken.objects = _ from rfl)).1 sink []
  -- the first chunk is opened and delivers a byte
  have hnext : r.next b 2 Rehearsal.broken = _ := (Reader.next_of_going rfl).trans (Reader.next_of_answered rfl)
  have hcount : (r₁.remaining + r₁.pending.length + 1) * (Nat.max b.policy.maxTransferFailures 1 + 1) = 20 := by
    simp only [r₁, Reader.after, Reader.afterUse, hnext]
    rfl
  have hplace : r₁.position = 2 := by
    simp only [r₁, Reader.after, Reader.afterUse, hnext]
    rfl
  refine ⟨steps, pieces, hcopies, hcount ▸ hall.openings, ?_⟩
  have hpart := (hall.content hserves hobject).1
  change pieces.flatten <+: (⟨r₁.position, 4⟩ : Span).cut [10, 20, 30, 40, 50] at hpart
  rwa [hplace] at hpart

end ChunkedStorage
