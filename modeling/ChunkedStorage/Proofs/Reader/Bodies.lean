import ChunkedStorage.Proofs.Reader.Serving

/-!
# Bodies that a reader opens

The bodies of a backend can be numbered in the order in which they are opened, which changes nothing else
(`Reader.forget_next`).  A reader opens and closes them by turns, and holds one of them open just while it streams
(`Tidy.uses`).
-/

namespace ChunkedStorage

variable {σ β : Type}

/-! ### Numbered bodies -/

/-- What happens to a numbered body. -/
inductive BodyEvent where
  | opened (number : Nat)
  | closed (number : Nat)
deriving DecidableEq

namespace BodyEvent

def isOpened : BodyEvent → Bool
  | opened _ => true
  | closed _ => false

/-- The number of the next body. -/
def nextNumber (events : List BodyEvent) : Nat := events.countP isOpened

/-- The first `n` bodies are opened and closed by turns. -/
def turns (n : Nat) : List BodyEvent := (List.range n).flatMap fun k => [opened k, closed k]

theorem turns_succ (n : Nat) : turns (n + 1) = turns n ++ [opened n] ++ [closed n] := by
  simp [turns, List.range_succ]

@[simp] theorem nextNumber_turns (n : Nat) : nextNumber (turns n) = n := by
  induction n with
  | zero => rfl
  | succ n ih =>
    unfold nextNumber at ih ⊢
    rw [turns_succ, List.countP_append, List.countP_append, ih]
    rfl

end BodyEvent

namespace Backend

/-- Gives the body that a call opens the next number. -/
def numbered {ε : Type} (events : List BodyEvent) :
    Reply (Except ε β) × σ → Reply (Except ε (β × Nat)) × σ × List BodyEvent
  | (.done (.ok body), world) =>
    (.done (.ok (body, BodyEvent.nextNumber events)), world, events ++ [.opened (BodyEvent.nextNumber events)])
  | (.done (.error fault), world) => (.done (.error fault), world, events)
  | (.abandoned, world) => (.abandoned, world, events)

/-- The same backend, with its bodies numbered; what happens to them is kept behind the world. -/
def numbering (b : Backend σ β) : Backend (σ × List BodyEvent) (β × Nat) where
  isClosed := fun w => b.isClosed w.1
  now := fun w => b.now w.1
  pause := fun d w => (b.pause d w.1, w.2)
  count := fun counter n w => (b.count counter n w.1, w.2)
  policy := b.policy
  resolve := fun ref w =>
    let (answer, world) := b.resolve ref w.1
    (answer, world, w.2)
  openBody := fun location s w => numbered w.2 (b.openBody location s w.1)
  readBody := fun body max w =>
    let (answer, body', world) := b.readBody body.1 max w.1
    (answer, (body', body.2), world, w.2)
  closeBody := fun body w => (b.closeBody body.1 w.1, w.2 ++ [.closed body.2])
  idle := fun body w => b.idle body.1 w.1
  idle_readBody := by
    intro body max w body' w' h
    simp only [Prod.mk.injEq] at h
    obtain ⟨hanswer, hbody, hworld⟩ := h
    subst hbody hworld
    exact b.idle_readBody (by rw [← hanswer])

variable (b : Backend σ β)

private theorem attempt_numbering (ref : String) (s : Span) (world : σ) (events : List BodyEvent) :
    b.numbering.attempt ref s (world, events) = numbered events (b.attempt ref s world) := by
  rcases hresolve : b.resolve ref world with ⟨(cause | (_ | location)) | _, world₁⟩
  · simp [attempt, numbering, hresolve, numbered]
  · simp [attempt, numbering, hresolve, numbered]
  · cases hexpired : location.isExpiredAt (b.now world₁) with
    | true => simp [attempt, numbering, hresolve, hexpired, numbered]
    | false =>
      rcases hopen : b.openBody location s world₁ with ⟨(fault | body) | _, world₂⟩ <;>
        simp [attempt, numbering, hresolve, hexpired, hopen, numbered]
  · simp [attempt, numbering, hresolve, numbered]

private theorem openFrom_numbering (c : Chunk) (s : Span) (retries made : Nat) (world : σ)
    (events : List BodyEvent) :
    b.numbering.openFrom c s retries made (world, events) = numbered events (b.openFrom c s retries made world) := by
  induction retries generalizing made world with
  | zero =>
    unfold openFrom
    rw [attempt_numbering]
    rcases b.attempt c.remoteRef s world with ⟨((cause | _ | fault) | body) | _, world₁⟩ <;> rfl
  | succ retries ih =>
    unfold openFrom
    rw [attempt_numbering]
    rcases b.attempt c.remoteRef s world with ⟨((cause | _ | fault) | body) | _, world₁⟩
    case done.error.resolution | done.error.opening => exact ih (made + 1) _
    all_goals rfl

/-- Numbering changes nothing else about the opening of a chunk. -/
theorem openChunk_numbering (c : Chunk) (s : Span) (world : σ) (events : List BodyEvent) :
    b.numbering.openChunk c s (world, events) = numbered events (b.openChunk c s world) :=
  b.openFrom_numbering c s b.policy.retries 0 world events

/-- A chunk is opened with the next number, or there is no new body. -/
theorem events_of_openChunk {b : Backend σ β} {c : Chunk} {s : Span} {answer : Reply (Except Failure (β × Nat))}
    {w w' : σ × List BodyEvent} (hopen : b.numbering.openChunk c s w = (answer, w')) :
    (∀ body, answer = .done (.ok body) → body.2 = BodyEvent.nextNumber w.2 ∧ w'.2 = w.2 ++ [.opened body.2]) ∧
      ((∀ body, answer ≠ .done (.ok body)) → w'.2 = w.2) := by
  rw [b.openChunk_numbering c s w.1 w.2] at hopen
  rcases hanswer : b.openChunk c s w.1 with ⟨(failure | body) | _, world'⟩
  all_goals
    rw [hanswer] at hopen
    cases hopen
  · exact ⟨by simp, fun _ => rfl⟩
  · refine ⟨?_, fun h => absurd rfl (h _)⟩
    rintro body' ⟨⟩
    exact ⟨rfl, rfl⟩
  · exact ⟨by simp, fun _ => rfl⟩

end Backend

/-- The same call, with what has happened to the bodies behind its world. -/
def Use.behind (events : List BodyEvent) : Use σ → Use (σ × List BodyEvent)
  | .next max world => .next max (world, events)
  | .read size world => .read size (world, events)
  | .close world => .close (world, events)

namespace Reader

/-! ### Numbering changes nothing else -/

def Phase.forget : Phase (β × Nat) → Phase β
  | .needNextChunk => .needNextChunk
  | .streaming body => .streaming body.1
  | .exhausted => .exhausted
  | .failed index => .failed index
  | .closed => .closed

/-- The reader without the number of its body. -/
def forget (r : Reader (β × Nat)) : Reader β where
  chunks := r.chunks
  pending := r.pending
  phase := Phase.forget r.phase
  start := r.start
  requested := r.requested
  delivered := r.delivered
  sliceDelivered := r.sliceDelivered
  failures := r.failures

def Turn.forget : Turn (β × Nat) (σ × List BodyEvent) → Turn β σ
  | .answered result r w => .answered result r.forget w.1
  | .going r w => .going r.forget w.1

variable (r : Reader (β × Nat)) (b : Backend σ β)

private theorem forget_close (world : σ) (events : List BodyEvent) :
    ((r.close b.numbering (world, events)).1.forget, (r.close b.numbering (world, events)).2.1) =
      r.forget.close b world := by
  unfold close forget
  cases r.phase <;> rfl

private theorem forget_openFront (world : σ) (events : List BodyEvent) (hphase : r.phase = .needNextChunk) :
    Turn.forget (r.openFront b.numbering (world, events)) = r.forget.openFront b world := by
  have hsame : r.forget.pending = r.pending ∧ r.forget.chunks = r.chunks := ⟨rfl, rfl⟩
  unfold openFront
  rw [hsame.1, hsame.2]
  cases hpending : r.pending with
  | nil => simp [Turn.forget, forget, Phase.forget, hpending]
  | cons slice rest =>
    cases hchunk : r.chunks[slice.index]? with
    | none => simp [Turn.forget, hchunk]
    | some c =>
      simp only [hchunk, b.openChunk_numbering, show r.forget.rest slice = r.rest slice from rfl]
      rcases b.openChunk c (r.rest slice) world with ⟨(failure | body) | _, world'⟩
      · simp [Backend.numbered, Turn.forget, forget, Phase.forget, hpending]
      · simp [Backend.numbered, Turn.forget, forget, Phase.forget, hpending]
      · simp [Backend.numbered, Turn.forget, answerClosed, close, forget, Phase.forget, hpending, hphase]

private theorem forget_answerBroken (fault : TransferFault) (world : σ) (events : List BodyEvent) :
    Turn.forget (r.answerBroken b.numbering fault (world, events)) = r.forget.answerBroken b fault world := by
  have hphase : Phase.forget (r.breakOff b.policy.maxTransferFailures fault).2.phase =
      (r.forget.breakOff b.policy.maxTransferFailures fault).2.phase := by
    have hindex : r.forget.frontIndex = r.frontIndex := rfl
    have hfailures : r.forget.failures = r.failures := rfl
    simp only [breakOff, hindex, hfailures]
    split <;> rfl
  simp only [answerBroken, Turn.forget, Turn.answered.injEq]
  exact ⟨rfl, by simp only [forget]; rw [show b.numbering.policy = b.policy from rfl, hphase]; rfl, rfl⟩

private theorem forget_advance : r.advance.forget = r.forget.advance := by
  have hphase : Phase.forget r.advance.phase = r.forget.advance.phase := by
    have hpending : r.forget.pending = r.pending := rfl
    have hdelivered : r.forget.delivered = r.delivered := rfl
    have hrequested : r.forget.requested = r.requested := rfl
    simp only [advance, hpending, hdelivered, hrequested]
    split <;> rfl
  rw [forget, hphase]
  rfl

private theorem forget_readFront (max : Nat) (world : σ) (events : List BodyEvent) (body : β × Nat) :
    Turn.forget (r.readFront b.numbering max body (world, events)) = r.forget.readFront b max body.1 world := by
  rcases hread : b.readBody body.1 (r.demand max) world with ⟨answer, body', world'⟩
  have hnumbering : b.numbering.readBody body (r.demand max) (world, events) =
      (answer, (body', body.2), world', events) := by
    simp [Backend.numbering, hread]
  unfold readFront
  rw [show min r.remaining (Nat.max max 1) = r.demand max from rfl,
    show min r.forget.remaining (Nat.max max 1) = r.demand max from rfl, hread, hnumbering]
  rcases answer with (fault | _ | _ | ⟨first, more⟩) | _
  · exact forget_answerBroken r b fault _ _
  · have hdelivered : r.forget.sliceDelivered = r.sliceDelivered := rfl
    have hlength : r.forget.frontLength = r.frontLength := rfl
    simp only [hdelivered, hlength]
    split
    · exact forget_answerBroken r b _ _ _
    · rw [← forget_advance]
      rfl
  · rfl
  · rfl
  · rfl

/-- Numbering changes nothing else about a step. -/
private theorem forget_turn (max : Nat) (world : σ) (events : List BodyEvent) :
    Turn.forget (r.turn b.numbering max (world, events)) = r.forget.turn b max world := by
  have hexhausted : r.forget.isExhausted = r.isExhausted := by
    simp only [isExhausted, forget]
    cases r.phase <;> rfl
  have hclosed : b.numbering.isClosed (world, events) = b.isClosed world := rfl
  unfold turn
  rw [hexhausted, hclosed]
  split
  · have hclose := forget_close r b world events
    simp only [answerClosed, Turn.forget, ← hclose]
  · have hphase : r.forget.phase = Phase.forget r.phase := rfl
    rw [hphase]
    cases h : r.phase with
    | needNextChunk => exact forget_openFront r b world events h
    | streaming body => exact forget_readFront r b max world events body
    | exhausted | failed | closed => rfl

/-- Numbering changes nothing else about a read. -/
theorem forget_next (max : Nat) (world : σ) (events : List BodyEvent) :
    ((r.next b.numbering max (world, events)).1, (r.next b.numbering max (world, events)).2.1.forget,
      (r.next b.numbering max (world, events)).2.2.1) = r.forget.next b max world := by
  generalize hw : (world, events) = w
  fun_induction next r b.numbering max w generalizing world events with
  | case1 r w result r' w' hturn =>
    subst hw
    have hforget := forget_turn r b max world events
    rw [hturn] at hforget
    exact (next_of_answered hforget.symm).symm
  | case2 r w r' w' hturn ih =>
    subst hw
    have hforget := forget_turn r b max world events
    rw [hturn] at hforget
    rw [next_of_going hforget.symm]
    exact ih w'.1 w'.2 rfl

/-! ### Bodies are opened and closed by turns -/

/-- The bodies of a reader were opened and closed by turns, and the last one is open just while the reader streams. -/
def Tidy (r : Reader (β × Nat)) (events : List BodyEvent) : Prop :=
  match r.phase with
  | .streaming body => events = BodyEvent.turns body.2 ++ [.opened body.2]
  | _ => ∃ n, events = BodyEvent.turns n

namespace Tidy

variable {b : Backend σ β} {r : Reader (β × Nat)} {events : List BodyEvent}

theorem ofSlices (chunks : List Chunk) (slices : List ChunkSlice) (wanted : Span) :
    Tidy (.ofSlices chunks slices wanted : Reader (β × Nat)) [] := by
  unfold Tidy
  split
  · next body hphase => exact absurd hphase (ofSlices_not_streaming chunks slices wanted body)
  · exact ⟨0, rfl⟩

private theorem of_phase (hphase : ∀ body, r.phase ≠ .streaming body) {n : Nat} (h : events = BodyEvent.turns n) :
    Tidy r events := by
  unfold Tidy
  split
  · next body hstreaming => exact absurd hstreaming (hphase body)
  · exact ⟨n, h⟩

private theorem still (h : Tidy r events) (hphase : ∀ body, r.phase ≠ .streaming body) :
    ∃ n, events = BodyEvent.turns n := by
  unfold Tidy at h
  split at h
  · next body hstreaming => exact absurd hstreaming (hphase body)
  · exact h

/-- A reader that holds no body any more, once the one it held is closed. -/
private theorem closing {body body' : β × Nat} {r' : Reader (β × Nat)} (h : Tidy r events)
    (hphase : r.phase = .streaming body) (hbody : body'.2 = body.2) (hphase' : ∀ body, r'.phase ≠ .streaming body) :
    Tidy r' (events ++ [.closed body'.2]) := by
  simp only [Tidy, hphase] at h
  refine of_phase hphase' (n := body.2 + 1) ?_
  rw [BodyEvent.turns_succ, h, hbody]

private theorem close (h : Tidy r events) (world : σ) :
    Tidy (r.close b.numbering (world, events)).1 (r.close b.numbering (world, events)).2.2 := by
  unfold Reader.close
  split
  · next body hphase => exact h.closing hphase rfl (by simp)
  · next hphase =>
    obtain ⟨n, hn⟩ := h.still hphase
    exact of_phase (by simp) hn

variable {max : Nat} {w : σ × List BodyEvent} {notes : List Exchange} {turn : Turn (β × Nat) (σ × List BodyEvent)}

/-- Every step keeps the bodies of a reader tidy. -/
theorem acts (hacts : Acts b.numbering max r w notes turn) (h : Tidy r w.2) : Tidy turn.reader turn.world.2 := by
  have hread {body body' : β × Nat} {answer : Reply Delivery} {w' : σ × List BodyEvent}
      (heq : b.numbering.readBody body (r.demand max) w = (answer, body', w')) : body'.2 = body.2 ∧ w'.2 = w.2 := by
    cases heq
    exact ⟨rfl, rfl⟩
  cases hacts with
  | closing => exact h.close w.1
  | exhausted | closed | failed | noChunk => exact h
  | noSlice _ hphase =>
    obtain ⟨n, hn⟩ := h.still (by simp [hphase])
    exact of_phase (by simp [Turn.reader]) hn
  | openAbandoned _ hphase _ _ hopen | refused _ hphase _ _ hopen =>
    obtain ⟨n, hn⟩ := h.still (by simp [hphase])
    refine of_phase (by simp [Turn.reader]) ((Backend.events_of_openChunk hopen).2 ?_ |>.trans hn)
    simp
  | opened _ hphase _ _ hopen =>
    obtain ⟨n, hn⟩ := h.still (by simp [hphase])
    obtain ⟨hbody, hevents⟩ := (Backend.events_of_openChunk hopen).1 _ rfl
    rw [hn, BodyEvent.nextNumber_turns] at hbody
    simp only [Tidy, Turn.reader, Turn.world, hevents, hbody, hn]
  | readAbandoned _ hphase heq =>
    obtain ⟨hbody, hevents⟩ := hread heq
    rw [← hevents] at h
    exact h.closing hphase hbody (by simp [Turn.reader])
  | idled _ hphase heq | delivered _ hphase heq =>
    obtain ⟨hbody, hevents⟩ := hread heq
    simp only [Tidy, hphase] at h
    simp only [Tidy, Turn.reader, accept, hbody, ← h]
    exact hevents
  | broke _ hphase heq =>
    obtain ⟨hbody, hevents⟩ := hread heq
    rw [← hevents] at h
    exact h.closing hphase hbody (r.answerBroken_not_streaming b.numbering _ _)
  | advanced _ hphase heq =>
    obtain ⟨hbody, hevents⟩ := hread heq
    rw [← hevents] at h
    exact h.closing hphase hbody r.advance_not_streaming

theorem reads {steps : List (Step (σ × List BodyEvent) (β × Nat))}
    {outcome : Except Failure (Option Bytes) × Reader (β × Nat) × σ × List BodyEvent}
    (hreads : Reads b.numbering max r w steps outcome) (h : Tidy r w.2) :
    (∀ step ∈ steps, Tidy step.reader step.world.2) ∧ Tidy outcome.2.1 outcome.2.2.2 := by
  induction hreads with
  | answered hacts => exact ⟨by simpa using h, h.acts hacts⟩
  | going hacts _ ih =>
    obtain ⟨hsteps, hend⟩ := ih (h.acts hacts)
    exact ⟨List.forall_mem_cons.2 ⟨h, hsteps⟩, hend⟩

end Tidy

/-! ### Rows of calls -/

/-- The world after a call. -/
def worldAfter (r : Reader β) (b : Backend σ β) : Use σ → σ
  | .next max world => (r.next b max world).2.2
  | .read size world => (r.read b size world).2.2
  | .close world => (r.close b world).2

/-- A reader with numbered bodies after a row of calls, and what has happened to its bodies. -/
def numberedAfter (b : Backend σ β) :
    List (Use σ) → Reader (β × Nat) → List BodyEvent → Reader (β × Nat) × List BodyEvent
  | [], r, events => (r, events)
  | use :: uses, r, events =>
    numberedAfter b uses (r.afterUse b.numbering (use.behind events))
      (r.worldAfter b.numbering (use.behind events)).2

private theorem forget_afterUse (r : Reader (β × Nat)) (b : Backend σ β) (use : Use σ) (events : List BodyEvent) :
    (r.afterUse b.numbering (use.behind events)).forget = r.forget.afterUse b use := by
  cases use with
  | next max world => exact congrArg (·.2.1) (r.forget_next b max world events)
  | read size world =>
    simp only [Use.behind, afterUse, read]
    split
    · rfl
    · exact congrArg (·.2.1) (r.forget_next b size world events)
  | close world => exact congrArg (·.1) (r.forget_close b world events)

/-- Numbering changes nothing else about a row of calls. -/
theorem forget_numberedAfter (b : Backend σ β) (uses : List (Use σ)) (r : Reader (β × Nat)) (events : List BodyEvent) :
    (numberedAfter b uses r events).1.forget = r.forget.after b uses := by
  induction uses generalizing r events with
  | nil => rfl
  | cons use uses ih => rw [numberedAfter, ih, forget_afterUse, after]

namespace Tidy

variable {b : Backend σ β} {r : Reader (β × Nat)} {events : List BodyEvent}

/-- Bodies are tidy at every step of a call, and after it. -/
theorem use (h : Tidy r events) (use : Use σ) :
    (∀ step ∈ r.stepsOf b.numbering (use.behind events), Tidy step.reader step.world.2) ∧
      Tidy (r.afterUse b.numbering (use.behind events)) (r.worldAfter b.numbering (use.behind events)).2 := by
  cases use with
  | next max world => exact h.reads (r.reads_steps b.numbering max (world, events))
  | read size world =>
    simp only [Use.behind, stepsOf, afterUse, worldAfter, read]
    split
    · exact ⟨by simp, h⟩
    · exact h.reads (r.reads_steps b.numbering size (world, events))
  | close world => exact ⟨by simpa [Use.behind, stepsOf] using h, h.close world⟩

theorem uses (h : Tidy r events) (uses : List (Use σ)) :
    Tidy (numberedAfter b uses r events).1 (numberedAfter b uses r events).2 := by
  induction uses generalizing r events with
  | nil => exact h
  | cons use uses ih => exact ih (h.use use).2

end Tidy

end Reader

end ChunkedStorage
