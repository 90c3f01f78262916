import ChunkedStorage.Proofs.Reader.Exchange

/-!
# What a step of a read can do

A step of a read notes its calls and then answers or goes on.  `Reader.Acts` lists the kinds of steps, one constructor
for each, and `Reader.turn_acts` shows that there are no others; what holds of every step is proved by cases on it.
-/

namespace ChunkedStorage

variable {σ β : Type}

/-! ### What steps come to -/

namespace Turn

/-- The same outcome, with notes behind the world. -/
def noted (notes : List Exchange) : Turn β σ → Turn β (σ × List Exchange)
  | answered result r world => answered result r (world, notes)
  | going r world => going r (world, notes)

def reader : Turn β σ → Reader β
  | answered _ r _ | going r _ => r

def world : Turn β σ → σ
  | answered _ _ world | going _ world => world

def answer? : Turn β σ → Option (Except Failure (Option Bytes))
  | answered result _ _ => some result
  | going _ _ => none

end Turn

namespace Reader

/-- The fault with which the transfer of the front slice breaks at an answer of its body, if it does. An end that comes
before the slice is delivered is a fault. -/
def breakage? (r : Reader β) : Delivery → Option TransferFault
  | .error fault => some fault
  | .ok none => if r.sliceDelivered < r.frontLength then some (.truncated r.sliceDelivered r.frontLength) else none
  | .ok (some _) => none

/-- How many bytes a step asks the open body for. -/
def demand (r : Reader β) (max : Nat) : Nat := min r.remaining (Nat.max max 1)

/-- What the closing of a reader notes. -/
def closeNotes (r : Reader β) : List Exchange :=
  match r.phase with
  | .streaming _ => [.closed]
  | _ => []

@[simp] theorem close_reader (r : Reader β) (b : Backend σ β) (world : σ) :
    (r.close b world).1 = { r with phase := .closed } := by
  unfold close
  split <;> rfl

/-! ### Readers without a body -/

theorem ofSlices_not_streaming (chunks : List Chunk) (slices : List ChunkSlice) (wanted : Span) (body : β) :
    (ofSlices chunks slices wanted : Reader β).phase ≠ .streaming body := by
  simp only [ofSlices]
  split <;> simp

theorem advance_not_streaming (r : Reader β) (body : β) : r.advance.phase ≠ .streaming body := by
  simp only [advance]
  split <;> simp

theorem answerBroken_not_streaming (r : Reader β) (b : Backend σ β) (fault : TransferFault) (world : σ) (body : β) :
    (r.answerBroken b fault world).reader.phase ≠ .streaming body := by
  simp only [answerBroken, breakOff, Turn.reader]
  split <;> simp

/-! ### Kinds of steps -/

/-- The steps of a reader: what they note, and what they come to. -/
inductive Acts (b : Backend σ β) (max : Nat) (r : Reader β) (world : σ) : List Exchange → Turn β σ → Prop where
  /-- The object is closed, and the reader with it. -/
  | closing (hclosed : b.isClosed world = true) (hgoing : r.isExhausted = false) :
      Acts b max r world r.closeNotes (.answered (.error .closed) (r.close b world).1 (r.close b world).2)
  | exhausted (hphase : r.phase = .exhausted) : Acts b max r world [] (.answered (.ok none) r world)
  | closed (hlive : b.isClosed world = false) (hphase : r.phase = .closed) :
      Acts b max r world [] (.answered (.error .closed) r world)
  | failed {index : Nat} (hlive : b.isClosed world = false) (hphase : r.phase = .failed index) :
      Acts b max r world [] (.answered (.error (.readerFailed index)) r world)
  | noSlice (hlive : b.isClosed world = false) (hphase : r.phase = .needNextChunk) (hpending : r.pending = []) :
      Acts b max r world [] (.going { r with phase := .exhausted } world)
  | noChunk {slice : ChunkSlice} {rest : List ChunkSlice}
      (hlive : b.isClosed world = false) (hphase : r.phase = .needNextChunk) (hpending : r.pending = slice :: rest)
      (hchunk : r.chunks[slice.index]? = none) :
      Acts b max r world [] (.answered (.error (.layoutCorrupted (.missingChunk slice.index))) r world)
  /-- The object is closed while the front chunk is opened. -/
  | openAbandoned {slice : ChunkSlice} {rest : List ChunkSlice} {c : Chunk} {world' : σ}
      {answer : Reply (Except Cause (Option AccessLocation))} {later : List Exchange}
      (hlive : b.isClosed world = false) (hphase : r.phase = .needNextChunk) (hpending : r.pending = slice :: rest)
      (hchunk : r.chunks[slice.index]? = some c)
      (hopen : b.openChunk c (r.rest slice) world = (.abandoned, world'))
      (hnotes : Backend.Attempts c.remoteRef (r.rest slice) (.resolved c.remoteRef answer :: later)) :
      Acts b max r world (.resolved c.remoteRef answer :: later)
        (.answered (.error .closed) { r with phase := .closed } world')
  | opened {slice : ChunkSlice} {rest : List ChunkSlice} {c : Chunk} {body : β} {world' : σ}
      {answer : Reply (Except Cause (Option AccessLocation))} {later : List Exchange}
      (hlive : b.isClosed world = false) (hphase : r.phase = .needNextChunk) (hpending : r.pending = slice :: rest)
      (hchunk : r.chunks[slice.index]? = some c)
      (hopen : b.openChunk c (r.rest slice) world = (.done (.ok body), world'))
      (hnotes : Backend.Attempts c.remoteRef (r.rest slice) (.resolved c.remoteRef answer :: later)) :
      Acts b max r world (.resolved c.remoteRef answer :: later) (.going { r with phase := .streaming body } world')
  | refused {slice : ChunkSlice} {rest : List ChunkSlice} {c : Chunk} {failure : Failure} {world' : σ}
      {answer : Reply (Except Cause (Option AccessLocation))} {later : List Exchange}
      (hlive : b.isClosed world = false) (hphase : r.phase = .needNextChunk) (hpending : r.pending = slice :: rest)
      (hchunk : r.chunks[slice.index]? = some c)
      (hopen : b.openChunk c (r.rest slice) world = (.done (.error failure), world'))
      (hnotes : Backend.Attempts c.remoteRef (r.rest slice) (.resolved c.remoteRef answer :: later)) :
      Acts b max r world (.resolved c.remoteRef answer :: later)
        (.answered (.error failure) { r with phase := .failed slice.index } world')
  /-- The object is closed while the front slice is read. -/
  | readAbandoned {body body' : β} {world' : σ}
      (hlive : b.isClosed world = false) (hphase : r.phase = .streaming body)
      (hread : b.readBody body (r.demand max) world = (.abandoned, body', world')) :
      Acts b max r world [.read (r.demand max) .abandoned, .closed]
        (.answered (.error .closed) { r with phase := .closed } (b.closeBody body' world'))
  /-- The body gives an empty piece. -/
  | idled {body body' : β} {world' : σ}
      (hlive : b.isClosed world = false) (hphase : r.phase = .streaming body)
      (hread : b.readBody body (r.demand max) world = (.done (.ok (some [])), body', world')) :
      Acts b max r world [.read (r.demand max) (.done (.ok (some [])))]
        (.going { r with phase := .streaming body' } world')
  | delivered {body body' : β} {world' : σ} {piece : Bytes}
      (hlive : b.isClosed world = false) (hphase : r.phase = .streaming body)
      (hread : b.readBody body (r.demand max) world = (.done (.ok (some piece)), body', world'))
      (hpiece : piece ≠ []) :
      Acts b max r world [.read (r.demand max) (.done (.ok (some piece)))]
        (.answered (.ok (some piece)) (r.accept body' piece) (b.count .bytesDelivered piece.length world'))
  /-- The transfer of the front slice breaks. -/
  | broke {body body' : β} {world' : σ} {answer : Delivery} {fault : TransferFault}
      (hlive : b.isClosed world = false) (hphase : r.phase = .streaming body)
      (hread : b.readBody body (r.demand max) world = (.done answer, body', world'))
      (hfault : r.breakage? answer = some fault) :
      Acts b max r world [.read (r.demand max) (.done answer), .closed]
        (r.answerBroken b fault (b.closeBody body' world'))
  /-- The front slice is delivered, and the next one is in front. -/
  | advanced {body body' : β} {world' : σ}
      (hlive : b.isClosed world = false) (hphase : r.phase = .streaming body)
      (hread : b.readBody body (r.demand max) world = (.done (.ok none), body', world'))
      (hwhole : r.frontLength ≤ r.sliceDelivered) :
      Acts b max r world [.read (r.demand max) (.done (.ok none)), .closed]
        (.going r.advance (b.closeBody body' world'))

/-! ### There are no other steps -/

variable {r : Reader β} {b : Backend σ β} {world : σ}

private theorem openFront_acts (max : Nat) (hlive : b.isClosed world = false) (hphase : r.phase = .needNextChunk) :
    ∃ notes, r.openFront b.noting (world, []) = (r.openFront b world).noted notes ∧
      Acts b max r world notes (r.openFront b world) := by
  unfold openFront
  split
  · next hpending => exact ⟨[], rfl, .noSlice hlive hphase hpending⟩
  · next slice rest hpending =>
    split
    · next hchunk => exact ⟨[], rfl, .noChunk hlive hphase hpending hchunk⟩
    · next c hchunk =>
      obtain ⟨answer, later, hnoting, hattempts⟩ := b.openChunk_noting c (r.rest slice) world []
      rw [hnoting]
      refine ⟨.resolved c.remoteRef answer :: later, ?_⟩
      rcases hopen : b.openChunk c (r.rest slice) world with ⟨(failure | body) | _, world'⟩
      · exact ⟨rfl, .refused hlive hphase hpending hchunk hopen hattempts⟩
      · exact ⟨rfl, .opened hlive hphase hpending hchunk hopen hattempts⟩
      · simp only [answerClosed, close, hphase]
        exact ⟨rfl, .openAbandoned hlive hphase hpending hchunk hopen hattempts⟩

private theorem readFront_acts (max : Nat) {body : β} (hlive : b.isClosed world = false)
    (hphase : r.phase = .streaming body) :
    ∃ notes, r.readFront b.noting max body (world, []) = (r.readFront b max body world).noted notes ∧
      Acts b max r world notes (r.readFront b max body world) := by
  rcases hread : b.readBody body (r.demand max) world with ⟨answer, body', world'⟩
  have hnoting : b.noting.readBody body (r.demand max) (world, []) =
      (answer, body', world', [.read (r.demand max) answer]) := by
    simp [Backend.noting, hread]
  unfold readFront
  rw [show min r.remaining (Nat.max max 1) = r.demand max from rfl, hread, hnoting]
  rcases answer with (fault | _ | _ | ⟨first, more⟩) | _
  · exact ⟨_, rfl, .broke hlive hphase hread rfl⟩
  · by_cases hshort : r.sliceDelivered < r.frontLength
    · simp only [if_pos hshort]
      exact ⟨_, rfl, .broke hlive hphase hread (if_pos hshort)⟩
    · simp only [if_neg hshort]
      exact ⟨_, rfl, .advanced hlive hphase hread (Nat.le_of_not_lt hshort)⟩
  · exact ⟨_, rfl, .idled hlive hphase hread⟩
  · exact ⟨_, rfl, .delivered hlive hphase hread (List.cons_ne_nil _ _)⟩
  · exact ⟨_, rfl, .readAbandoned hlive hphase hread⟩

/-- Noting changes nothing about a step, and each step is one of the listed kinds. -/
theorem turn_acts (r : Reader β) (b : Backend σ β) (max : Nat) (world : σ) :
    ∃ notes, r.turn b.noting max (world, []) = (r.turn b max world).noted notes ∧
      Acts b max r world notes (r.turn b max world) := by
  have hsame : b.noting.isClosed (world, []) = b.isClosed world := rfl
  unfold turn
  rw [hsame]
  cases hclosed : b.isClosed world with
  | true =>
    by_cases hphase : r.phase = .exhausted
    · simp only [isExhausted, hphase, Phase.isExhausted, Bool.not_true, Bool.and_false, Bool.false_eq_true, ↓reduceIte]
      exact ⟨[], rfl, .exhausted hphase⟩
    · have hgoing : r.isExhausted = false := by
        unfold isExhausted Phase.isExhausted
        split
        · next h => exact absurd h hphase
        · rfl
      simp only [hgoing, Bool.not_false, Bool.and_self, ↓reduceIte]
      refine ⟨r.closeNotes, ?_, .closing hclosed hgoing⟩
      unfold answerClosed close closeNotes
      cases r.phase <;> rfl
  | false =>
    simp only [Bool.false_and, Bool.false_eq_true, ↓reduceIte]
    cases hphase : r.phase with
    | needNextChunk => exact openFront_acts max hclosed hphase
    | streaming body => exact readFront_acts max hclosed hphase
    | exhausted => exact ⟨[], rfl, .exhausted hphase⟩
    | failed index => exact ⟨[], rfl, .failed hclosed hphase⟩
    | closed => exact ⟨[], rfl, .closed hclosed hphase⟩

/-- A step keeps the listing, and drops no slice but the front one. -/
theorem Acts.keeps {max : Nat} {notes : List Exchange} {turn : Turn β σ} (h : Acts b max r world notes turn) :
    turn.reader.chunks = r.chunks ∧ turn.reader.pending <:+ r.pending := by
  cases h with
  | closing => simp [Turn.reader]
  | advanced => exact ⟨rfl, List.tail_suffix r.pending⟩
  | _ => exact ⟨rfl, List.suffix_rfl⟩

end Reader

end ChunkedStorage
