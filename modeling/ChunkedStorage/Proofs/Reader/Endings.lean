import ChunkedStorage.Proofs.Reader.Bodies
import ChunkedStorage.Proofs.Reader.Failures

/-!
# How readers end

A reader that is exhausted, that has failed or that is closed answers every read alike and calls nobody
(`Reader.Terminal.reads`).  The end of the data outlasts the closing of the object, the closing of the object ends a
failed reader, and the closing of the reader ends any.
-/

namespace ChunkedStorage

variable {σ β : Type}

namespace Use

/-- Whether a call reads; nothing is read into an empty buffer. -/
def isRead : Use σ → Bool
  | next _ _ => true
  | read size _ => size ≠ 0
  | close _ => false

/-- Whether a call closes the reader. -/
def isClose : Use σ → Bool
  | close _ => true
  | _ => false

end Use

namespace Reader

variable {b : Backend σ β} {r : Reader β}

/-- What a read answers; nothing in the buffer means the end. -/
def answer? (r : Reader β) (b : Backend σ β) : Use σ → Option (Except Failure (Option Bytes))
  | .next max world => some (r.next b max world).1
  | .read size world =>
    if size = 0 then none
    else some ((r.read b size world).1.map fun bytes => if bytes = [] then none else some bytes)
  | .close _ => none

/-! ### Terminal readers -/

/-- A reader that answers every read in a world alike. -/
inductive Terminal (b : Backend σ β) (r : Reader β) (world : σ) : Except Failure (Option Bytes) → Prop where
  | exhausted (hphase : r.phase = .exhausted) : Terminal b r world (.ok none)
  | failed {index : Nat} (hphase : r.phase = .failed index) (hlive : b.isClosed world = false) :
      Terminal b r world (.error (.readerFailed index))
  | closed (hphase : r.phase = .closed) : Terminal b r world (.error .closed)
  /-- The object is closed, and the reader is not exhausted. -/
  | objectClosed (hclosed : b.isClosed world = true) (hphase : r.phase ≠ .exhausted) :
      Terminal b r world (.error .closed)

theorem isExhausted_iff : r.isExhausted = true ↔ r.phase = .exhausted := by
  unfold isExhausted Phase.isExhausted
  split <;> simp_all

namespace Terminal

variable {max : Nat} {world : σ} {result : Except Failure (Option Bytes)}

/-- A step of a terminal reader answers.  It calls nobody, but may close a body that is open, and leaves the reader as
it is, or closed if it says so. -/
theorem acts {notes : List Exchange} {turn : Turn β σ} (h : Terminal b r world result)
    (hacts : Acts b max r world notes turn) :
    turn.answer? = some result ∧ (∀ e ∈ notes, e = .closed) ∧
      (turn.reader = r ∨ turn.reader = { r with phase := .closed } ∧ result = .error .closed) := by
  cases hacts with
  | closing hclosed hgoing =>
    have hphase : r.phase ≠ .exhausted := by simp [← isExhausted_iff, hgoing]
    have hresult : result = .error .closed := by cases h <;> simp_all
    refine ⟨by rw [hresult]; rfl, ?_, .inr ⟨by simp [Turn.reader], hresult⟩⟩
    simp only [closeNotes]
    split <;> simp
  | exhausted hphase =>
    have hresult : result = .ok none := by cases h <;> simp_all
    exact ⟨by rw [hresult]; rfl, by simp, .inl rfl⟩
  | closed hlive hphase =>
    have hresult : result = .error .closed := by cases h <;> simp_all
    exact ⟨by rw [hresult]; rfl, by simp, .inl rfl⟩
  | failed hlive hphase =>
    refine ⟨?_, by simp, .inl rfl⟩
    cases h <;> simp_all [Turn.answer?]
  | noSlice hlive hphase | noChunk hlive hphase | openAbandoned hlive hphase | opened hlive hphase
  | refused hlive hphase | readAbandoned hlive hphase | idled hlive hphase | delivered hlive hphase
  | broke hlive hphase | advanced hlive hphase =>
    cases h <;> simp_all

/-- A read of a terminal reader answers at once. -/
theorem reads {steps : List (Step σ β)} {outcome : Except Failure (Option Bytes) × Reader β × σ}
    (h : Terminal b r world result) (hreads : Reads b max r world steps outcome) :
    outcome.1 = result ∧ (∀ step ∈ steps, ∀ e ∈ step.notes, e = .closed) ∧
      (outcome.2.1 = r ∨ outcome.2.1 = { r with phase := .closed } ∧ result = .error .closed) := by
  cases hreads with
  | answered hacts =>
    obtain ⟨hanswer, hnotes, hreader⟩ := h.acts hacts
    exact ⟨Option.some.inj hanswer, by simpa using hnotes, hreader⟩
  | going hacts _ => cases (h.acts hacts).1

end Terminal

/-! ### Reads among the calls -/

/-- A call that reads is a read of some number of bytes. -/
private theorem of_isRead (b : Backend σ β) (r : Reader β) {use : Use σ} (hread : use.isRead = true) :
    ∃ max, r.answer? b use = some (r.next b max use.world).1 ∧
      r.afterUse b use = (r.next b max use.world).2.1 ∧ r.stepsOf b use = r.steps b max use.world := by
  cases use with
  | next max world => exact ⟨max, rfl, rfl, rfl⟩
  | read size world =>
    have hsize : size ≠ 0 := by simpa [Use.isRead] using hread
    refine ⟨size, ?_, by simp only [afterUse, read, if_neg hsize, Use.world],
      by simp only [stepsOf, if_neg hsize, Use.world]⟩
    simp only [answer?, read, if_neg hsize, Use.world]
    rcases hnext : r.next b size world with ⟨failure | (_ | piece), r', world'⟩
    · rfl
    · rfl
    · simp [Except.map, piece_ne_nil_of_next hnext]
  | close world => cases hread

/-- A call that neither reads nor closes does nothing. -/
private theorem of_idle (b : Backend σ β) (r : Reader β) {use : Use σ} (hread : use.isRead = false)
    (hclose : use.isClose = false) : r.afterUse b use = r := by
  cases use with
  | next => cases hread
  | read size world =>
    have hsize : size = 0 := by simpa [Use.isRead] using hread
    simp only [afterUse, read, if_pos hsize]
  | close => cases hclose

/-- A read that answers without calling anybody, except that it may close an open body. -/
structure Silent (b : Backend σ β) (r : Reader β) (use : Use σ) (result : Except Failure (Option Bytes)) : Prop where
  answer : r.answer? b use = some result
  calls : ∀ step ∈ r.stepsOf b use, ∀ e ∈ step.notes, e = .closed
  given : r.given b use = []
  position : (r.afterUse b use).position = r.position

namespace Terminal

variable {use : Use σ} {result : Except Failure (Option Bytes)}

theorem silent (h : Terminal b r use.world result) (hread : use.isRead = true) : Silent b r use result := by
  obtain ⟨max, hanswer, hafter, hsteps⟩ := of_isRead b r hread
  have hreads := r.reads_steps b max use.world
  obtain ⟨hresult, hnotes, hreader⟩ := h.reads hreads
  refine ⟨by rw [hanswer, hresult], by rwa [hsteps], ?_, ?_⟩
  · rw [← output_stepsOf, hsteps, hreads.output, hresult]
    cases h <;> rfl
  · rw [hafter]
    rcases hreader with hsame | ⟨hclosed, -⟩
    · rw [hsame]
    · rw [hclosed]
      rfl

/-- Unless it is closed, a terminal reader stays as it is, or says that it is closed. -/
private theorem afterUse (h : Terminal b r use.world result) (hclose : use.isClose = false) :
    r.afterUse b use = r ∨ r.afterUse b use = { r with phase := .closed } ∧ result = .error .closed := by
  cases hread : use.isRead with
  | true =>
    obtain ⟨max, -, hafter, -⟩ := of_isRead b r hread
    rw [hafter]
    exact (h.reads (r.reads_steps b max use.world)).2.2
  | false => exact .inl (of_idle b r hread hclose)

end Terminal

/-! ### What outlasts further calls -/

variable {later : List (Use σ)}

/-- The end of the range lasts until the reader is closed. -/
theorem after_of_exhausted (hphase : r.phase = .exhausted) (hopen : ∀ use ∈ later, use.isClose = false) :
    r.after b later = r := by
  induction later with
  | nil => rfl
  | cons use later ih =>
    obtain ⟨huse, hlater⟩ := List.forall_mem_cons.1 hopen
    have hsame : r.afterUse b use = r := by simpa using (Terminal.exhausted hphase).afterUse huse
    rw [after, hsame]
    exact ih hlater

/-- A failure lasts until the reader or the object is closed. -/
theorem after_of_failed {index : Nat} (hphase : r.phase = .failed index)
    (hopen : ∀ use ∈ later, use.isClose = false ∧ b.isClosed use.world = false) : r.after b later = r := by
  induction later with
  | nil => rfl
  | cons use later ih =>
    obtain ⟨⟨huse, hlive⟩, hlater⟩ := List.forall_mem_cons.1 hopen
    have hsame : r.afterUse b use = r := by simpa using (Terminal.failed hphase hlive).afterUse huse
    rw [after, hsame]
    exact ih hlater

/-- A closed reader is closed for ever. -/
theorem phase_of_closed (b : Backend σ β) (later : List (Use σ)) (hphase : r.phase = .closed) :
    (r.after b later).phase = .closed := by
  induction later generalizing r with
  | nil => exact hphase
  | cons use later ih =>
    apply ih
    cases hclose : use.isClose with
    | true =>
      cases use with
      | next | read => cases hclose
      | close world => simp only [afterUse, close_reader]
    | false =>
      rcases (Terminal.closed hphase : Terminal b r use.world _).afterUse hclose with hsame | ⟨hclosed, -⟩
      · rw [hsame, hphase]
      · rw [hclosed]

/-- While the object is closed no reader gets to the end. -/
theorem phase_of_objectClosed (hphase : r.phase ≠ .exhausted) (hclosed : ∀ use ∈ later, b.isClosed use.world = true) :
    (r.after b later).phase ≠ .exhausted := by
  induction later generalizing r with
  | nil => exact hphase
  | cons use later ih =>
    obtain ⟨huse, hlater⟩ := List.forall_mem_cons.1 hclosed
    refine ih ?_ hlater
    cases hclose : use.isClose with
    | true =>
      cases use with
      | next | read => cases hclose
      | close world => simp [afterUse]
    | false =>
      rcases (Terminal.objectClosed huse hphase).afterUse hclose with hsame | ⟨hclosed, -⟩
      · rwa [hsame]
      · simp [hclosed]

/-! ### Answers that tell of an end -/

section

variable {use : Use σ}

/-- A call that answers is a read with that answer. -/
private theorem next_of_answer {result : Except Failure (Option Bytes)} (hanswer : r.answer? b use = some result) :
    ∃ max world', r.next b max use.world = (result, r.afterUse b use, world') := by
  have hread : use.isRead = true := by
    cases use with
    | next => rfl
    | read size =>
      simp only [answer?] at hanswer
      split at hanswer
      · cases hanswer
      · next hsize => simpa [Use.isRead] using hsize
    | close => cases hanswer
  obtain ⟨max, hnext, hafter, -⟩ := of_isRead b r hread
  rw [hnext, Option.some.injEq] at hanswer
  exact ⟨max, (r.next b max use.world).2.2, by rw [← hanswer, hafter]⟩

theorem phase_of_end (hanswer : r.answer? b use = some (.ok none)) : (r.afterUse b use).phase = .exhausted := by
  obtain ⟨_, _, hnext⟩ := next_of_answer hanswer
  exact phase_of_next_end hnext

theorem phase_of_closed_answer (hanswer : r.answer? b use = some (.error .closed)) :
    (r.afterUse b use).phase = .closed := by
  obtain ⟨max, world', hnext⟩ := next_of_answer hanswer
  obtain ⟨r₁, world₁, notes, hacts⟩ := acts_of_next hnext
  generalize hturn : Turn.answered (.error .closed) (r.afterUse b use) world' = turn at hacts
  have hreader : turn.reader = r.afterUse b use := by rw [← hturn]; rfl
  rw [← hreader]
  cases hacts with
  | closing => simp [Turn.reader]
  | closed _ hphase => exact hphase
  | openAbandoned | readAbandoned => rfl
  | refused _ _ _ _ hopen =>
    -- a chunk that is refused fails with the fault of an attempt
    obtain ⟨fault, attempts, rfl⟩ := b.openFrom_failure hopen
    cases fault <;> simp [Backend.AttemptFault.failure] at hturn
  | exhausted | failed | noSlice | noChunk | opened | idled | delivered | advanced => simp at hturn
  | broke => simp [answerBroken, breakOff] at hturn

/-- A read that meets a closed object before the end is answered with it. -/
theorem Reads.of_objectClosed {max : Nat} {world : σ} {steps : List (Step σ β)}
    {outcome : Except Failure (Option Bytes) × Reader β × σ} (h : Reads b max r world steps outcome) {step : Step σ β}
    (hstep : step ∈ steps) (hclosed : b.isClosed step.world = true) (hphase : step.reader.phase ≠ .exhausted) :
    outcome.1 = .error .closed := by
  induction h with
  | answered hacts =>
    obtain rfl := List.mem_singleton.1 hstep
    exact Option.some.inj ((Terminal.objectClosed hclosed hphase).acts hacts).1
  | going hacts _ ih =>
    rcases List.mem_cons.1 hstep with rfl | hstep
    · cases ((Terminal.objectClosed hclosed hphase).acts hacts).1
    · exact ih hstep

end

end Reader

namespace ChunkedObject

variable {b : Backend σ β}

private theorem rangeRead_numbering (o : ChunkedObject) (b : Backend σ β) (request : RangeRequest) (world : σ)
    (events : List BodyEvent) :
    (o.rangeRead b.numbering request (world, events)).map Reader.forget = o.rangeRead b request world := by
  have hforget (slices : List ChunkSlice) (wanted : Span) :
      Reader.forget (.ofSlices o.chunks slices wanted) = (.ofSlices o.chunks slices wanted : Reader β) := by
    simp only [Reader.forget, Reader.ofSlices, Reader.mk.injEq, true_and, and_true]
    split <;> rfl
  simp only [rangeRead, show b.numbering.isClosed (world, events) = b.isClosed world from rfl]
  split
  · rfl
  · split
    · rfl
    · split
      · simp only [Except.map, hforget]
      · split
        · rfl
        · simp only [Except.map, hforget]

/-- The same reader with numbered bodies keeps them tidy in all calls, and at every step of one more. -/
private theorem rangeRead_tidy {o : ChunkedObject} {request : RangeRequest} {world₀ : σ} {r : Reader β}
    (hread : o.rangeRead b request world₀ = .ok r) (uses : List (Use σ)) :
    ∃ r₀, o.rangeRead b.numbering request (world₀, []) = .ok r₀ ∧ r₀.forget = r ∧
      let (r', events) := Reader.numberedAfter b uses r₀ []
      r'.forget = r.after b uses ∧ Reader.Tidy r' events ∧
        ∀ use : Use σ, ∀ step ∈ r'.stepsOf b.numbering (use.behind events), Reader.Tidy step.reader step.world.2 := by
  have hsame := rangeRead_numbering o b request world₀ []
  rw [hread] at hsame
  cases hnumbered : o.rangeRead b.numbering request (world₀, []) with
  | error failure =>
    rw [hnumbered] at hsame
    cases hsame
  | ok r₀ =>
    rw [hnumbered] at hsame
    have hforget : r₀.forget = r := Except.ok.inj hsame
    obtain ⟨wanted, slices, -, rfl, -, -⟩ := slicing_of_rangeRead hnumbered
    have htidy := (Reader.Tidy.ofSlices o.chunks slices wanted).uses (b := b) uses
    refine ⟨_, rfl, hforget, ?_, htidy, fun use => (htidy.use use).1⟩
    rw [Reader.forget_numberedAfter, hforget]

/-- However a reader of a range is used, and whatever its backend does: once a read has told the end of the data, all do
until the reader is closed; once the reader has failed, all reads say so until the reader or the object is closed; once
the reader is closed, or the object before the reader is exhausted, all reads say that for ever.  These reads call
nobody, hand nothing out and leave the position alone.  The bodies of the reader are opened and closed by turns, and one
is open only while the reader streams. -/
theorem rangeRead_ends {o : ChunkedObject} {request : RangeRequest} {world₀ : σ} {r : Reader β}
    (hread : o.rangeRead b request world₀ = .ok r) (uses : List (Use σ)) :
    (∀ request world, b.isClosed world = true → o.rangeRead b request world = .error .closed) ∧
    (∀ use later use', (r.after b uses).answer? b use = some (.ok none) → (∀ u ∈ later, u.isClose = false) →
      use'.isRead = true → Reader.Silent b (((r.after b uses).afterUse b use).after b later) use' (.ok none)) ∧
    (∀ index later use', (r.after b uses).phase = .failed index →
      (∀ u ∈ later ++ [use'], u.isClose = false ∧ b.isClosed u.world = false) → use'.isRead = true →
      Reader.Silent b ((r.after b uses).after b later) use' (.error (.readerFailed index))) ∧
    (∀ world later use', use'.isRead = true →
      Reader.Silent b (((r.after b uses).afterUse b (.close world)).after b later) use' (.error .closed)) ∧
    (∀ later use', (r.after b uses).phase ≠ .exhausted → (∀ u ∈ later ++ [use'], b.isClosed u.world = true) →
      use'.isRead = true → Reader.Silent b ((r.after b uses).after b later) use' (.error .closed)) ∧
    -- the object may also be closed in the middle of a read
    (∀ use, use.isRead = true → ∀ step ∈ (r.after b uses).stepsOf b use, b.isClosed step.world = true →
      step.reader.phase ≠ .exhausted → (r.after b uses).answer? b use = some (.error .closed)) ∧
    (∀ use later use', (r.after b uses).answer? b use = some (.error .closed) → use'.isRead = true →
      Reader.Silent b (((r.after b uses).afterUse b use).after b later) use' (.error .closed)) ∧
    ∃ r₀, o.rangeRead b.numbering request (world₀, []) = .ok r₀ ∧ r₀.forget = r ∧
      let (r', events) := Reader.numberedAfter b uses r₀ []
      r'.forget = r.after b uses ∧ Reader.Tidy r' events ∧
        ∀ use : Use σ, ∀ step ∈ r'.stepsOf b.numbering (use.behind events), Reader.Tidy step.reader step.world.2 := by
  refine ⟨?_, ?_, ?_, ?_, ?_, ?_, ?_, rangeRead_tidy hread uses⟩
  · intro request world hclosed
    simp [rangeRead, hclosed]
  · intro use later use' hanswer hopen hisRead
    have hphase := Reader.phase_of_end hanswer
    rw [Reader.after_of_exhausted hphase hopen]
    exact (Reader.Terminal.exhausted hphase).silent hisRead
  · intro index later use' hphase hopen hisRead
    obtain ⟨hlater, hlast⟩ := List.forall_mem_append.1 hopen
    have hlive := (hlast use' (List.mem_singleton_self use')).2
    rw [Reader.after_of_failed hphase hlater]
    exact (Reader.Terminal.failed hphase hlive).silent hisRead
  · intro world later use' hisRead
    have hphase : ((r.after b uses).afterUse b (.close world)).phase = .closed := by simp [Reader.afterUse]
    exact (Reader.Terminal.closed (Reader.phase_of_closed b later hphase)).silent hisRead
  · intro later use' hphase hclosed hisRead
    obtain ⟨hlater, hlast⟩ := List.forall_mem_append.1 hclosed
    have hworld : b.isClosed use'.world = true := hlast use' (List.mem_singleton_self use')
    exact (Reader.Terminal.objectClosed hworld (Reader.phase_of_objectClosed hphase hlater)).silent hisRead
  · intro use hisRead step hstep hclosed hphase
    obtain ⟨max, hanswer, -, hsteps⟩ := Reader.of_isRead b (r.after b uses) hisRead
    rw [hsteps] at hstep
    rw [hanswer, ((r.after b uses).reads_steps b max use.world).of_objectClosed hstep hclosed hphase]
  · intro use later use' hanswer hisRead
    have hphase := Reader.phase_of_closed_answer hanswer
    exact (Reader.Terminal.closed (Reader.phase_of_closed b later hphase)).silent hisRead

theorem rangeRead_ends_twoChunks :
    let b := Rehearsal.backend 0 ⟨2, .ofSeconds 1, 3⟩
    let r := Rehearsal.middle
    let shut : Rehearsal := { Rehearsal.broken with closed := [0] }
    let uses := [.next 2 Rehearsal.broken, .read 0 shut]
    (r.after b uses).phase ≠ .exhausted ∧
      Reader.Silent b ((r.after b uses).after b [.next 9 shut]) (.read 4 shut) (.error .closed) := by
  intro b r shut uses
  have hread : Rehearsal.twoChunks.rangeRead b ⟨1, .bytes 3⟩ Rehearsal.broken = .ok r := Rehearsal.rangeRead_middle _
  -- the first chunk is opened and delivers a byte
  have hnext : r.next b 2 Rehearsal.broken = _ := (Reader.next_of_going rfl).trans (Reader.next_of_answered rfl)
  have hphase : (r.after b uses).phase ≠ .exhausted := by
    simp only [uses, Reader.after, Reader.afterUse, Reader.read, hnext]
    simp [Reader.accept]
  obtain ⟨-, -, -, -, hclosed, -⟩ := rangeRead_ends hread uses
  exact ⟨hphase, hclosed [.next 9 shut] (.read 4 shut) hphase (by simp [Use.world, shut]; rfl) rfl⟩

end ChunkedObject

end ChunkedStorage
