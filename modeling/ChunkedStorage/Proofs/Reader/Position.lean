import ChunkedStorage.Proofs.Reader.Serving
import ChunkedStorage.Proofs.Slices

/-!
# Where a reader stands

A reader of a range has delivered the slices that it dropped and a part of the one in front.  This is kept by every step
of a reader whose bodies are bounded (`Placed.acts`), and so along every path (`Placed.path`).  It fixes the place of
the next byte in the front slice (`Placed.position_eq`), and that no more than the range is delivered
(`Placed.delivered_le`).
-/

namespace ChunkedStorage

variable {σ β : Type}

/-! ### Lengths of slices -/

@[simp] theorem ChunkSlice.length_logicalRange (s : ChunkSlice) : s.logicalRange.length = s.length := by
  simp only [logicalRange, length, Span.length]
  omega

namespace Slicing

variable {chunks : List Chunk} {wanted : Span} {slices : List ChunkSlice}

private theorem lengths (slices : List ChunkSlice) :
    (slices.map ChunkSlice.logicalRange).map Span.length = slices.map ChunkSlice.length := by
  simp

theorem sum_length (h : Slicing chunks wanted slices) : (slices.map ChunkSlice.length).sum = wanted.length := by
  by_cases hnil : slices = []
  · rw [h.empty hnil, hnil]
    rfl
  · have := (h.tiles hnil).add_sum
    rw [lengths] at this
    simp only [Span.length]
    omega

/-- The first byte of a slice lies behind the slices before it. -/
theorem place {front back : List ChunkSlice} {slice : ChunkSlice} (h : Slicing chunks wanted slices)
    (hslices : slices = front ++ slice :: back) :
    slice.logicalStart + slice.range.start = wanted.start + (front.map ChunkSlice.length).sum := by
  have htiles := h.tiles (by simp [hslices])
  rw [hslices, List.map_append, List.map_cons] at htiles
  have := htiles.start_eq
  rwa [lengths] at this

theorem stop_le {slice : ChunkSlice} (h : Slicing chunks wanted slices) (hslice : slice ∈ slices) :
    slice.logicalStart + slice.range.stop ≤ wanted.stop := by
  have htiles := h.tiles (List.ne_nil_of_mem hslice)
  exact (htiles.inside slice.logicalRange (List.mem_map_of_mem hslice)).2

end Slicing

namespace Reader

/-! ### Front slices -/

theorem frontLength_of_nil {r : Reader β} (hpending : r.pending = []) : r.frontLength = 0 := by
  simp only [frontLength, hpending, List.head?_nil, Option.map_none, Option.getD_none]

theorem frontLength_of_cons {r : Reader β} {slice : ChunkSlice} {rest : List ChunkSlice}
    (hpending : r.pending = slice :: rest) : r.frontLength = slice.range.stop - slice.range.start := by
  simp only [frontLength, hpending, List.head?_cons, Option.map_some, Option.getD_some, ChunkSlice.length, Span.length]

/-! ### The invariant -/

/-- A reader of slices stands behind those that it dropped and within the one in front, with a body that has no more
than the rest of it. -/
structure Placed (chunks : List Chunk) (slices : List ChunkSlice) (wanted : Span) (room : β → Nat → Prop)
    (r : Reader β) : Prop where
  chunks : r.chunks = chunks
  start : r.start = wanted.start
  requested : r.requested = wanted.length
  dropped : ∃ front, slices = front ++ r.pending ∧
    r.delivered = (front.map ChunkSlice.length).sum + r.sliceDelivered
  inside : r.sliceDelivered ≤ r.frontLength
  body : ∀ body, r.phase = .streaming body → room body (r.frontLength - r.sliceDelivered)
  whole : r.phase = .exhausted → r.delivered = r.requested

namespace Placed

variable {chunks : List Chunk} {slices : List ChunkSlice} {wanted : Span} {room : β → Nat → Prop} {r : Reader β}

theorem ofSlices (room : β → Nat → Prop) (h : Slicing chunks wanted slices) :
    Placed chunks slices wanted room (.ofSlices chunks slices wanted) where
  chunks := rfl
  start := rfl
  requested := rfl
  dropped := ⟨[], rfl, rfl⟩
  inside := Nat.zero_le _
  body := fun body hphase => absurd hphase (ofSlices_not_streaming chunks slices wanted body)
  whole := by
    intro hphase
    simp only [Reader.ofSlices] at hphase ⊢
    split at hphase
    · next hnone =>
      rcases Bool.or_eq_true_iff.1 hnone with hempty | hnil
      · simp only [Span.isEmpty, decide_eq_true_eq] at hempty
        simp only [Span.length]
        omega
      · exact (h.empty (List.isEmpty_iff.1 hnil)).symm
    · cases hphase

/-- A reader that has no slice left has delivered the range. -/
theorem delivered_of_nil (h : Placed chunks slices wanted room r) (hslicing : Slicing chunks wanted slices)
    (hpending : r.pending = []) : r.delivered = r.requested := by
  obtain ⟨front, hslices, hdelivered⟩ := h.dropped
  have hinside := h.inside
  rw [frontLength_of_nil hpending] at hinside
  rw [hpending, List.append_nil] at hslices
  subst hslices
  have := hslicing.sum_length
  rw [h.requested]
  omega

theorem delivered_le (h : Placed chunks slices wanted room r) (hslicing : Slicing chunks wanted slices) :
    r.delivered ≤ wanted.length := by
  cases hpending : r.pending with
  | nil =>
    have := h.delivered_of_nil hslicing hpending
    have := h.requested
    omega
  | cons slice rest =>
    obtain ⟨front, hslices, hdelivered⟩ := h.dropped
    have hinside := h.inside
    rw [frontLength_of_cons hpending] at hinside
    have := hslicing.sum_length
    rw [hslices, hpending, List.map_append, List.map_cons, List.sum_append, List.sum_cons, ChunkSlice.length,
      Span.length] at this
    omega

/-- The next byte is the one of the front slice behind those delivered of it. -/
theorem position_eq {slice : ChunkSlice} {rest : List ChunkSlice} (h : Placed chunks slices wanted room r)
    (hslicing : Slicing chunks wanted slices) (hpending : r.pending = slice :: rest) :
    r.position = slice.logicalStart + slice.range.start + r.sliceDelivered := by
  obtain ⟨front, hslices, hdelivered⟩ := h.dropped
  rw [hpending] at hslices
  have := hslicing.place hslices
  have := h.start
  simp only [position]
  omega

/-- A slice that is still pending is a part of one chunk. -/
theorem chunk_of_pending {slice : ChunkSlice} {rest : List ChunkSlice} (h : Placed chunks slices wanted room r)
    (hslicing : Slicing chunks wanted slices) (hpending : r.pending = slice :: rest) :
    ∃ c, chunks[slice.index]? = some c ∧ slice.logicalStart = c.start ∧ slice.range.start ≤ slice.range.stop ∧
      slice.range.stop ≤ c.length := by
  obtain ⟨front, hslices, -⟩ := h.dropped
  obtain ⟨c, hc, -, hstart, hle, hstop⟩ := hslicing.chunk slice (by simp [hslices, hpending])
  exact ⟨c, hc, hstart, hle, hstop⟩

/-- The next byte is not beyond the front slice. -/
theorem position_le {slice : ChunkSlice} {rest : List ChunkSlice} (h : Placed chunks slices wanted room r)
    (hslicing : Slicing chunks wanted slices) (hpending : r.pending = slice :: rest) :
    r.position ≤ slice.logicalStart + slice.range.stop := by
  obtain ⟨c, -, -, hle, -⟩ := h.chunk_of_pending hslicing hpending
  have hposition := h.position_eq hslicing hpending
  have hinside := h.inside
  rw [frontLength_of_cons hpending] at hinside
  omega

/-! ### Steps keep it -/

/-- A new phase without a body changes nothing, as long as it claims nothing about the end. -/
private theorem withPhase {phase : Phase β} (h : Placed chunks slices wanted room r)
    (hbody : ∀ body, phase = .streaming body → room body (r.frontLength - r.sliceDelivered))
    (hwhole : phase = .exhausted → r.delivered = r.requested) :
    Placed chunks slices wanted room { r with phase } where
  chunks := h.chunks
  start := h.start
  requested := h.requested
  dropped := h.dropped
  inside := h.inside
  body := hbody
  whole := hwhole

theorem close (h : Placed chunks slices wanted room r) :
    Placed chunks slices wanted room { r with phase := .closed } :=
  h.withPhase (by simp) (by simp)

private theorem advance (h : Placed chunks slices wanted room r) (hslicing : Slicing chunks wanted slices)
    (hfull : r.frontLength ≤ r.sliceDelivered) : Placed chunks slices wanted room r.advance := by
  have hdropped : ∃ front, slices = front ++ r.pending.tail ∧
      r.delivered = (front.map ChunkSlice.length).sum := by
    obtain ⟨front, hslices, hdelivered⟩ := h.dropped
    have hinside := h.inside
    cases hpending : r.pending with
    | nil =>
      rw [frontLength_of_nil hpending] at hinside
      exact ⟨front, by rw [hslices, hpending]; rfl, by omega⟩
    | cons slice rest =>
      rw [frontLength_of_cons hpending] at hinside hfull
      -- the front slice now counts among those before
      refine ⟨front ++ [slice], by rw [hslices, hpending]; simp, ?_⟩
      rw [List.map_append, List.sum_append, List.map_singleton, List.sum_singleton, ChunkSlice.length, Span.length]
      omega
  obtain ⟨front, hslices, hdelivered⟩ := hdropped
  refine ⟨h.chunks, h.start, h.requested, ⟨front, hslices, hdelivered⟩, Nat.zero_le _, ?_, ?_⟩
  · intro body hphase
    exact absurd hphase (r.advance_not_streaming body)
  · intro hphase
    simp only [Reader.advance] at hphase ⊢
    split at hphase
    · next hend =>
      rcases Bool.or_eq_true_iff.1 hend with hnil | hall
      · rw [List.isEmpty_iff.1 hnil, List.append_nil] at hslices
        subst hslices
        rw [hdelivered, hslicing.sum_length, h.requested]
      · simpa using hall
    · cases hphase

variable {b : Backend σ β} {sound : σ → Prop} {max : Nat} {world : σ} {notes : List Exchange} {turn : Turn β σ}

/-- Every step keeps the place of a reader whose bodies are bounded. -/
theorem acts (hb : b.Bounded sound room) (hslicing : Slicing chunks wanted slices)
    (hacts : Acts b max r world notes turn) (hsound : sound world) (h : Placed chunks slices wanted room r) :
    Placed chunks slices wanted room turn.reader := by
  cases hacts with
  | closing =>
    simp only [Turn.reader, close_reader]
    exact h.close
  | exhausted | closed | failed | noChunk => exact h
  | noSlice _ _ hpending => exact h.withPhase (by simp) fun _ => h.delivered_of_nil hslicing hpending
  | openAbandoned | refused | readAbandoned => exact h.withPhase (by simp) (by simp)
  | @opened slice rest c body _ _ _ _ _ hpending _ hopen =>
    refine h.withPhase ?_ (by simp)
    intro body' hphase
    cases hphase
    have hroom := hb.opened ((hb.openChunk hsound hopen).2 body rfl)
    have hlength : (r.rest slice).length = r.frontLength - r.sliceDelivered := by
      rw [frontLength_of_cons hpending]
      simp only [Reader.rest, Span.length]
      omega
    rwa [hlength] at hroom
  | @idled body body' _ _ hphase hread =>
    refine h.withPhase ?_ (by simp)
    intro body' hphase'
    cases hphase'
    exact (hb.read hsound (h.body body hphase) hread).2
  | @delivered body body' _ piece _ hphase hread _ =>
    obtain ⟨hpiece, hroom⟩ := hb.read hsound (h.body body hphase) hread
    obtain ⟨front, hslices, hdelivered⟩ := h.dropped
    have hinside := h.inside
    simp only [Reply.piece] at hpiece hroom
    refine ⟨h.chunks, h.start, h.requested, ⟨front, hslices, ?_⟩, ?_, ?_, by simp [accept, Turn.reader]⟩
    · simp only [Turn.reader, accept]
      omega
    · simp only [Turn.reader, accept, frontLength] at hinside hpiece ⊢
      omega
    · intro body'' hphase'
      cases hphase'
      rwa [Nat.sub_sub] at hroom
  | broke =>
    simp only [Turn.reader, answerBroken, breakOff]
    exact ⟨h.chunks, h.start, h.requested, h.dropped, h.inside, by split <;> simp, by split <;> simp⟩
  | advanced _ _ _ hfull => exact h.advance hslicing hfull

/-- So it is kept along every path. -/
theorem path {steps : List (Step σ β)} {r' : Reader β} (hb : b.Bounded sound room)
    (hslicing : Slicing chunks wanted slices) (hpath : Path b r steps r')
    (hsound : ∀ step ∈ steps, sound step.world) (h : Placed chunks slices wanted room r) :
    Placed chunks slices wanted room r' := by
  induction hpath with
  | nil => exact h
  | turn hacts _ ih =>
    obtain ⟨hworld, hsteps⟩ := List.forall_mem_cons.1 hsound
    exact ih hsteps (h.acts hb hslicing hacts hworld)
  | close _ ih => exact ih (List.forall_mem_cons.1 hsound).2 h.close

end Placed

/-! ### Counts of delivered bytes -/

variable {b : Backend σ β}

private theorem Acts.delivered_eq {r : Reader β} {max : Nat} {world : σ} {notes : List Exchange} {turn : Turn β σ}
    (h : Acts b max r world notes turn) :
    turn.reader.delivered = r.delivered + (Step.output ⟨r, world, notes, turn.answer?⟩).length ∧
      turn.reader.start = r.start ∧ turn.reader.requested = r.requested := by
  cases h <;> simp [Turn.reader, Turn.answer?, Step.output, accept, answerBroken, breakOff, Reader.advance]

theorem Acts.position_le {r : Reader β} {max : Nat} {world : σ} {notes : List Exchange} {turn : Turn β σ}
    (h : Acts b max r world notes turn) : r.position ≤ turn.reader.position := by
  obtain ⟨hdelivered, hstart, -⟩ := h.delivered_eq
  simp only [position]
  omega

/-- Along a path as many bytes are counted as are handed out. -/
theorem Path.delivered_eq {r r' : Reader β} {steps : List (Step σ β)} (h : Path b r steps r') :
    r'.delivered = r.delivered + (steps.flatMap Step.output).length ∧ r'.start = r.start ∧
      r'.requested = r.requested := by
  induction h with
  | nil => simp
  | turn hacts _ ih =>
    obtain ⟨hdelivered, hstart, hrequested⟩ := hacts.delivered_eq
    rw [hdelivered, hstart, hrequested, Nat.add_assoc] at ih
    simpa using ih
  | close _ ih => simpa [Step.output] using ih

theorem Path.position_le {r r' : Reader β} {steps : List (Step σ β)} (h : Path b r steps r') :
    r.position ≤ r'.position := by
  obtain ⟨hdelivered, hstart, -⟩ := h.delivered_eq
  simp only [position]
  omega

end Reader

end ChunkedStorage
