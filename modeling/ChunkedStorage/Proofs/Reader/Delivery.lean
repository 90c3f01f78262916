import ChunkedStorage.Proofs.Reader.Position
import ChunkedStorage.Proofs.Rehearsal

/-!
# What a reader delivers

Whatever fails on the way, a reader of a range hands out the bytes of the range in order, each of them once.  An open
body holds the bytes from the position of the reader to the end of the front slice (`Carries`), so that every step hands
out the bytes between the positions before and after it (`Carries.path`).
-/

namespace ChunkedStorage

variable {σ β : Type}

namespace Reader

/-! ### Open bodies -/

/-- An open body holds the bytes from the position of the reader up to the end of the front slice. -/
def Carries (content : Bytes) (held : β → Bytes → Prop) (r : Reader β) : Prop :=
  ∀ body, r.phase = .streaming body → ∃ slice rest, r.pending = slice :: rest ∧
    held body ((⟨r.position, slice.logicalStart + slice.range.stop⟩ : Span).cut content)

namespace Carries

variable {content : Bytes} {object : String → Bytes} {sound : σ → Prop} {held : β → Bytes → Prop} {b : Backend σ β}
variable {chunks : List Chunk} {slices : List ChunkSlice} {wanted : Span} {room : β → Nat → Prop} {r : Reader β}

private theorem of_phase (h : ∀ body, r.phase ≠ .streaming body) : Carries content held r :=
  fun body hphase => absurd hphase (h body)

theorem ofSlices (chunks : List Chunk) (slices : List ChunkSlice) (wanted : Span) :
    Carries content held (.ofSlices chunks slices wanted) := by
  exact of_phase (ofSlices_not_streaming chunks slices wanted)

/-- What is opened of a chunk are the bytes from the position of the reader up to the end of the front slice. -/
private theorem cut_rest (hobject : ∀ c ∈ chunks, object c.remoteRef = c.span.cut content)
    (hslicing : Slicing chunks wanted slices) (hplaced : Placed chunks slices wanted room r)
    {slice : ChunkSlice} {rest : List ChunkSlice} {c : Chunk} (hpending : r.pending = slice :: rest)
    (hchunk : r.chunks[slice.index]? = some c) :
    (r.rest slice).cut (object c.remoteRef) =
      (⟨r.position, slice.logicalStart + slice.range.stop⟩ : Span).cut content := by
  obtain ⟨c', hc', hstart, -, hstop⟩ := hplaced.chunk_of_pending hslicing hpending
  obtain rfl : c' = c := by
    rw [hplaced.chunks, hc'] at hchunk
    exact Option.some.inj hchunk
  rw [hobject c' (List.mem_of_getElem? hc'), Span.cut_cut (by exact hstop), hplaced.position_eq hslicing hpending]
  simp only [Reader.rest, Chunk.span, hstart, Nat.add_assoc]

/-- The next piece of an open body starts at the position of the reader. -/
private theorem piece_eq (hb : b.Serves object sound held) (hslicing : Slicing chunks wanted slices)
    (hplaced : Placed chunks slices wanted room r) (h : Carries content held r) {body body' : β} {max : Nat}
    {world world' : σ} {answer : Reply Delivery} (hsound : sound world) (hphase : r.phase = .streaming body)
    (hread : b.readBody body max world = (answer, body', world')) :
    answer.piece = (⟨r.position, r.position + answer.piece.length⟩ : Span).cut content ∧
      ∃ slice rest, r.pending = slice :: rest ∧ held body' ((⟨r.position + answer.piece.length,
        slice.logicalStart + slice.range.stop⟩ : Span).cut content) := by
  obtain ⟨slice, rest, hpending, hheld⟩ := h body hphase
  obtain ⟨-, left, hleft, hheld'⟩ := hb.read hsound hheld hread
  obtain ⟨hpiece, rfl⟩ := Span.eq_cut_of_append (hplaced.position_le hslicing hpending) hleft
  exact ⟨hpiece, slice, rest, hpending, hheld'⟩

variable {max : Nat} {world : σ} {notes : List Exchange} {turn : Turn β σ}

/-- Every step hands out the bytes between the positions before and after it. -/
theorem acts (hb : b.Serves object sound held) (hobject : ∀ c ∈ chunks, object c.remoteRef = c.span.cut content)
    (hslicing : Slicing chunks wanted slices) (hplaced : Placed chunks slices wanted room r)
    (hacts : Acts b max r world notes turn) (hsound : sound world) (h : Carries content held r) :
    Carries content held turn.reader ∧
      Step.output ⟨r, world, notes, turn.answer?⟩ = (⟨r.position, turn.reader.position⟩ : Span).cut content := by
  have hnone : (⟨r.position, r.position⟩ : Span).cut content = [] :=
    Span.cut_of_length_eq_zero (by simp [Span.length]) content
  cases hacts with
  | closing =>
    simp only [Turn.reader, close_reader]
    exact ⟨of_phase (by simp), hnone.symm⟩
  | exhausted hphase | closed _ hphase | failed _ hphase | noChunk _ hphase => exact ⟨h, hnone.symm⟩
  | noSlice | openAbandoned | refused | readAbandoned => exact ⟨of_phase (by simp [Turn.reader]), hnone.symm⟩
  | @opened slice rest c body _ _ _ _ _ hpending hchunk hopen =>
    refine ⟨?_, hnone.symm⟩
    intro body' hphase
    cases hphase
    have hheld := hb.opened ((hb.openChunk hsound hopen).2 body rfl)
    rw [cut_rest hobject hslicing hplaced hpending hchunk] at hheld
    exact ⟨slice, rest, hpending, hheld⟩
  | idled _ hphase hread =>
    refine ⟨?_, hnone.symm⟩
    intro body' hphase'
    cases hphase'
    exact (piece_eq hb hslicing hplaced h hsound hphase hread).2
  | @delivered _ _ _ piece _ hphase hread _ =>
    obtain ⟨hpiece, slice, rest, hpending, hheld⟩ := piece_eq hb hslicing hplaced h hsound hphase hread
    have hposition (body : β) : (r.accept body piece).position = r.position + piece.length := by
      simp only [accept, position, Nat.add_assoc]
    constructor
    · intro body'' hphase'
      cases hphase'
      refine ⟨slice, rest, hpending, ?_⟩
      rw [Turn.reader, hposition]
      exact hheld
    · rw [Turn.reader, hposition]
      exact hpiece
  | broke => exact ⟨of_phase (r.answerBroken_not_streaming b _ _), hnone.symm⟩
  | advanced => exact ⟨of_phase r.advance_not_streaming, hnone.symm⟩

section

variable (hb : b.Serves object sound held) (hbounded : b.Bounded sound room)
variable (hobject : ∀ c ∈ chunks, object c.remoteRef = c.span.cut content) (hslicing : Slicing chunks wanted slices)
include hb hbounded hobject hslicing

theorem path {steps : List (Step σ β)} {r' : Reader β} (hpath : Path b r steps r')
    (hsound : ∀ step ∈ steps, sound step.world) (hplaced : Placed chunks slices wanted room r)
    (h : Carries content held r) :
    Carries content held r' ∧
      steps.flatMap Step.output = (⟨r.position, r'.position⟩ : Span).cut content := by
  induction hpath with
  | nil r => exact ⟨h, (Span.cut_of_length_eq_zero (by simp [Span.length]) content).symm⟩
  | turn hacts hpath ih =>
    obtain ⟨hworld, hsteps⟩ := List.forall_mem_cons.1 hsound
    obtain ⟨hnext, houtput⟩ := h.acts hb hobject hslicing hplaced hacts hworld
    obtain ⟨hlast, hrest⟩ := ih hsteps (hplaced.acts hbounded hslicing hacts hworld) hnext
    refine ⟨hlast, ?_⟩
    rw [List.flatMap_cons, houtput, hrest]
    exact Span.cut_append hacts.position_le hpath.position_le content
  | close hpath ih =>
    exact ih (List.forall_mem_cons.1 hsound).2 hplaced.close (of_phase (by simp))

/-! ### Single reads -/

/-- The step that answers a read stands where the steps before it have led, without handing anything out. -/
private theorem last (hplaced : Placed chunks slices wanted room r) (h : Carries content held r) (hsound : sound world)
    {result : Except Failure (Option Bytes)} {r' : Reader β} {world' : σ}
    (hnext : r.next b max world = (result, r', world')) :
    ∃ (r₁ : Reader β) (world₁ : σ) (notes : List Exchange), sound world₁ ∧ r₁.delivered = r.delivered ∧
      Carries content held r₁ ∧ Placed chunks slices wanted room r₁ ∧
      Acts b max r₁ world₁ notes (.answered result r' world') := by
  have hreads := r.reads_steps b max world
  rw [hnext] at hreads
  obtain ⟨init, step, hsteps, hpath, hacts, -, hsilent⟩ := hreads.last
  have hworlds := hb.toKeeps.reads hreads hsound
  have hinit : ∀ step' ∈ init, sound step'.world := fun step' hstep => hworlds step' (by simp [hsteps, hstep])
  have houtput : init.flatMap Step.output = [] := by
    rw [List.flatMap_eq_nil_iff]
    intro step' hstep
    simp only [Step.output, hsilent step' hstep]
  have hdelivered : step.reader.delivered = r.delivered := by
    simpa [houtput] using hpath.delivered_eq.1
  exact ⟨step.reader, step.world, step.notes, hworlds step (by simp [hsteps]), hdelivered,
    (h.path hb hbounded hobject hslicing hpath hinit hplaced).1, hplaced.path hbounded hslicing hpath hinit, hacts⟩

theorem piece_of_next (hplaced : Placed chunks slices wanted room r) (h : Carries content held r) (hsound : sound world)
    {piece : Bytes} {r' : Reader β} {world' : σ} (hnext : r.next b max world = (.ok (some piece), r', world')) :
    piece ≠ [] ∧ piece.length ≤ Nat.max max 1 := by
  obtain ⟨r₁, world₁, notes, hworld, -, hcarries, -, hacts⟩ :=
    h.last hb hbounded hobject hslicing hplaced hsound hnext
  cases hacts with
  | delivered _ hphase hread hpiece =>
    obtain ⟨slice, rest, -, hheld⟩ := hcarries _ hphase
    obtain ⟨hlength, -⟩ := hb.read hworld hheld hread
    exact ⟨hpiece, Nat.le_trans hlength (Nat.max_le.2 ⟨Nat.min_le_right _ _, Nat.le_max_right _ _⟩)⟩

theorem whole_of_next (hplaced : Placed chunks slices wanted room r) (h : Carries content held r) (hsound : sound world)
    {r' : Reader β} {world' : σ} (hnext : r.next b max world = (.ok none, r', world')) :
    r.delivered = wanted.length := by
  obtain ⟨r₁, world₁, notes, -, hdelivered, -, hplaced', hacts⟩ :=
    h.last hb hbounded hobject hslicing hplaced hsound hnext
  cases hacts with
  | exhausted hphase => rw [← hdelivered, hplaced'.whole hphase, hplaced'.requested]

end

end Carries

end Reader

/-! ### Readers of ranges -/

variable {content : Bytes} {object : String → Bytes} {sound : σ → Prop} {held : β → Bytes → Prop} {b : Backend σ β}

/-- A reader of a range hands out the bytes of the range from its first on, however the calls and their failures
alternate: nothing twice, nothing left out, and nothing from beyond the range.  Each piece holds a byte at least, and no
more bytes than were asked for; the end is told only after the last byte. -/
theorem ChunkedObject.rangeRead_delivers {o : ChunkedObject} {request : RangeRequest} {wanted : Span} {world₀ : σ}
    {r : Reader β} (hb : b.Serves object sound held)
    (hobject : ∀ c ∈ o.chunks, object c.remoteRef = c.span.cut content)
    (hwanted : request.resolve o.totalSize = .ok wanted) (hread : o.rangeRead b request world₀ = .ok r)
    (uses : List (Use σ)) (hsound : ∀ use ∈ uses, sound use.world) :
    let n := (r.output b uses).length
    r.output b uses = (⟨wanted.start, wanted.start + n⟩ : Span).cut content ∧ n ≤ wanted.length ∧
      (r.after b uses).position = wanted.start + n ∧ (r.after b uses).remaining = wanted.length - n ∧
      ∀ max world, sound world →
        (∀ piece, ((r.after b uses).next b max world).1 = .ok (some piece) →
          piece ≠ [] ∧ piece.length ≤ Nat.max max 1) ∧
        (((r.after b uses).next b max world).1 = .ok none → n = wanted.length) := by
  obtain ⟨wanted', slices, hwanted', rfl, hslicing, -⟩ := slicing_of_rangeRead hread
  obtain rfl : wanted = wanted' := by
    rw [hwanted] at hwanted'
    exact Except.ok.inj hwanted'
  have hsteps := hb.toKeeps.history (.ofSlices o.chunks slices wanted) hsound
  have hpath := Reader.history_path (.ofSlices o.chunks slices wanted) b uses
  have hfirst := Reader.Placed.ofSlices (Backend.roomOf held) hslicing
  have hplaced := hfirst.path hb.bounded hslicing hpath hsteps
  obtain ⟨hcarries, houtput⟩ :=
    (Reader.Carries.ofSlices o.chunks slices wanted).path hb hb.bounded hobject hslicing hpath hsteps
    hfirst
  obtain ⟨hdelivered, hstart, hrequested⟩ := hpath.delivered_eq
  rw [Reader.output_history] at houtput hdelivered
  have hcount : (Reader.after b uses (.ofSlices o.chunks slices wanted)).delivered =
      (Reader.output b uses (.ofSlices o.chunks slices wanted)).length := by
    simpa [Reader.ofSlices] using hdelivered
  have hposition : (Reader.after b uses (.ofSlices o.chunks slices wanted)).position =
      wanted.start + (Reader.output b uses (.ofSlices o.chunks slices wanted)).length := by
    rw [Reader.position, hcount, hplaced.start]
  refine ⟨?_, ?_, hposition, ?_, ?_⟩
  · rwa [hposition] at houtput
  · rw [← hcount]
    exact hplaced.delivered_le hslicing
  · rw [Reader.remaining, hcount, hplaced.requested]
  · intro max world hworld
    rcases hnext : (Reader.after b uses (.ofSlices o.chunks slices wanted)).next b max world with ⟨result, r', world'⟩
    constructor
    · rintro piece rfl
      exact hcarries.piece_of_next hb hb.bounded hobject hslicing hplaced hworld hnext
    · rintro rfl
      rw [← hcount]
      exact hcarries.whole_of_next hb hb.bounded hobject hslicing hplaced hworld hnext

theorem ChunkedObject.rangeRead_delivers_twoChunks :
    let b := Rehearsal.backend 0 ⟨2, .ofSeconds 1, 3⟩
    let r := Rehearsal.middle
    let uses := [.next 2 Rehearsal.broken, .next 0 Rehearsal.broken, .read 9 Rehearsal.broken, .close Rehearsal.broken]
    let n := (r.output b uses).length
    Rehearsal.twoChunks.rangeRead b ⟨1, .bytes 3⟩ Rehearsal.broken = .ok r ∧
      r.output b uses = (⟨1, 1 + n⟩ : Span).cut [10, 20, 30, 40, 50] ∧ n ≤ 3 ∧ (r.after b uses).position = 1 + n := by
  intro b r uses n
  have hread : Rehearsal.twoChunks.rangeRead b ⟨1, .bytes 3⟩ Rehearsal.broken = .ok r := Rehearsal.rangeRead_middle _
  have hobject : ∀ c ∈ Rehearsal.twoChunks.chunks,
      (Rehearsal.broken.objects.lookup c.remoteRef).getD [] = c.span.cut [10, 20, 30, 40, 50] := by decide
  obtain ⟨houtput, hle, hposition, -⟩ := rangeRead_delivers (Rehearsal.backend_serves 0 _ Rehearsal.broken.objects)
    hobject (show (⟨1, .bytes 3⟩ : RangeRequest).resolve Rehearsal.twoChunks.totalSize = .ok ⟨1, 4⟩ by rfl) hread uses
    (by simp [uses, Use.world])
  exact ⟨hread, houtput, hle, hposition⟩

end ChunkedStorage
