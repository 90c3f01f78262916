import ChunkedStorage.Proofs.Reader.Delivery
import ChunkedStorage.Reader.Copy

/-!
# Reads that nothing breaks

A backend is flawless when every chunk can be opened and every body delivers its span to the end
(`Backend.Flawless`).  A reader then never fails (`Reader.Fine.reads`), and a copy of a range is the whole range
(`Reader.Fine.copyTo`).
-/

namespace ChunkedStorage

variable {σ β τ : Type}

/-! ### Backends without failures -/

/-- Chunks can be opened, and bodies give a piece as long as they hold bytes that they were announced to have. -/
structure Backend.Flawless (b : Backend σ β) (chunks : List Chunk) (object : String → Bytes) (sound : σ → Prop)
    (held : β → Bytes → Prop) (announced : β → Nat → Prop) : Prop extends b.Serves object sound held where
  bounded : b.Bounded sound announced
  live : ∀ {world}, sound world → b.isClosed world = false
  opens : ∀ {c s world}, sound world → c ∈ chunks → s.start ≤ s.stop → s.stop ≤ c.length →
    ∃ body world', b.openChunk c s world = (.done (.ok body), world')
  gives : ∀ {body left max world}, sound world → held body left → announced body left.length →
    ∃ delivery body' world', b.readBody body max world = (.done delivery, body', world') ∧
      (left = [] ∧ delivery = .ok none ∨ ∃ piece, piece ≠ [] ∧ delivery = .ok (some piece))

/-- A sink that takes all that is written to it. -/
structure Sink.TakesAll (sink : Sink τ) (taken : τ → Bytes) : Prop where
  write : ∀ bytes target, ∃ target', sink.write bytes target = (.ok (), target') ∧ taken target' = taken target ++ bytes
  flush : ∀ target, ∃ target', sink.flush target = (.ok (), target') ∧ taken target' = taken target

namespace Reader

/-! ### Readers that go on -/

/-- A reader that has its place, and is neither closed nor has given up. -/
structure Fine (content : Bytes) (chunks : List Chunk) (slices : List ChunkSlice) (wanted : Span)
    (held : β → Bytes → Prop) (announced : β → Nat → Prop) (r : Reader β) : Prop where
  placed : Placed chunks slices wanted announced r
  carries : Carries content held r
  not_closed : r.phase ≠ .closed
  not_failed : ∀ index, r.phase ≠ .failed index

theorem nextRetrying_of_ok {b : Backend σ β} {max : Nat} {r r' : Reader β} {world world' : σ} {piece? : Option Bytes}
    (h : r.next b max world = (.ok piece?, r', world')) : r.nextRetrying b max world = (.ok piece?, r', world') := by
  unfold nextRetrying
  split
  · next hfailure =>
    rw [h] at hfailure
    cases hfailure
  · next hnext =>
    rw [h] at hnext
    cases hnext
    rfl

namespace Fine

variable {content : Bytes} {object : String → Bytes} {sound : σ → Prop} {held : β → Bytes → Prop}
variable {announced : β → Nat → Prop} {b : Backend σ β}
variable {chunks : List Chunk} {slices : List ChunkSlice} {wanted : Span} {r : Reader β}

theorem ofSlices (hslicing : Slicing chunks wanted slices) :
    Fine content chunks slices wanted held announced (.ofSlices chunks slices wanted) where
  placed := .ofSlices announced hslicing
  carries := .ofSlices chunks slices wanted
  not_closed := by
    simp only [Reader.ofSlices]
    split <;> simp
  not_failed := by
    intro index
    simp only [Reader.ofSlices]
    split <;> simp

/-- An open body has exactly the rest of the front slice. -/
private theorem left (hslicing : Slicing chunks wanted slices) (hcontent : wanted.stop ≤ content.length)
    (h : Fine content chunks slices wanted held announced r) {body : β} (hphase : r.phase = .streaming body) :
    ∃ left, held body left ∧ announced body left.length ∧ left.length = r.frontLength - r.sliceDelivered := by
  obtain ⟨slice, rest, hpending, hheld⟩ := h.carries body hphase
  have hfront := frontLength_of_cons hpending
  have hposition := h.placed.position_eq hslicing hpending
  have hstop : slice.logicalStart + slice.range.stop ≤ wanted.stop := by
    obtain ⟨front, hslices, -⟩ := h.placed.dropped
    exact hslicing.stop_le (by simp [hslices, hpending])
  have hlength : ((⟨r.position, slice.logicalStart + slice.range.stop⟩ : Span).cut content).length =
      r.frontLength - r.sliceDelivered := by
    rw [Span.length_cut_of_stop_le (Nat.le_trans hstop hcontent), hposition, hfront]
    simp only [Span.length]
    omega
  refine ⟨_, hheld, ?_, hlength⟩
  rw [hlength]
  exact h.placed.body body hphase

variable {max : Nat} {world : σ} {notes : List Exchange} {turn : Turn β σ}

/-- What an open body answers. -/
private theorem answer (hb : b.Flawless chunks object sound held announced) (hslicing : Slicing chunks wanted slices)
    (hcontent : wanted.stop ≤ content.length) (hsound : sound world)
    (h : Fine content chunks slices wanted held announced r) {body : β} (hphase : r.phase = .streaming body) :
    ∃ delivery body' world', b.readBody body (r.demand max) world = (.done delivery, body', world') ∧
      (delivery = .ok none ∧ r.frontLength ≤ r.sliceDelivered ∨ ∃ piece, piece ≠ [] ∧ delivery = .ok (some piece)) := by
  obtain ⟨left, hheld, hannounced, hlength⟩ := h.left hslicing hcontent hphase
  obtain ⟨delivery, body', world', hread, hdelivery⟩ := hb.gives hsound hheld hannounced
  refine ⟨delivery, body', world', hread, ?_⟩
  rcases hdelivery with ⟨rfl, hnone⟩ | hpiece
  · refine .inl ⟨hnone, ?_⟩
    rw [List.length_nil] at hlength
    omega
  · exact .inr hpiece

private theorem front_opens (hb : b.Flawless chunks object sound held announced)
    (hslicing : Slicing chunks wanted slices) (hsound : sound world)
    (h : Fine content chunks slices wanted held announced r)
    {slice : ChunkSlice} {rest : List ChunkSlice} (hpending : r.pending = slice :: rest) :
    ∃ c body world', r.chunks[slice.index]? = some c ∧
      b.openChunk c (r.rest slice) world = (.done (.ok body), world') := by
  obtain ⟨c, hc, -, hle, hstop⟩ := h.placed.chunk_of_pending hslicing hpending
  have hinside := h.placed.inside
  rw [frontLength_of_cons hpending] at hinside
  have hspan : (r.rest slice).start ≤ (r.rest slice).stop := by
    simp only [Reader.rest]
    omega
  obtain ⟨body, world', hopen⟩ := hb.opens hsound (List.mem_of_getElem? hc) hspan hstop
  exact ⟨c, body, world', by rw [h.placed.chunks, hc], hopen⟩

section

variable (hb : b.Flawless chunks object sound held announced)
variable (hobject : ∀ c ∈ chunks, object c.remoteRef = c.span.cut content) (hslicing : Slicing chunks wanted slices)
variable (hcontent : wanted.stop ≤ content.length)
include hb hobject hslicing hcontent

/-- No step fails. -/
theorem acts (hacts : Acts b max r world notes turn) (hsound : sound world)
    (h : Fine content chunks slices wanted held announced r) :
    Fine content chunks slices wanted held announced turn.reader ∧
      ∀ result, turn.answer? = some result → ∃ piece?, result = .ok piece? := by
  have hplaced := h.placed.acts hb.bounded hslicing hacts hsound
  have hcarries := (h.carries.acts hb.toServes hobject hslicing h.placed hacts hsound).1
  have hlive := hb.live hsound
  cases hacts with
  | closing hclosed =>
    rw [hlive] at hclosed
    cases hclosed
  | exhausted hphase => exact ⟨h, by simp [Turn.answer?]⟩
  | closed _ hphase => exact absurd hphase h.not_closed
  | failed _ hphase => exact absurd hphase (h.not_failed _)
  | noSlice => exact ⟨⟨hplaced, hcarries, by simp [Turn.reader], by simp [Turn.reader]⟩, by simp [Turn.answer?]⟩
  | noChunk _ _ hpending hchunk =>
    obtain ⟨c, body, world', hc, -⟩ := front_opens hb hslicing hsound h hpending
    rw [hchunk] at hc
    cases hc
  | openAbandoned _ _ hpending hchunk hopen | refused _ _ hpending hchunk hopen =>
    obtain ⟨c, body, world', hc, hopens⟩ := front_opens hb hslicing hsound h hpending
    rw [hchunk] at hc
    cases hc
    rw [hopens] at hopen
    cases hopen
  | opened => exact ⟨⟨hplaced, hcarries, by simp [Turn.reader], by simp [Turn.reader]⟩, by simp [Turn.answer?]⟩
  | readAbandoned _ hphase hread | idled _ hphase hread =>
    obtain ⟨delivery, body', world', hanswer, hdelivery⟩ := answer hb hslicing hcontent hsound h hphase
    rw [hread] at hanswer
    rcases hdelivery with ⟨rfl, -⟩ | ⟨piece, hpiece, rfl⟩
    · cases hanswer
    · cases hanswer <;> exact absurd rfl hpiece
  | delivered =>
    exact ⟨⟨hplaced, hcarries, by simp [Turn.reader, accept], by simp [Turn.reader, accept]⟩, by simp [Turn.answer?]⟩
  | broke _ hphase hread hfault =>
    -- an end comes at the end of the slice only
    obtain ⟨delivery, body', world', hanswer, hdelivery⟩ := answer hb hslicing hcontent hsound h hphase
    rw [hread] at hanswer
    cases hanswer
    rcases hdelivery with ⟨rfl, hwhole⟩ | ⟨piece, -, rfl⟩
    · simp only [breakage?, if_neg (Nat.not_lt.2 hwhole)] at hfault
      cases hfault
    · cases hfault
  | advanced =>
    refine ⟨⟨hplaced, hcarries, ?_, ?_⟩, by simp [Turn.answer?]⟩
    · simp only [Turn.reader, advance]
      split <;> simp
    · intro index
      simp only [Turn.reader, advance]
      split <;> simp

/-- No read fails. -/
theorem reads {steps : List (Step σ β)} {outcome : Except Failure (Option Bytes) × Reader β × σ}
    (hreads : Reads b max r world steps outcome) (hsound : sound world)
    (h : Fine content chunks slices wanted held announced r) :
    Fine content chunks slices wanted held announced outcome.2.1 ∧ sound outcome.2.2 ∧
      ∃ piece?, outcome.1 = .ok piece? := by
  induction hreads with
  | answered hacts =>
    obtain ⟨hfine, hanswer⟩ := h.acts hb hobject hslicing hcontent hacts hsound
    exact ⟨hfine, hb.toKeeps.acts hacts hsound, hanswer _ rfl⟩
  | going hacts _ ih =>
    exact ih (hb.toKeeps.acts hacts hsound) (h.acts hb hobject hslicing hcontent hacts hsound).1

/-- A read gives the next bytes, or the range is exhausted. -/
theorem next (max : Nat) (hsound : sound world) (h : Fine content chunks slices wanted held announced r) :
    ∃ r' world', Fine content chunks slices wanted held announced r' ∧ sound world' ∧
      (r.next b max world = (.ok none, r', world') ∧ r.delivered = wanted.length ∨
        ∃ piece, r.next b max world = (.ok (some piece), r', world') ∧ piece ≠ [] ∧
          r'.delivered = r.delivered + piece.length ∧
          piece = (⟨r.position, r'.position⟩ : Span).cut content) := by
  have hreads := r.reads_steps b max world
  obtain ⟨hfine, hsound', piece?, hanswer⟩ := h.reads hb hobject hslicing hcontent hreads hsound
  obtain ⟨-, houtput⟩ := h.carries.path hb.toServes hb.bounded hobject hslicing hreads.path
    (hb.toKeeps.reads hreads hsound) h.placed
  have hdelivered := hreads.path.delivered_eq.1
  rw [hreads.output, hanswer] at houtput
  rw [hreads.output, hanswer] at hdelivered
  refine ⟨_, _, hfine, hsound', ?_⟩
  cases piece? with
  | none =>
    have hnext : r.next b max world = (.ok none, (r.next b max world).2.1, (r.next b max world).2.2) := by
      rw [← hanswer]
    exact .inl ⟨hnext, h.carries.whole_of_next hb.toServes hb.bounded hobject hslicing h.placed hsound hnext⟩
  | some piece =>
    have hnext : r.next b max world = (.ok (some piece), (r.next b max world).2.1, (r.next b max world).2.2) := by
      rw [← hanswer]
    refine .inr ⟨piece, hnext, ?_, hdelivered, houtput⟩
    exact (h.carries.piece_of_next hb.toServes hb.bounded hobject hslicing h.placed hsound hnext).1

/-! ### Copies -/

/-- A copy is the rest of the range, behind what was written before. -/
private theorem copyFor {sink : Sink τ} {taken : τ → Bytes} (hsink : sink.TakesAll taken) {fuel : Nat} (written : Nat)
    (hfuel : wanted.length - r.delivered < fuel) (target : τ) (hsound : sound world)
    (h : Fine content chunks slices wanted held announced r) :
    ∃ r' world' target', Reader.copyFor b sink fuel written r world target =
        (.ok (written + (wanted.length - r.delivered)), r', world', target') ∧
      taken target' = taken target ++ (⟨r.position, wanted.start + wanted.length⟩ : Span).cut content := by
  induction fuel generalizing r written target world with
  | zero => omega
  | succ fuel ih =>
    have hle := h.placed.delivered_le hslicing
    obtain ⟨r₁, world₁, hfine, hsound₁, hnext⟩ := h.next hb hobject hslicing hcontent readSize hsound
    -- a piece holds a byte at least, and so the fuel lasts
    rcases hnext with ⟨hnext, hwhole⟩ | ⟨piece, hnext, hpiece, hdelivered, hcut⟩
    · obtain ⟨target', hflush, htaken⟩ := hsink.flush target
      refine ⟨r₁, world₁, target', ?_, ?_⟩
      · simp only [Reader.copyFor, nextRetrying_of_ok hnext, copyFor.finish, hflush]
        rw [hwhole, Nat.sub_self, Nat.add_zero]
      · have hnone : (⟨r.position, wanted.start + wanted.length⟩ : Span).length = 0 := by
          rw [Span.length, position, h.placed.start, hwhole, Nat.sub_self]
        rw [htaken, Span.cut_of_length_eq_zero hnone, List.append_nil]
    · obtain ⟨target₁, hwrite, htaken₁⟩ := hsink.write piece target
      have hpositive := List.length_pos_iff.2 hpiece
      have hle₁ := hfine.placed.delivered_le hslicing
      obtain ⟨r', world', target', hcopy, htaken⟩ := ih (written + piece.length) (by omega) target₁ hsound₁ hfine
      refine ⟨r', world', target', ?_, ?_⟩
      · simp only [Reader.copyFor, nextRetrying_of_ok hnext, hwrite, hcopy]
        rw [hdelivered, show written + piece.length + (wanted.length - (r.delivered + piece.length)) =
          written + (wanted.length - r.delivered) by omega]
      · have hplace : r₁.position = r.position + piece.length := by
          rw [position, position, hfine.placed.start, h.placed.start, hdelivered, Nat.add_assoc]
        rw [htaken, htaken₁, hcut, List.append_assoc, Span.cut_append]
        · omega
        · rw [position, hfine.placed.start]
          omega

/-- A copy of a range that nothing was read of is the whole range. -/
theorem copyTo {sink : Sink τ} {taken : τ → Bytes} (hsink : sink.TakesAll taken) (target : τ) (hsound : sound world) :
    ∃ r' world' target', (Reader.ofSlices chunks slices wanted : Reader β).copyTo b sink world target =
        (.ok wanted.length, r', world', target') ∧ taken target' = taken target ++ wanted.cut content := by
  have hfuel : wanted.length - (Reader.ofSlices chunks slices wanted : Reader β).delivered <
      (Reader.ofSlices chunks slices wanted : Reader β).remaining + 1 := Nat.lt_succ_self _
  obtain ⟨r', world', target', hcopy, htaken⟩ :=
    copyFor hb hobject hslicing hcontent hsink 0 hfuel target hsound (.ofSlices hslicing)
  refine ⟨r', world', target', ?_, ?_⟩
  · rw [Reader.copyTo, hcopy, Nat.zero_add]
    rfl
  · rw [htaken]
    simp [Reader.ofSlices, position, Span.cut, Span.length]

end

end Fine

end Reader

end ChunkedStorage
