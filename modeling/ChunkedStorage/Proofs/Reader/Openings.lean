import ChunkedStorage.Proofs.Reader.Position
import ChunkedStorage.Proofs.Rehearsal
import Mathlib.Data.List.Chain

/-!
# When and how chunks are opened

A reader turns to a chunk only when all slices before it are delivered, and fetches of it no more than the rest of the
slice in front.  The slices whose chunks are resolved follow one another without a gap (`Path.mayResolve`).
-/

namespace ChunkedStorage

variable {σ β : Type}

/-! ### Calls that open a chunk -/

/-- Whether a call resolves an object or opens it. -/
def Exchange.isOpening : Exchange → Bool
  | .resolved .. | .opened .. => true
  | _ => false

/-- The slices that a step resolves the chunks of, once for each attempt. -/
def Step.resolves (step : Step σ β) : List ChunkSlice :=
  step.notes.filterMap fun
    | .resolved .. => step.reader.pending.head?
    | _ => none

/-- The same slice again, or the one behind it. -/
def ChunkSlice.Follows (s s' : ChunkSlice) : Prop :=
  s' = s ∨ s'.position = s.position + 1 ∧ s'.index = s.index + 1

theorem Slicing.isChain {chunks : List Chunk} {wanted : Span} {slices : List ChunkSlice}
    (h : Slicing chunks wanted slices) : slices.IsChain ChunkSlice.Follows := by
  obtain ⟨first, horder⟩ := h.order
  rw [List.isChain_iff_getElem]
  intro j hj
  obtain ⟨hposition, hindex⟩ := horder j slices[j] (List.getElem?_eq_getElem (by omega))
  obtain ⟨hposition', hindex'⟩ := horder (j + 1) slices[j + 1] (List.getElem?_eq_getElem hj)
  exact .inr ⟨by omega, by omega⟩

namespace Reader

variable {b : Backend σ β} {r r' : Reader β} {max : Nat} {world : σ} {notes : List Exchange} {turn : Turn β σ}

/-! ### What is opened -/

/-- A step that opens anything tries to open what is left of the front slice, and nothing else. -/
theorem Acts.opening (h : Acts b max r world notes turn) (hopening : ∃ e ∈ notes, e.isOpening = true) :
    ∃ slice rest c, r.pending = slice :: rest ∧ r.chunks[slice.index]? = some c ∧
      Backend.Attempts c.remoteRef (r.rest slice) notes := by
  cases h with
  | openAbandoned _ _ hpending hchunk _ hnotes | opened _ _ hpending hchunk _ hnotes
  | refused _ _ hpending hchunk _ hnotes => exact ⟨_, _, _, hpending, hchunk, hnotes⟩
  | closing =>
    unfold closeNotes at hopening
    split at hopening <;> simp [Exchange.isOpening] at hopening
  | exhausted | closed | failed | noSlice | noChunk => simp at hopening
  | readAbandoned | idled | delivered | broke | advanced => simp [Exchange.isOpening] at hopening

theorem Path.opening {step : Step σ β} {after : List (Step σ β)} (h : Path b r (step :: after) r')
    (hopening : ∃ e ∈ step.notes, e.isOpening = true) :
    ∃ slice rest c, r.pending = slice :: rest ∧ r.chunks[slice.index]? = some c ∧
      Backend.Attempts c.remoteRef (r.rest slice) step.notes := by
  cases h with
  | turn hacts _ => exact hacts.opening hopening
  | close _ =>
    simp only [closeNotes] at hopening
    split at hopening <;> simp [Exchange.isOpening] at hopening

/-! ### The order in which chunks are resolved -/

/-- The slices that the reader may turn to next: the one in front, or the one behind it once the front one is open. -/
private def MayResolve (r : Reader β) (slice : ChunkSlice) : Prop :=
  ∃ front rest, r.pending = front :: rest ∧ (slice = front ∨ (∃ body, r.phase = .streaming body) ∧ front.Follows slice)

private theorem resolves_eq {step : Step σ β} {front : ChunkSlice} {rest : List ChunkSlice}
    (hpending : step.reader.pending = front :: rest) : ∃ n, step.resolves = List.replicate n front := by
  refine ⟨step.resolves.length, List.eq_replicate_of_mem ?_⟩
  intro slice hslice
  obtain ⟨e, -, he⟩ := List.mem_filterMap.1 hslice
  cases e <;> simp_all

private theorem resolves_of_nil {step : Step σ β} (hpending : step.reader.pending = []) : step.resolves = [] := by
  refine List.filterMap_eq_nil_iff.2 ?_
  intro e _
  cases e <;> simp [hpending]

/-- A slice that comes next behind a step comes next before it, or right behind the one that the step resolved. -/
private theorem Acts.mayResolve (h : Acts b max r world notes turn) (hpending : r.pending.IsChain ChunkSlice.Follows)
    {slice : ChunkSlice} (hslice : MayResolve turn.reader slice) :
    ∃ front rest, r.pending = front :: rest ∧ front.Follows slice ∧
      (MayResolve r slice ∨ (⟨r, world, notes, turn.answer?⟩ : Step σ β).resolves ≠ []) := by
  -- a step keeps the front slice and leaves no body open, or keeps the body as well
  have again (hphase : ∀ body, turn.reader.phase ≠ .streaming body) (hsame : turn.reader.pending = r.pending) :
      ∃ front rest, r.pending = front :: rest ∧ front.Follows slice ∧ MayResolve r slice := by
    obtain ⟨front, rest, hfront, rfl | ⟨⟨body, hstreaming⟩, -⟩⟩ := hslice
    · exact ⟨slice, rest, hsame ▸ hfront, .inl rfl, slice, rest, hsame ▸ hfront, .inl rfl⟩
    · exact absurd hstreaming (hphase body)
  have still (hphase : ∃ body, r.phase = .streaming body) (hsame : turn.reader.pending = r.pending) :
      ∃ front rest, r.pending = front :: rest ∧ front.Follows slice ∧ MayResolve r slice := by
    obtain ⟨front, rest, hfront, rfl | ⟨-, hfollows⟩⟩ := hslice
    · exact ⟨slice, rest, hsame ▸ hfront, .inl rfl, slice, rest, hsame ▸ hfront, .inl rfl⟩
    · exact ⟨front, rest, hsame ▸ hfront, hfollows, front, rest, hsame ▸ hfront, .inr ⟨hphase, hfollows⟩⟩
  have unresolved (h : ∃ front rest, r.pending = front :: rest ∧ front.Follows slice ∧ MayResolve r slice) :
      ∃ front rest, r.pending = front :: rest ∧ front.Follows slice ∧
        (MayResolve r slice ∨ (⟨r, world, notes, turn.answer?⟩ : Step σ β).resolves ≠ []) := by
    obtain ⟨front, rest, hfront, hfollows, hmay⟩ := h
    exact ⟨front, rest, hfront, hfollows, .inl hmay⟩
  cases h with
  | closing => exact unresolved (again (by simp [Turn.reader]) (by simp [Turn.reader]))
  | exhausted hphase | closed _ hphase | failed _ hphase | noChunk _ hphase =>
    exact unresolved (again (by simp [Turn.reader, hphase]) rfl)
  | noSlice | openAbandoned | refused | readAbandoned => exact unresolved (again (by simp [Turn.reader]) rfl)
  | @opened front rest c body _ _ _ _ _ hfront _ _ _ =>
    obtain ⟨front', rest', hfront', hslice⟩ := hslice
    -- only now may the slice behind the front one come next, and the front one is resolved
    obtain ⟨rfl, rfl⟩ : front = front' ∧ rest = rest' := by simpa [Turn.reader, hfront] using hfront'
    refine ⟨front, rest, hfront, ?_, .inr (by simp [Step.resolves, hfront])⟩
    rcases hslice with rfl | ⟨-, hfollows⟩
    · exact .inl rfl
    · exact hfollows
  | idled _ hphase | delivered _ hphase => exact unresolved (still ⟨_, hphase⟩ rfl)
  | broke => exact unresolved (again (r.answerBroken_not_streaming b _ _) rfl)
  | advanced _ hphase =>
    obtain ⟨front', rest', htail, hslice⟩ := hslice
    obtain rfl : slice = front' := by
      rcases hslice with rfl | ⟨⟨body, hstreaming⟩, -⟩
      · rfl
      · exact absurd hstreaming (r.advance_not_streaming body)
    obtain ⟨front, hfront⟩ : ∃ front, r.pending = front :: slice :: rest' := by
      cases hcons : r.pending with
      | nil => simp [Turn.reader, Reader.advance, hcons] at htail
      | cons front rest =>
        simp only [Turn.reader, Reader.advance, hcons, List.tail_cons] at htail
        exact ⟨front, by rw [htail]⟩
    have hfollows : front.Follows slice := by
      rw [hfront] at hpending
      exact (List.isChain_cons_cons.1 hpending).1
    exact ⟨front, _, hfront, hfollows, .inl ⟨front, _, hfront, .inr ⟨⟨_, hphase⟩, hfollows⟩⟩⟩

/-- The slices that are resolved along a path follow one another, from the front one on. -/
private theorem Path.mayResolve {steps : List (Step σ β)} (h : Path b r steps r')
    (hpending : r.pending.IsChain ChunkSlice.Follows) :
    (steps.flatMap Step.resolves).IsChain ChunkSlice.Follows ∧
      ∀ slice ∈ (steps.flatMap Step.resolves).head?, MayResolve r slice := by
  induction h with
  | nil => simp
  | @turn r r' max world notes turn steps hacts _ ih =>
    obtain ⟨hchain, hhead⟩ := ih (hpending.suffix hacts.keeps.2)
    rw [List.flatMap_cons]
    cases hfront : r.pending with
    | nil =>
      rw [resolves_of_nil hfront, List.nil_append]
      refine ⟨hchain, ?_⟩
      intro slice hslice
      obtain ⟨front, rest, hcons, -⟩ := hacts.mayResolve hpending (hhead slice hslice)
      rw [hfront] at hcons
      cases hcons
    | cons front rest =>
      obtain ⟨n, hn⟩ : ∃ n, (⟨r, world, notes, turn.answer?⟩ : Step σ β).resolves = List.replicate n front :=
        resolves_eq hfront
      -- a step resolves nothing but its front slice, and what is resolved next follows that
      constructor
      · rw [hn]
        refine List.IsChain.append (List.isChain_replicate_of_rel n (.inl rfl)) hchain ?_
        intro x hx slice hslice
        obtain ⟨front', rest', hcons, hfollows, -⟩ := hacts.mayResolve hpending (hhead slice hslice)
        rw [hfront] at hcons
        cases hcons
        rwa [List.eq_of_mem_replicate (List.mem_of_getLast? hx)]
      · intro slice hslice
        cases n with
        | zero =>
          rw [hn, List.replicate_zero, List.nil_append] at hslice
          obtain ⟨-, -, -, -, hmay | hresolves⟩ := hacts.mayResolve hpending (hhead slice hslice)
          · exact hmay
          · exact absurd hn hresolves
        | succ n =>
          rw [hn, List.replicate_succ, List.cons_append, List.head?_cons, Option.mem_some_iff] at hslice
          subst hslice
          exact ⟨front, rest, hfront, .inl rfl⟩
  | @close r r' world steps _ ih =>
    have hnone : (⟨r, world, r.closeNotes, none⟩ : Step σ β).resolves = [] := by
      simp only [Step.resolves, closeNotes]
      split <;> rfl
    rw [List.flatMap_cons, hnone, List.nil_append]
    obtain ⟨hchain, hhead⟩ := ih hpending
    refine ⟨hchain, ?_⟩
    intro slice hslice
    obtain ⟨front, rest, hfront, rfl | ⟨⟨body, hphase⟩, -⟩⟩ := hhead slice hslice
    · exact ⟨slice, rest, hfront, .inl rfl⟩
    · cases hphase

private theorem Path.resolves_subset {steps : List (Step σ β)} (h : Path b r steps r') :
    ∀ slice ∈ steps.flatMap Step.resolves, slice ∈ r.pending := by
  have front_mem (step : Step σ β) : ∀ slice ∈ step.resolves, slice ∈ step.reader.pending := by
    intro slice hslice
    cases hpending : step.reader.pending with
    | nil =>
      rw [resolves_of_nil hpending] at hslice
      cases hslice
    | cons front rest =>
      obtain ⟨n, hn⟩ := resolves_eq hpending
      rw [hn] at hslice
      rw [List.eq_of_mem_replicate hslice]
      exact List.mem_cons_self
  induction h with
  | nil => simp
  | turn hacts _ ih =>
    intro slice hslice
    rw [List.flatMap_cons, List.mem_append] at hslice
    rcases hslice with hslice | hslice
    · exact front_mem _ slice hslice
    · exact hacts.keeps.2.subset (ih slice hslice)
  | close _ ih =>
    intro slice hslice
    rw [List.flatMap_cons, List.mem_append] at hslice
    rcases hslice with hslice | hslice
    · exact front_mem _ slice hslice
    · exact ih slice hslice

end Reader

/-! ### Readers of ranges -/

/-- A reader of a range holds the slices of the range.  Whenever it opens anything, the slices before some slice `j` and
`d` bytes of it are delivered, and every attempt is for what is left of that slice, in the chunk that it is a part of;
this starts at the position of the reader.  From the first slice on, the slices whose chunks are resolved follow one
another, so that none is left out, none comes too early and no other chunk is ever resolved. -/
theorem ChunkedObject.rangeRead_openings {b : Backend σ β} {sound : σ → Prop} {room : β → Nat → Prop}
    {o : ChunkedObject} {request : RangeRequest} {world₀ : σ} {r : Reader β} (hb : b.Bounded sound room)
    (hread : o.rangeRead b request world₀ = .ok r) (uses : List (Use σ)) (hsound : ∀ use ∈ uses, sound use.world) :
    (r.pending = [] ∨ mapRange o.chunks o.totalSize request = .ok r.pending) ∧
    (∀ before step after, r.history b uses = before ++ step :: after → (∃ e ∈ step.notes, e.isOpening = true) →
      ∃ (j d : Nat) (slice : ChunkSlice) (c : Chunk),
        r.pending[j]? = some slice ∧ step.reader.pending.head? = some slice ∧ o.chunks[slice.index]? = some c ∧
        c.index = slice.index ∧ d ≤ slice.length ∧
        (before.flatMap Step.output).length = ((r.pending.take j).map ChunkSlice.length).sum + d ∧
        Backend.Attempts c.remoteRef ⟨slice.range.start + d, slice.range.stop⟩ step.notes ∧
        step.reader.position = c.start + slice.range.start + d) ∧
    ((r.history b uses).flatMap Step.resolves).IsChain ChunkSlice.Follows ∧
    (∀ slice ∈ ((r.history b uses).flatMap Step.resolves).head?, r.pending.head? = some slice) ∧
    ∀ slice ∈ (r.history b uses).flatMap Step.resolves, slice ∈ r.pending := by
  obtain ⟨wanted, slices, -, rfl, hslicing, hmap⟩ := slicing_of_rangeRead hread
  have hsteps := hb.toKeeps.history (.ofSlices o.chunks slices wanted) hsound
  have hpath := Reader.history_path (.ofSlices o.chunks slices wanted) b uses
  have hfirst := Reader.Placed.ofSlices room hslicing
  obtain ⟨hchain, hhead⟩ := hpath.mayResolve hslicing.isChain
  refine ⟨hmap, ?_, hchain, ?_, hpath.resolves_subset⟩
  · intro before step after hhistory hopening
    rw [hhistory] at hpath
    obtain ⟨hbefore, hafter⟩ := hpath.split
    obtain ⟨slice, rest, c, hpending, hchunk, hattempts⟩ := hafter.opening hopening
    have hplaced := hfirst.path hb hslicing hbefore fun step' hstep => hsteps step' (by simp [hhistory, hstep])
    obtain ⟨front, hslices, hdelivered⟩ := hplaced.dropped
    rw [hpending] at hslices
    rw [hplaced.chunks] at hchunk
    obtain ⟨c', hc', hindex, hstart, -⟩ := hslicing.chunk slice (by simp [hslices])
    obtain rfl : c' = c := Option.some.inj (hc'.symm.trans hchunk)
    have hinside := hplaced.inside
    rw [Reader.frontLength_of_cons hpending] at hinside
    have hoffset := hplaced.position_eq hslicing hpending
    have hcount : step.reader.delivered = (before.flatMap Step.output).length := by
      simpa [Reader.ofSlices] using hbefore.delivered_eq.1
    refine ⟨front.length, step.reader.sliceDelivered, slice, c', ?_, by simp [hpending], hc', hindex, hinside, ?_,
      hattempts, ?_⟩
    · simp [Reader.ofSlices, hslices]
    · simp only [Reader.ofSlices, hslices, List.take_left']
      omega
    · omega
  · intro slice hslice
    obtain ⟨front, rest, hpending, rfl | ⟨⟨body, hphase⟩, -⟩⟩ := hhead slice hslice
    · rw [hpending]
      rfl
    · exact absurd hphase (Reader.ofSlices_not_streaming o.chunks slices wanted body)

theorem ChunkedObject.rangeRead_openings_twoChunks :
    let b := Rehearsal.backend 0 ⟨2, .ofSeconds 1, 3⟩
    let r := Rehearsal.middle
    let uses := [.next 2 Rehearsal.broken, .next 2 Rehearsal.broken, .next 2 Rehearsal.broken]
    mapRange Rehearsal.twoChunks.chunks 5 ⟨1, .bytes 3⟩ = .ok r.pending ∧
      ((r.history b uses).flatMap Step.resolves).IsChain ChunkSlice.Follows := by
  intro b r uses
  have hread : Rehearsal.twoChunks.rangeRead b ⟨1, .bytes 3⟩ Rehearsal.broken = .ok r := Rehearsal.rangeRead_middle _
  obtain ⟨-, -, hchain, -⟩ := rangeRead_openings (Rehearsal.backend_serves 0 _ Rehearsal.broken.objects).bounded hread
    uses (by simp [uses, Use.world])
  exact ⟨by rfl, hchain⟩

end ChunkedStorage
