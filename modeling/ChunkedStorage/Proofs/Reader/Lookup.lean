import ChunkedStorage.Proofs.Reader.Failures

/-!
# Reads through a handle

A handle is made only for a listing that is the layout of its file (`ChunkedObject.Made`), so that nothing can be wrong
with the layout in a read later on: a range that can be resolved can be read, and every slice of a reader leads back to
the chunk that it was cut from (`ChunkedObject.rangeRead_of_made`).
-/

namespace ChunkedStorage

variable {σ β : Type}

/-! ### Steps that look a chunk up -/

namespace Reader

variable {b : Backend σ β} {r r' : Reader β}

/-- Every slice that is not delivered leads to a chunk. -/
def Found (r : Reader β) : Prop := ∀ slice ∈ r.pending, ∃ c, r.chunks[slice.index]? = some c

private theorem Acts.not_corrupted {max : Nat} {world : σ} {notes : List Exchange} {turn : Turn β σ}
    (h : Acts b max r world notes turn) (hfound : r.Found) (fault : LayoutFault) :
    turn.answer? ≠ some (.error (.layoutCorrupted fault)) := by
  intro hanswer
  cases h with
  | noChunk _ _ hpending hnone =>
    obtain ⟨c, hchunk⟩ := hfound _ (by rw [hpending]; exact List.mem_cons_self)
    rw [hchunk] at hnone
    cases hnone
  | refused _ _ _ _ hopen =>
    -- a chunk that cannot be opened is no fault of the layout
    obtain ⟨fault', attempts, rfl⟩ := b.openFrom_failure hopen
    cases fault' <;> cases hanswer
  | _ => cases hanswer

/-- All slices of a reader still lead to chunks where it drops some of them and keeps the listing. -/
private theorem Found.of_keeps (h : r.Found) (hkeeps : r'.chunks = r.chunks ∧ r'.pending <:+ r.pending) :
    r'.Found := by
  intro slice hslice
  rw [hkeeps.1]
  exact h slice (hkeeps.2.subset hslice)

/-- Where all slices lead to chunks, no step ever tells of a corrupted layout. -/
theorem Path.not_corrupted {steps : List (Step σ β)} (h : Path b r steps r') (hfound : r.Found)
    (fault : LayoutFault) : ∀ step ∈ steps, step.answer? ≠ some (.error (.layoutCorrupted fault)) := by
  induction h with
  | nil => simp
  | turn hacts _ ih =>
    have hfirst := hacts.not_corrupted hfound fault
    exact List.forall_mem_cons.2 ⟨hfirst, ih (hfound.of_keeps hacts.keeps)⟩
  | close _ ih => exact List.forall_mem_cons.2 ⟨by simp, ih hfound⟩

end Reader

/-! ### Handles -/

namespace ChunkedObject

/-- The handle was made for a listing, or for a recorded file that has this listing. -/
inductive Made (totalSize : Nat) (chunks : List Chunk) (o : ChunkedObject) : Prop where
  | created (h : create totalSize chunks = .ok o)
  | opened {μ : Type} {store : MetadataStore μ} {id : Nat} {world : μ} {file : LogicalFile}
      (hfile : store.file? id world = .ok (some file)) (htotal : file.totalSize = totalSize)
      (hlist : store.list id world = .ok chunks) (h : ofMetadata store id world = .ok o)

variable {totalSize : Nat} {chunks : List Chunk} {o : ChunkedObject}

private theorem eq_of_create (h : create totalSize chunks = .ok o) : o.totalSize = totalSize ∧ o.chunks = chunks := by
  unfold create at h
  split at h
  · cases h
  · cases h
    exact ⟨rfl, rfl⟩

theorem Made.eq (h : o.Made totalSize chunks) : o.totalSize = totalSize ∧ o.chunks = chunks := by
  cases h with
  | created h => exact eq_of_create h
  | opened hfile htotal hlist h =>
    simp only [ofMetadata, hfile, hlist, htotal] at h
    split at h
    · cases h
    · exact eq_of_create h

/-! ### Readers of handles -/

variable {b : Backend σ β} {request : RangeRequest} {wanted : Span} {world : σ} {r : Reader β}

/-- The slices of a reader are cut from the chunks that their indices lead to. -/
private theorem cut_of_rangeRead (h : o.rangeRead b request world = .ok r)
    (hresolve : request.resolve o.totalSize = .ok wanted) :
    r.chunks = o.chunks ∧
      ∀ slice ∈ r.pending, ∃ c, o.chunks[slice.index]? = some c ∧ slice = .ofChunk wanted slice.position c := by
  obtain ⟨wanted', slices, hresolve', rfl, -, hmap⟩ := slicing_of_rangeRead h
  obtain rfl : wanted' = wanted := Except.ok.inj (hresolve'.symm.trans hresolve)
  refine ⟨rfl, ?_⟩
  intro slice hslice
  simp only [Reader.ofSlices] at hslice
  rcases hmap with rfl | hmap
  · cases hslice
  · rw [eq_slicesFrom_of_mapRange hresolve hmap] at hslice
    obtain ⟨c, hc, hcut⟩ := exists_of_mem_slicesFrom hslice
    have hindex : slice.index = c.index := by
      rw [hcut]
      rfl
    rw [hindex]
    exact ⟨c, Listing.getElem?_index o.verify_chunks (List.mem_filter.1 hc).1, hcut⟩

private theorem isExhausted_of_rangeRead (h : o.rangeRead b request world = .ok r)
    (hresolve : request.resolve o.totalSize = .ok wanted) : r.isExhausted = true ↔ wanted.length = 0 := by
  obtain ⟨wanted', slices, hresolve', rfl, hslicing, -⟩ := slicing_of_rangeRead h
  obtain rfl : wanted' = wanted := Except.ok.inj (hresolve'.symm.trans hresolve)
  have hempty : wanted'.isEmpty = true ↔ wanted'.length = 0 := by
    simp only [Span.isEmpty, decide_eq_true_eq, Span.length]
    omega
  simp only [Reader.isExhausted, Reader.ofSlices]
  split
  · next hnone =>
    refine iff_of_true rfl ?_
    rcases Bool.or_eq_true_iff.1 hnone with hwanted | hnil
    · exact hempty.1 hwanted
    · exact hslicing.empty (List.isEmpty_iff.1 hnil)
  · next hsome =>
    refine iff_of_false Bool.false_ne_true fun hwanted => hsome ?_
    rw [hempty.2 hwanted, Bool.true_or]

/-- While its handle is open, a range can be read exactly if it can be resolved, and is invalid else; whatever the
resolver and the transport would answer has no part in it.  The reader is exhausted from the start exactly if the range
is empty.  However it is used, all slices that it still has to deliver lead to the chunks of the listing that they were
cut from, and it never tells of a corrupted layout. -/
theorem rangeRead_of_made (hmade : o.Made totalSize chunks) (b : Backend σ β) (request : RangeRequest) {world : σ}
    (hlive : b.isClosed world = false) :
    ((∃ r, o.rangeRead b request world = .ok r) ↔ ∃ wanted, request.resolve totalSize = .ok wanted) ∧
    (∀ failure, o.rangeRead b request world = .error failure →
      failure = .invalidRange request.start request.length.text totalSize) ∧
    (∀ (σ' : Type) (b' : Backend σ' β) (world' : σ'), b'.isClosed world' = false →
      o.rangeRead b' request world' = o.rangeRead b request world) ∧
    ∀ wanted r, request.resolve totalSize = .ok wanted → o.rangeRead b request world = .ok r →
      (r.isExhausted = true ↔ wanted.length = 0) ∧
      ∀ uses : List (Use σ),
        (∀ step ∈ r.history b uses, (∀ fault, step.answer? ≠ some (.error (.layoutCorrupted fault))) ∧
          step.reader.chunks = chunks ∧ ∀ slice ∈ step.reader.pending, ∃ c,
            step.reader.chunks[slice.index]? = some c ∧ slice = .ofChunk wanted slice.position c) ∧
        ∀ max world fault, ((r.after b uses).next b max world).1 ≠ .error (.layoutCorrupted fault) := by
  obtain ⟨rfl, rfl⟩ := hmade.eq
  refine ⟨⟨?_, ?_⟩, ?_, ?_, ?_⟩
  · rintro ⟨r, hread⟩
    obtain ⟨wanted, -, hresolve, -⟩ := slicing_of_rangeRead hread
    exact ⟨wanted, hresolve⟩
  · rintro ⟨wanted, hresolve⟩
    obtain ⟨slices, hread, -⟩ := rangeRead_slicing hlive hresolve
    exact ⟨_, hread⟩
  · intro failure hread
    cases hresolve : request.resolve o.totalSize with
    | error failure' =>
      simp only [rangeRead, hlive, hresolve, Bool.false_eq_true, if_false, Except.error.injEq] at hread
      rw [← hread]
      exact RangeRequest.resolve_error hresolve
    | ok wanted =>
      obtain ⟨slices, hread', -⟩ := rangeRead_slicing hlive hresolve
      rw [hread'] at hread
      cases hread
  · intro σ' b' world' hlive'
    simp only [rangeRead, hlive, hlive']
  · intro wanted r hresolve hread
    obtain ⟨hchunks, hcut⟩ := cut_of_rangeRead hread hresolve
    have hfound : r.Found := by
      intro slice hslice
      obtain ⟨c, hc, -⟩ := hcut slice hslice
      exact ⟨c, by rwa [hchunks]⟩
    refine ⟨isExhausted_of_rangeRead hread hresolve, ?_⟩
    intro uses
    have hpath := Reader.history_path r b uses
    constructor
    · intro step hstep
      refine ⟨fun fault => hpath.not_corrupted hfound fault step hstep, ?_⟩
      obtain ⟨before, after, hhistory⟩ := List.append_of_mem hstep
      rw [hhistory] at hpath
      obtain ⟨hchunks', hpending⟩ := hpath.split.1.keeps
      rw [hchunks', hchunks]
      exact ⟨rfl, fun slice hslice => hcut slice (hpending.subset hslice)⟩
    · intro max world fault hnext
      have hreads := (r.after b uses).reads_steps b max world
      obtain ⟨init, last, hsteps, -, -, hanswer, -⟩ := hreads.last
      apply hreads.path.not_corrupted (hfound.of_keeps hpath.keeps) fault last (by simp [hsteps])
      rw [hanswer, hnext]

theorem rangeRead_of_made_twoChunks :
    let b := Rehearsal.backend 0 ⟨2, .ofSeconds 1, 3⟩
    Rehearsal.twoChunks.Made 5 Rehearsal.twoChunks.chunks ∧ b.isClosed Rehearsal.broken = false ∧
      ∃ r, Rehearsal.twoChunks.rangeRead b ⟨1, .bytes 3⟩ Rehearsal.broken = .ok r ∧
        ∀ uses max world fault, ((r.after b uses).next b max world).1 ≠ .error (.layoutCorrupted fault) := by
  intro b
  have hmade : Rehearsal.twoChunks.Made 5 Rehearsal.twoChunks.chunks := .created rfl
  have hlive : b.isClosed Rehearsal.broken = false := rfl
  have hresolve : RangeRequest.resolve ⟨1, .bytes 3⟩ 5 = .ok ⟨1, 4⟩ := rfl
  obtain ⟨hread, -, -, hlater⟩ := rangeRead_of_made hmade b ⟨1, .bytes 3⟩ hlive
  obtain ⟨r, hr⟩ := hread.2 ⟨_, hresolve⟩
  obtain ⟨-, huses⟩ := hlater _ r hresolve hr
  exact ⟨hmade, hlive, r, hr, fun uses => (huses uses).2⟩

end ChunkedObject

end ChunkedStorage
