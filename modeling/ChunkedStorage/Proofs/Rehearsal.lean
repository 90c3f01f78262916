import ChunkedStorage.Proofs.Reader.Serving
import ChunkedStorage.Rehearsal

/-!
# Rehearsed reads

Whatever its script says, a rehearsal serves the objects that it keeps in memory (`Rehearsal.backend_serves`).
-/

namespace ChunkedStorage.Rehearsal

variable {handle : Nat} {policy : RetryPolicy}

/-! ### Calls leave the objects alone -/

private theorem objects_resolve (handle : Nat) (ref : String) (r : Rehearsal) :
    (resolve handle ref r).2.objects = r.objects := by
  simp only [resolve]
  split <;> rfl

private theorem objects_openBody (handle : Nat) (location : AccessLocation) (s : Span) (r : Rehearsal) :
    (openBody handle location s r).2.objects = r.objects := by
  simp only [openBody]
  split <;> rfl

private theorem objects_readBody (handle : Nat) (body : RehearsedBody) (max : Nat) (r : Rehearsal) :
    (readBody handle body max r).2.2.objects = r.objects := by
  unfold readBody
  split
  · rfl
  · simp only
    split <;> rfl

/-! ### What bodies deliver -/

private theorem url_of_resolve {ref : String} {location : AccessLocation} {r r' : Rehearsal}
    (h : resolve handle ref r = (.done (.ok (some location)), r')) : location.url = ref := by
  simp only [resolve] at h
  split at h <;> cases h <;> rfl

private theorem left_of_openBody {location : AccessLocation} {s : Span} {body : RehearsedBody} {r r' : Rehearsal}
    (h : openBody handle location s r = (.done (.ok body), r')) :
    body.left.bytes = s.cut ((r.objects.lookup location.url).getD []) := by
  simp only [openBody] at h
  split at h <;> cases h <;> rfl

private theorem readOn_left (body : RehearsedBody) (max : Nat) :
    (Reply.done (readOn body max).1).piece.length ≤ Nat.max max 1 ∧
      body.left.bytes = (Reply.done (readOn body max).1).piece ++ (readOn body max).2.left.bytes := by
  unfold readOn MemoryBody.read
  by_cases hnil : body.left.bytes = []
  · simp [hnil, Reply.piece]
  · simp only [if_neg hnil, Reply.piece, List.take_append_drop, and_true]
    exact List.length_take_le ..

private theorem readBody_left (handle : Nat) (body : RehearsedBody) (max : Nat) (r : Rehearsal) :
    (readBody handle body max r).1.piece.length ≤ Nat.max max 1 ∧
      body.left.bytes = (readBody handle body max r).1.piece ++ (readBody handle body max r).2.1.left.bytes := by
  unfold readBody
  split
  · exact readOn_left body max
  · next action actions _ =>
    cases action with
    | atMost count =>
      obtain ⟨hlength, hleft⟩ := readOn_left { body with actions } (min (Nat.max count 1) (Nat.max max 1))
      exact ⟨Nat.le_trans hlength (Nat.max_le.2 ⟨Nat.min_le_right _ _, Nat.le_max_right _ _⟩), hleft⟩
    | closeThenRead => exact readOn_left { body with actions } max
    | emptyPiece | ending | truncated | broken | closeObject => exact ⟨Nat.zero_le _, rfl⟩

/-- A rehearsal delivers the bytes of its objects, as far as its script lets it. -/
theorem backend_serves (handle : Nat) (policy : RetryPolicy) (objects : List (String × Bytes)) :
    (backend handle policy).Serves (fun ref => (objects.lookup ref).getD []) (fun r => r.objects = objects)
      (fun body left => body.left.bytes = left) where
  pause := fun h => h
  count := fun h => h
  resolve := fun h => (objects_resolve ..).trans h
  openBody := fun h => (objects_openBody ..).trans h
  readBody := fun h => (objects_readBody ..).trans h
  closeBody := fun h => h
  opened := by
    rintro ref s body ⟨r, location, r₁, r₂, hobjects, hresolve, hopen⟩
    have hsame : r₁.objects = objects := by
      have := objects_resolve handle ref r
      rw [show resolve handle ref r = _ from hresolve] at this
      exact this.trans hobjects
    rw [left_of_openBody hopen, hsame, url_of_resolve hresolve]
  read := by
    intro body left max r answer body' r' _ hleft hread
    obtain ⟨hlength, happend⟩ := readBody_left handle body max r
    rw [show readBody handle body max r = _ from hread] at hlength happend
    exact ⟨hlength, body'.left.bytes, hleft.symm.trans happend, rfl⟩

/-! ### A file to rehearse with -/

/-- Five bytes in two chunks. -/
def twoChunks : ChunkedObject where
  totalSize := 5
  chunks := [⟨0, 0, 3, "front", "", false⟩, ⟨1, 3, 5, "back", "", false⟩]
  verify_chunks := rfl

/-- The first chunk breaks after a byte; the second one gives an empty piece and ends too early. -/
def broken : Rehearsal where
  objects := [("front", [10, 20, 30]), ("back", [40, 50])]
  resolveFaults := [("back", [some .expired])]
  openFaults := [("front", [some (.scripted [.atMost 1, .broken (.stated .other "reset")])]),
    ("back", [some (.scripted [.emptyPiece, .ending])])]

/-- A reader of the three bytes in the middle, which lie in both chunks. -/
def middle : Reader RehearsedBody := .ofSlices twoChunks.chunks [⟨0, 0, 0, ⟨1, 3⟩⟩, ⟨1, 1, 3, ⟨0, 1⟩⟩] ⟨1, 4⟩

theorem rangeRead_middle (policy : RetryPolicy) :
    twoChunks.rangeRead (backend 0 policy) ⟨1, .bytes 3⟩ broken = .ok middle := by
  rfl

end ChunkedStorage.Rehearsal
