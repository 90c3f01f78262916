import Mathlib.Data.List.Induction
import ChunkedStorage.Body
import ChunkedStorage.Proofs.Reader.Exchange

/-!
# Reads one after the other

What holds of a source after each read holds after any row of reads (`readEach_induction`), and what the `i`-th read
gives is decided by the source that the reads before it leave (`getElem?_readEach`).  A row of reads of a window
(`Windowed`) that is long enough delivers the whole window (`Windowed.complete`).
-/

namespace ChunkedStorage

/-! ### Rows of reads -/

section

variable {α ι : Type} (read : α → ι → Delivery × α)

/-- Reads a source once for each request, and gives what the reads deliver with what is left of the source. -/
def readEach : α → List ι → List Delivery × α
  | source, [] => ([], source)
  | source, request :: rest =>
    let (delivery, source) := read source request
    let (deliveries, source) := readEach source rest
    (delivery :: deliveries, source)

theorem readEach_append (source : α) (front back : List ι) :
    readEach read source (front ++ back) =
      ((readEach read source front).1 ++ (readEach read (readEach read source front).2 back).1,
        (readEach read (readEach read source front).2 back).2) := by
  induction front generalizing source with
  | nil => rfl
  | cons request rest ih => simp only [List.cons_append, readEach, ih]

theorem length_readEach (source : α) (requests : List ι) :
    (readEach read source requests).1.length = requests.length := by
  induction requests generalizing source with
  | nil => rfl
  | cons request rest ih => simp only [readEach, List.length_cons, ih]

theorem take_readEach (source : α) (requests : List ι) (i : Nat) :
    (readEach read source requests).1.take i = (readEach read source (requests.take i)).1 := by
  induction requests generalizing source i with
  | nil => simp [readEach]
  | cons request rest ih =>
    cases i with
    | zero => rfl
    | succ i => simp only [readEach, List.take_succ_cons, ih]

theorem getElem?_readEach (source : α) (requests : List ι) (i : Nat) :
    (readEach read source requests).1[i]? =
      requests[i]?.map fun request => (read (readEach read source (requests.take i)).2 request).1 := by
  induction requests generalizing source i with
  | nil => rfl
  | cons request rest ih =>
    cases i with
    | zero => rfl
    | succ i => simp only [readEach, List.getElem?_cons_succ, List.take_succ_cons, ih]

theorem readEach_induction {P : List Delivery → α → Prop} {source : α} {requests : List ι} (start : P [] source)
    (step : ∀ request ∈ requests, ∀ past source, P past source →
      P (past ++ [(read source request).1]) (read source request).2) :
    P (readEach read source requests).1 (readEach read source requests).2 := by
  induction requests using List.reverseRecOn with
  | nil => exact start
  | append_singleton front request ih =>
    obtain ⟨hfront, hrequest⟩ := List.forall_mem_append.1 step
    rw [readEach_append]
    exact hrequest request List.mem_cons_self _ _ (ih hfront)

/-- The `i`-th read is one of a source of which holds what the reads before it have brought about. -/
theorem of_getElem?_readEach {P : List Delivery → α → Prop} {source : α} {requests : List ι} (start : P [] source)
    (step : ∀ request ∈ requests, ∀ past source, P past source →
      P (past ++ [(read source request).1]) (read source request).2)
    {i : Nat} {delivery : Delivery} (hdelivery : (readEach read source requests).1[i]? = some delivery) :
    ∃ request source', requests[i]? = some request ∧ delivery = (read source' request).1 ∧
      P ((readEach read source requests).1.take i) source' := by
  rw [getElem?_readEach] at hdelivery
  obtain ⟨request, hrequest, rfl⟩ := Option.map_eq_some_iff.1 hdelivery
  rw [take_readEach]
  exact ⟨request, _, hrequest, rfl,
    readEach_induction read start fun request hmem => step request (List.mem_of_mem_take hmem)⟩

end

/-! ### What is delivered -/

/-- The bytes that reads deliver. -/
def delivered (deliveries : List Delivery) : Bytes := deliveries.flatMap fun delivery => (Reply.done delivery).piece

def Delivery.isFault : Delivery → Bool
  | .error _ => true
  | .ok _ => false

theorem delivered_concat (past : List Delivery) (delivery : Delivery) :
    delivered (past ++ [delivery]) = delivered past ++ (Reply.done delivery).piece := by
  simp [delivered]

/-- What the first reads deliver starts what all of them deliver. -/
theorem delivered_take_isPrefix (deliveries : List Delivery) (i : Nat) :
    delivered (deliveries.take i) <+: delivered deliveries := by
  conv => rhs; rw [← List.take_append_drop i deliveries]
  simp only [delivered, List.flatMap_append]
  exact List.prefix_append _ _

/-! ### Courses -/

/-- What a read may give of a source that has the bytes `ahead` and is to deliver `left` bytes, and what it leaves of
both. -/
inductive Given (max : Nat) (ahead ahead' : Bytes) (left left' : Nat) : Delivery → Prop where
  | ended (hnone : left = 0) (hahead : ahead' = ahead) (hleft : left' = left) :
      Given max ahead ahead' left left' (.ok none)
  | piece {piece : Bytes} (hne : piece ≠ []) (hmax : piece.length ≤ Nat.max max 1) (hahead : ahead = piece ++ ahead')
      (hleft : left' + piece.length = left) : Given max ahead ahead' left left' (.ok (some piece))
  | failed {fault : TransferFault} (hsome : left ≠ 0) (hnone : ahead = []) (hahead : ahead' = ahead)
      (hleft : left' = left) : Given max ahead ahead' left left' (.error fault)

/-- Of a window that is to have `length` bytes reads have delivered all but the bytes `ahead`, and all but `left` of
them. -/
structure Course (window : Bytes) (length : Nat) (past : List Delivery) (ahead : Bytes) (left : Nat) : Prop where
  ahead_eq : delivered past ++ ahead = window
  left_add : left + (delivered past).length = length

theorem Course.start (window : Bytes) (length : Nat) : Course window length [] window length := ⟨rfl, rfl⟩

theorem Course.given {window ahead ahead' : Bytes} {length max left left' : Nat} {past : List Delivery}
    {delivery : Delivery} (h : Course window length past ahead left)
    (hgiven : Given max ahead ahead' left left' delivery) : Course window length (past ++ [delivery]) ahead' left' := by
  have hdelivered := delivered_concat past delivery
  cases hgiven with
  | ended _ hahead hleft | failed _ _ hahead hleft =>
    simp only [Reply.piece, List.append_nil] at hdelivered
    rw [hahead, hleft]
    exact ⟨hdelivered ▸ h.ahead_eq, hdelivered ▸ h.left_add⟩
  | piece _ _ hahead hleft =>
    simp only [Reply.piece] at hdelivered
    have hadd := h.left_add
    refine ⟨?_, ?_⟩
    · rw [hdelivered, List.append_assoc, ← hahead]
      exact h.ahead_eq
    · rw [hdelivered, List.length_append]
      omega

/-! ### Windows -/

/-- Reads of a source that is to deliver `length` bytes, and has those of `window`, which are fewer if it ends early.
The `i`-th read asks for at most `maxes[i]` bytes; what remains in the end is `remaining`. -/
structure Windowed (window : Bytes) (length : Nat) (maxes : List Nat) (deliveries : List Delivery) (remaining : Nat) :
    Prop where
  length_eq : deliveries.length = maxes.length
  /-- Pieces are never empty, and never longer than asked for. -/
  pieces : ∀ (i max : Nat) (piece : Bytes), maxes[i]? = some max → deliveries[i]? = some (.ok (some piece)) →
    piece ≠ [] ∧ piece.length ≤ Nat.max max 1
  delivered : delivered deliveries <+: window
  remaining_add : remaining + (ChunkedStorage.delivered deliveries).length = length
  /-- The end comes exactly when everything is delivered, and then for ever. -/
  ended : ∀ (i : Nat) (delivery : Delivery), deliveries[i]? = some delivery →
    (delivery = .ok none ↔ (ChunkedStorage.delivered (deliveries.take i)).length = length)
  /-- Nothing fails before the window is delivered, nor if the window is as long as it has to be. -/
  failed : ∀ (i : Nat) (fault : TransferFault), deliveries[i]? = some (.error fault) →
    ChunkedStorage.delivered (deliveries.take i) = window ∧ window.length < length

namespace Windowed

variable {window : Bytes} {length remaining : Nat} {maxes : List Nat} {deliveries : List Delivery}

/-- Reads whose source is on its course before each of them and at the end. -/
theorem of_courses {ahead : Bytes} (hlength : deliveries.length = maxes.length)
    (hlast : Course window length deliveries ahead remaining)
    (hreads : ∀ (i : Nat) (delivery : Delivery), deliveries[i]? = some delivery →
      ∃ max ahead ahead' left left', maxes[i]? = some max ∧ Course window length (deliveries.take i) ahead left ∧
        Given max ahead ahead' left left' delivery) :
    Windowed window length maxes deliveries remaining where
  length_eq := hlength
  pieces := by
    intro i max piece hmax hpiece
    obtain ⟨max', _, _, _, _, hmax', -, hgiven⟩ := hreads i _ hpiece
    obtain rfl := Option.some.inj (hmax.symm.trans hmax')
    cases hgiven with
    | piece hne hle => exact ⟨hne, hle⟩
  delivered := ⟨_, hlast.ahead_eq⟩
  remaining_add := hlast.left_add
  ended := by
    intro i delivery hdelivery
    obtain ⟨_, _, _, left, _, -, hcourse, hgiven⟩ := hreads i _ hdelivery
    have hleft := hcourse.left_add
    cases hgiven with
    | ended hnone =>
      simp only [true_iff]
      omega
    | piece hne _ _ hless =>
      have hpositive := List.length_pos_iff.2 hne
      simp only [Except.ok.injEq, reduceCtorEq, false_iff]
      omega
    | failed hsome =>
      simp only [reduceCtorEq, false_iff]
      omega
  failed := by
    intro i fault hfault
    obtain ⟨_, _, _, left, _, -, hcourse, hgiven⟩ := hreads i _ hfault
    have hleft := hcourse.left_add
    have hall := hcourse.ahead_eq
    cases hgiven with
    | failed hsome hnone =>
      rw [hnone, List.append_nil] at hall
      refine ⟨hall, ?_⟩
      rw [← hall]
      omega

/-- As long as bytes of the window are left, a read gives some. -/
theorem piece_of_lt (h : Windowed window length maxes deliveries remaining) (hwindow : window.length ≤ length) {i : Nat}
    {delivery : Delivery} (hdelivery : deliveries[i]? = some delivery)
    (hleft : (ChunkedStorage.delivered (deliveries.take i)).length < window.length) :
    ∃ piece, piece ≠ [] ∧ delivery = .ok (some piece) := by
  rcases delivery with fault | _ | piece
  · obtain ⟨hall, -⟩ := h.failed i fault hdelivery
    rw [hall] at hleft
    exact absurd hleft (Nat.lt_irrefl _)
  · have hall := (h.ended i _ hdelivery).1 rfl
    omega
  · have hi : i < maxes.length := by
      rw [← h.length_eq]
      exact (List.getElem?_eq_some_iff.1 hdelivery).1
    obtain ⟨hne, -⟩ := h.pieces i maxes[i] piece (List.getElem?_eq_getElem hi) hdelivery
    exact ⟨piece, hne, rfl⟩

/-- Each read takes a byte at least, until the window is delivered. -/
theorem length_delivered_take (h : Windowed window length maxes deliveries remaining) (hwindow : window.length ≤ length)
    {i : Nat} (hi : i ≤ maxes.length) :
    min i window.length ≤ (ChunkedStorage.delivered (deliveries.take i)).length := by
  induction i with
  | zero => simp
  | succ i ih =>
    have hbefore := ih (Nat.le_of_succ_le hi)
    have hlt : i < deliveries.length := by
      rw [h.length_eq]
      exact hi
    have hdelivery := List.getElem?_eq_getElem hlt
    have hnext := delivered_concat (deliveries.take i) deliveries[i]
    rw [List.take_append_getElem hlt] at hnext
    rw [hnext, List.length_append]
    by_cases hleft : (ChunkedStorage.delivered (deliveries.take i)).length < window.length
    · obtain ⟨piece, hne, hpiece⟩ := h.piece_of_lt hwindow hdelivery hleft
      have hpositive := List.length_pos_iff.2 hne
      rw [hpiece]
      simp only [Reply.piece]
      omega
    · omega

/-- As many reads as the window has bytes are enough. -/
theorem complete (h : Windowed window length maxes deliveries remaining) (hwindow : window.length ≤ length)
    (hreads : window.length ≤ maxes.length) : ChunkedStorage.delivered deliveries = window := by
  have hall := h.length_delivered_take hwindow (Nat.le_refl maxes.length)
  rw [← h.length_eq, List.take_length, h.length_eq] at hall
  exact h.delivered.eq_of_length_le (by omega)

/-- Behind a window that is too short every read fails. -/
theorem fault_of_delivered (h : Windowed window length maxes deliveries remaining) {i : Nat} {delivery : Delivery}
    (hdelivery : deliveries[i]? = some delivery) (hall : ChunkedStorage.delivered (deliveries.take i) = window)
    (hshort : window.length < length) : ∃ fault, delivery = .error fault := by
  rcases delivery with fault | _ | piece
  · exact ⟨fault, rfl⟩
  · have := (h.ended i _ hdelivery).1 rfl
    rw [hall] at this
    omega
  · have hi := (List.getElem?_eq_some_iff.1 hdelivery).1
    have hmax : i < maxes.length := by
      rw [← h.length_eq]
      exact hi
    obtain ⟨hne, -⟩ := h.pieces i maxes[i] piece (List.getElem?_eq_getElem hmax) hdelivery
    -- the piece would lie behind the window
    have hnext := delivered_concat (deliveries.take i) deliveries[i]
    rw [List.take_append_getElem hi, Option.some.inj ((List.getElem?_eq_getElem hi).symm.trans hdelivery),
      hall] at hnext
    have hinside := ((delivered_take_isPrefix deliveries (i + 1)).trans h.delivered).length_le
    rw [hnext, List.length_append] at hinside
    have := List.length_pos_iff.2 hne
    simp only [Reply.piece] at hinside
    omega

end Windowed

end ChunkedStorage
