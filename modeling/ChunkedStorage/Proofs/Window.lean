import ChunkedStorage.Proofs.Reads
import ChunkedStorage.Proofs.Tiling

/-!
# Windows of files

A window delivers the bytes of its span from first to last (`FileWindow.Holds.read`).  As long as the file reaches to
the end of the span nothing fails, and to drain the window gives the whole span (`FileWindow.Holds.drain`).
-/

namespace ChunkedStorage

/-- A cut ends where its bytes end. -/
theorem Span.cut_add_length (a b : Nat) (content : Bytes) :
    (⟨a, a + ((⟨a, b⟩ : Span).cut content).length⟩ : Span).cut content = (⟨a, b⟩ : Span).cut content := by
  simp only [cut, length, Nat.add_sub_cancel_left, List.length_take]
  by_cases h : b - a ≤ (content.drop a).length
  · rw [Nat.min_eq_left h]
  · rw [Nat.min_eq_right (by omega), List.take_length, List.take_of_length_le (by omega)]

namespace FileWindow

/-! ### What a window holds -/

/-- The bytes behind an open entry. -/
def bytesOf (d : Disk) : Entry → Bytes
  | .directory => []
  | .file number => d.content number

/-- A window that is open holds the rest of its span. -/
structure Holds (d : Disk) (w : FileWindow) (left : Bytes) : Prop where
  remaining_le : w.remaining ≤ w.expected
  left_eq : ∃ entry, w.entry? = some entry ∧
    left = (⟨w.start + w.received, w.start + w.expected⟩ : Span).cut (bytesOf d entry)

variable {d : Disk} {w w' : FileWindow} {left : Bytes}

theorem holds_ofFile {path : String} {s : Span} {entry : Entry} (hentry : d.openEntry path = .ok entry)
    (h : ofFile d path s = .ok w) :
    w.Holds d (s.cut (bytesOf d entry)) ∧ w.remaining = s.length ∧ w.entry? = some entry := by
  unfold ofFile at h
  rw [hentry] at h
  simp only at h
  split at h
  · cases h
  · cases h
    refine ⟨⟨Nat.le_refl _, entry, rfl, ?_⟩, rfl, rfl⟩
    simp only [received, Nat.sub_self, Nat.add_zero, Span.cut, Span.length, Nat.add_sub_cancel_left]

/-- What a window holds depends on nothing but the contents of the disk. -/
theorem Holds.of_contents {d' : Disk} (h : w.Holds d left)
    (hsame : ∀ number, w.entry? = some (.file number) → d'.content number = d.content number) : w.Holds d' left := by
  obtain ⟨hle, entry, hentry, rfl⟩ := h
  refine ⟨hle, entry, hentry, ?_⟩
  cases entry with
  | directory => rfl
  | file number => rw [bytesOf, bytesOf, hsame number hentry]

theorem ofFile_ok {path : String} {s : Span} {entry : Entry} (hentry : d.openEntry path = .ok entry)
    (hstart : s.start ≤ d.lastPosition) : ∃ w, ofFile d path s = .ok w := by
  simp only [ofFile, hentry, Nat.not_lt.2 hstart, if_false]
  exact ⟨_, rfl⟩

/-! ### Reading -/

theorem wanted_eq (w : FileWindow) (grant max : Nat) :
    ∃ k, w.wanted grant max = ⟨w.start + w.received, w.start + w.received + k⟩ ∧ k ≤ w.remaining ∧
      k ≤ Nat.max max 1 ∧ (w.remaining ≠ 0 → k ≠ 0) := by
  have hgrant : 1 ≤ Nat.max grant 1 := Nat.le_max_right ..
  have hmax : 1 ≤ Nat.max max 1 := Nat.le_max_right ..
  refine ⟨_, rfl, Nat.min_le_right .., Nat.le_trans (Nat.min_le_left ..) (Nat.min_le_right ..), ?_⟩
  intro hremaining
  omega

/-- What a read of a window may give, and what it leaves. -/
inductive Gives (w : FileWindow) (d : Disk) (max : Nat) : Delivery → FileWindow → Prop where
  | ended (hnone : w.remaining = 0) : Gives w d max (.ok none) w
  /-- Of an open file no byte is left. -/
  | failed {fault : TransferFault} (hsome : w.remaining ≠ 0)
      (hfile : ∀ number, w.entry? = some (.file number) →
        fault = w.truncated ∧ (d.content number).length ≤ w.start + w.received) : Gives w d max (.error fault) w
  | piece {number k : Nat} {piece : Bytes} (hentry : w.entry? = some (.file number)) (hk : k ≤ w.remaining)
      (hmax : k ≤ Nat.max max 1)
      (hpiece : piece = (⟨w.start + w.received, w.start + w.received + k⟩ : Span).cut (d.content number))
      (hne : piece ≠ []) : Gives w d max (.ok (some piece)) { w with remaining := w.remaining - piece.length }

theorem gives_read (w : FileWindow) (d : Disk) (grant max : Nat) :
    w.Gives d max (w.read d grant max).1 (w.read d grant max).2 := by
  obtain ⟨k, hwanted, hk, hmax, hpositive⟩ := w.wanted_eq grant max
  by_cases hremaining : w.remaining = 0
  · rw [read, if_pos hremaining]
    exact .ended hremaining
  · have hk₀ := hpositive hremaining
    simp only [read, if_neg hremaining, hwanted]
    match hentry : w.entry? with
    | none => exact .failed hremaining (by simp [hentry])
    | some .directory => exact .failed hremaining (by simp [hentry])
    | some (.file number) =>
      simp only [Disk.readAt]
      cases hpiece : (⟨w.start + w.received, w.start + w.received + k⟩ : Span).cut (d.content number) with
      | nil =>
        refine .failed hremaining fun number' hentry' => ⟨rfl, ?_⟩
        obtain rfl := Entry.file.inj (Option.some.inj (hentry.symm.trans hentry'))
        have hcut := congrArg List.length hpiece
        simp only [Span.length_cut, Span.length, List.length_nil] at hcut
        omega
      | cons first more =>
        have hgives := Gives.piece hentry hk hmax hpiece.symm (List.cons_ne_nil first more)
        rwa [hentry] at hgives

theorem Gives.length_le {max : Nat} {delivery : Delivery} (h : w.Gives d max delivery w') :
    (Reply.done delivery).piece.length ≤ w.remaining ∧ (Reply.done delivery).piece.length ≤ Nat.max max 1 := by
  cases h with
  | ended | failed => exact ⟨Nat.zero_le _, Nat.zero_le _⟩
  | @piece number k piece _ hk hmax hpiece =>
    have hcut := congrArg List.length hpiece
    rw [Span.length_cut, Span.length, Nat.add_sub_cancel_left] at hcut
    simp only [Reply.piece]
    omega

theorem Gives.kept {max : Nat} {delivery : Delivery} (h : w.Gives d max delivery w') :
    w'.entry? = w.entry? ∧ w'.expected = w.expected := by
  cases h with
  | ended | failed | piece => exact ⟨rfl, rfl⟩

/-- A piece is the next part of the span. -/
private theorem Holds.taken {piece : Bytes} {number k : Nat} (h : w.Holds d left)
    (hentry : w.entry? = some (.file number)) (hlength : piece.length ≤ w.remaining)
    (hpiece : piece = (⟨w.start + w.received, w.start + w.received + k⟩ : Span).cut (d.content number)) :
    ∃ left', left = piece ++ left' ∧
      ({ w with remaining := w.remaining - piece.length } : FileWindow).Holds d left' := by
  obtain ⟨hle, entry, hentry', hleft⟩ := h
  obtain rfl := Option.some.inj (hentry.symm.trans hentry')
  have hsame : piece =
      (⟨w.start + w.received, w.start + w.received + piece.length⟩ : Span).cut (d.content number) := by
    conv => rhs; rw [hpiece]
    rw [Span.cut_add_length, ← hpiece]
  have hreceived : w.received + w.remaining = w.expected := by
    unfold received
    omega
  refine ⟨_, ?_, ⟨Nat.le_trans (Nat.sub_le ..) hle, _, hentry, rfl⟩⟩
  rw [hleft]
  conv => rhs; lhs; rw [hsame]
  have hnext :
      ({ w with remaining := w.remaining - piece.length } : FileWindow).received = w.received + piece.length := by
    simp only [received]
    omega
  rw [hnext, ← Nat.add_assoc]
  exact (Span.cut_append (Nat.le_add_right ..) (by omega) (d.content number)).symm

/-- A read gives the next bytes of the span, or fails without taking any. -/
theorem Holds.read (h : w.Holds d left) {grant max : Nat} {delivery : Delivery}
    (hread : w.read d grant max = (delivery, w')) :
    (Reply.done delivery).piece.length ≤ Nat.max max 1 ∧
      ∃ left', left = (Reply.done delivery).piece ++ left' ∧ w'.Holds d left' := by
  have hgives := w.gives_read d grant max
  rw [hread] at hgives
  obtain ⟨hlength, hmax⟩ := hgives.length_le
  refine ⟨hmax, ?_⟩
  cases hgives with
  | ended | failed => exact ⟨left, rfl, h⟩
  | piece hentry _ _ hpiece => exact h.taken hentry hlength hpiece

/-- A read takes what it gives off what remains. -/
theorem read_remaining {grant max : Nat} {delivery : Delivery} (hread : w.read d grant max = (delivery, w')) :
    (Reply.done delivery).piece.length ≤ w.remaining ∧
      w'.remaining = w.remaining - (Reply.done delivery).piece.length := by
  have hgives := w.gives_read d grant max
  rw [hread] at hgives
  refine ⟨hgives.length_le.1, ?_⟩
  cases hgives with
  | ended | failed | piece => rfl

/-- A read of an open file gives the next bytes of the span; where the file has none, it fails with the counts. -/
theorem Holds.given (h : w.Holds d left) {number : Nat} (hentry : w.entry? = some (.file number)) {max : Nat}
    {delivery : Delivery} (hgives : w.Gives d max delivery w') :
    ∃ left', w'.Holds d left' ∧ Given max left left' w.remaining w'.remaining delivery ∧
      ∀ fault, delivery = .error fault → fault = w.truncated := by
  obtain ⟨hlength, hmax⟩ := hgives.length_le
  cases hgives with
  | ended hnone => exact ⟨left, h, .ended hnone rfl rfl, nofun⟩
  | failed hsome hfile =>
    obtain ⟨hfault, hbehind⟩ := hfile number hentry
    have hnone : left = [] := by
      obtain ⟨-, entry, hentry', rfl⟩ := h
      obtain rfl := Option.some.inj (hentry.symm.trans hentry')
      rw [← List.length_eq_zero_iff]
      simp only [bytesOf, Span.length_cut]
      omega
    exact ⟨left, h, .failed hsome hnone rfl rfl, fun _ hsame => Except.error.inj hsame ▸ hfault⟩
  | piece hentry' _ _ hpiece hne =>
    obtain ⟨left', happend, hholds⟩ := h.taken hentry' hlength hpiece
    exact ⟨left', hholds, .piece hne hmax happend (Nat.sub_add_cancel hlength), nofun⟩

/-- As long as the file reaches to the end of the span a read gives bytes, or comes to the end. -/
theorem Holds.read_whole (h : w.Holds d left) (hwhole : left.length = w.remaining) (grant max : Nat) :
    (left = [] ∧ w.read d grant max = (.ok none, w)) ∨
      ∃ piece left' w', piece ≠ [] ∧ w.read d grant max = (.ok (some piece), w') ∧ left = piece ++ left' ∧
        w'.Holds d left' ∧ left'.length = w'.remaining := by
  by_cases hremaining : w.remaining = 0
  · rw [hremaining] at hwhole
    exact .inl ⟨List.eq_nil_of_length_eq_zero hwhole, by rw [FileWindow.read, if_pos hremaining]⟩
  · obtain ⟨-, entry, hentry, hleft⟩ := id h
    cases entry with
    | directory =>
      rw [hleft] at hwhole
      simp [bytesOf, Span.cut] at hwhole
      omega
    | file number =>
      obtain ⟨left', hholds, hgiven, -⟩ := h.given hentry (w.gives_read d grant max)
      generalize w.read d grant max = result at hholds hgiven
      obtain ⟨delivery, w'⟩ := result
      cases hgiven with
      | ended hnone => exact absurd hnone hremaining
      | failed _ hnone =>
        rw [hnone] at hwhole
        exact absurd hwhole.symm hremaining
      | @piece piece hne _ happend hless =>
        refine .inr ⟨piece, left', w', hne, rfl, happend, hholds, ?_⟩
        rw [happend, List.length_append] at hwhole
        simp only at hless ⊢
        omega

/-! ### Draining -/

private theorem Holds.drainFor (h : w.Holds d left) (hwhole : left.length = w.remaining) (grant max fuel : Nat)
    (hfuel : w.remaining < fuel) :
    ∃ pieces body, (Body.window w).drainFor fuel d grant max = (pieces, .ok none, body) ∧ pieces.flatten = left := by
  induction fuel generalizing w left with
  | zero => omega
  | succ fuel ih =>
    rcases h.read_whole hwhole grant max with ⟨hleft, hread⟩ | ⟨piece, left', w', hne, hread, hleft, hholds, hwhole'⟩
    · refine ⟨[], .window w, ?_, hleft.symm⟩
      simp only [Body.drainFor, Body.read, hread]
    · have hlength := congrArg List.length hleft
      have hpositive := List.length_pos_iff.2 hne
      rw [List.length_append] at hlength
      obtain ⟨pieces, body, hdrain, hflatten⟩ := ih hholds hwhole' (by omega)
      refine ⟨piece :: pieces, body, ?_, by rw [List.flatten_cons, hflatten, hleft]⟩
      simp only [Body.drainFor, Body.read, hread, hdrain]

/-- To drain a window whose file reaches to the end of the span gives the whole span. -/
theorem Holds.drain (h : w.Holds d left) (hwhole : left.length = w.remaining) (grant max : Nat) :
    ∃ pieces body, (Body.window w).drain d grant max = (pieces, .ok none, body) ∧ pieces.flatten = left :=
  h.drainFor hwhole grant max _ (Nat.lt_succ_self _)

end FileWindow

end ChunkedStorage
