import ChunkedStorage.Proofs.Responses
import ChunkedStorage.Proofs.Window

/-!
# Draining bodies

Every body comes to an end or a fault when it is read on and on, since each piece takes its bytes off what remains
(`Body.read_remaining`).  So to drain a body is to read it up to there (`Body.drains_iff`), and what comes of it depends
on nothing but the contents of the disk (`Body.Drains.of_contents`).
-/

namespace ChunkedStorage.Body

variable {d d' : Disk} {grant max : Nat} {body body' : Body} {pieces pieces' : List Bytes} {last last' : Delivery}

/-! ### What remains -/

/-- A read takes what it gives off what remains. -/
theorem read_left (body : Body) (d : Disk) (grant max : Nat) :
    (body.read d grant max).2.remaining + (Reply.done (body.read d grant max).1).piece.length = body.remaining := by
  cases body with
  | window w =>
    generalize hread : w.read d grant max = result
    obtain ⟨delivery, w'⟩ := result
    obtain ⟨hle, hless⟩ := FileWindow.read_remaining hread
    simp only [read, hread, remaining]
    omega
  | response b =>
    have hgives := b.gives_read max
    generalize hread : b.read max = result at hgives
    obtain ⟨delivery, b'⟩ := result
    simp only [read, hread, remaining]
    cases hgives with
    | ended | broken | truncated => rfl
    | piece _ _ _ hremaining => exact hremaining
  | memory b =>
    by_cases hnil : b.bytes = []
    · simp [read, MemoryBody.read, hnil, remaining, Reply.piece]
    · simp only [read, MemoryBody.read, if_neg hnil, remaining, MemoryBody.remaining, Reply.piece, List.length_drop,
        List.length_take]
      omega

/-- A piece has bytes, and takes them off what remains. -/
theorem read_remaining {piece : Bytes} (hread : body.read d grant max = (.ok (some piece), body')) :
    piece ≠ [] ∧ body'.remaining + piece.length = body.remaining := by
  have hleft := body.read_left d grant max
  rw [hread] at hleft
  refine ⟨?_, hleft⟩
  rintro rfl
  exact body.read_ne_empty d grant max (congrArg Prod.fst hread)

/-! ### Draining -/

/-- Reads of at most `max` bytes up to the end of a body or its first fault, with the pieces that come before. -/
inductive Drains (d : Disk) (grant max : Nat) : Body → List Bytes → Delivery → Prop where
  | ended {body body' : Body} (hread : body.read d grant max = (.ok none, body')) :
      Drains d grant max body [] (.ok none)
  | failed {body body' : Body} {fault : TransferFault} (hread : body.read d grant max = (.error fault, body')) :
      Drains d grant max body [] (.error fault)
  | piece {body body' : Body} {piece : Bytes} {pieces : List Bytes} {last : Delivery}
      (hread : body.read d grant max = (.ok (some piece), body')) (hrest : Drains d grant max body' pieces last) :
      Drains d grant max body (piece :: pieces) last

theorem Drains.unique (h : Drains d grant max body pieces last) (h' : Drains d grant max body pieces' last') :
    pieces = pieces' ∧ last = last' := by
  induction h generalizing pieces' last' with
  | ended hread =>
    cases h' with
    | ended => exact ⟨rfl, rfl⟩
    | failed hread' | piece hread' => cases hread.symm.trans hread'
  | failed hread =>
    cases h' with
    | ended hread' | piece hread' => cases hread.symm.trans hread'
    | failed hread' =>
      cases hread.symm.trans hread'
      exact ⟨rfl, rfl⟩
  | piece hread hrest ih =>
    cases h' with
    | ended hread' | failed hread' => cases hread.symm.trans hread'
    | piece hread' hrest' =>
      cases hread.symm.trans hread'
      obtain ⟨rfl, rfl⟩ := ih hrest'
      exact ⟨rfl, rfl⟩

private theorem drains_drainFor {fuel : Nat} (hfuel : body.remaining < fuel) :
    Drains d grant max body (body.drainFor fuel d grant max).1 (body.drainFor fuel d grant max).2.1 := by
  induction fuel generalizing body with
  | zero => omega
  | succ fuel ih =>
    rcases hread : body.read d grant max with ⟨fault | _ | piece, body'⟩
    · simpa [drainFor, hread] using .failed hread
    · simpa [drainFor, hread] using .ended hread
    · obtain ⟨hne, hremaining⟩ := read_remaining hread
      have hpositive := List.length_pos_iff.2 hne
      simpa [drainFor, hread] using .piece hread (ih (show body'.remaining < fuel by omega))

/-- To drain a body is to read it up to its end or its first fault. -/
theorem drains_iff :
    Drains d grant max body pieces last ↔ ∃ body', body.drain d grant max = (pieces, last, body') := by
  have hdrain : Drains d grant max body (body.drain d grant max).1 (body.drain d grant max).2.1 :=
    drains_drainFor (Nat.lt_succ_self _)
  constructor
  · intro h
    obtain ⟨hpieces, hlast⟩ := h.unique hdrain
    exact ⟨_, by rw [hpieces, hlast]⟩
  · rintro ⟨body', h⟩
    rwa [h] at hdrain

theorem exists_drains (d : Disk) (grant max : Nat) (body : Body) : ∃ pieces last, Drains d grant max body pieces last :=
  ⟨_, _, drains_iff.2 ⟨_, rfl⟩⟩

/-- What ends the draining of a body is its end or a fault. -/
theorem Drains.last_eq (h : Drains d grant max body pieces last) : last = .ok none ∨ ∃ fault, last = .error fault := by
  induction h with
  | ended => exact .inl rfl
  | failed => exact .inr ⟨_, rfl⟩
  | piece _ _ ih => exact ih

/-! ### What is delivered -/

/-- The body is read up to its end, and makes the given bytes. -/
def Delivers (d : Disk) (grant max : Nat) (body : Body) (bytes : Bytes) : Prop :=
  ∃ pieces, Drains d grant max body pieces (.ok none) ∧ pieces.flatten = bytes

/-- A read of the body fails before its end. -/
def Breaks (d : Disk) (grant max : Nat) (body : Body) (fault : TransferFault) : Prop :=
  ∃ pieces, Drains d grant max body pieces (.error fault)

theorem Delivers.unique {bytes bytes' : Bytes} (h : Delivers d grant max body bytes)
    (h' : Delivers d grant max body bytes') : bytes = bytes' := by
  obtain ⟨pieces, hdrains, rfl⟩ := h
  obtain ⟨pieces', hdrains', rfl⟩ := h'
  rw [(hdrains.unique hdrains').1]

theorem Breaks.unique {fault fault' : TransferFault} (h : Breaks d grant max body fault)
    (h' : Breaks d grant max body fault') : fault = fault' := by
  obtain ⟨pieces, hdrains⟩ := h
  obtain ⟨pieces', hdrains'⟩ := h'
  exact Except.error.inj (hdrains.unique hdrains').2

theorem Breaks.not_delivers {fault : TransferFault} {bytes : Bytes} (h : Breaks d grant max body fault) :
    ¬ Delivers d grant max body bytes := by
  obtain ⟨pieces, hdrains⟩ := h
  rintro ⟨pieces', hdrains', -⟩
  cases (hdrains.unique hdrains').2

/-! ### Disks with the same contents -/

/-- The entry that the body reads from, if it is a window of a file. -/
def file? : Body → Option Entry
  | window w => w.entry?
  | response _ | memory _ => none

/-- What a read gives depends on nothing but the content of the file that is read. -/
theorem read_of_contents (hsame : ∀ number, body.file? = some (.file number) → d'.content number = d.content number) :
    body.read d' grant max = body.read d grant max := by
  cases body with
  | window w =>
    simp only [read, FileWindow.read]
    cases hentry : w.entry? with
    | none => rfl
    | some entry =>
      have hreadAt (s : Span) : d'.readAt entry s = d.readAt entry s := by
        cases entry with
        | directory => rfl
        | file number => simp only [Disk.readAt, hsame number hentry]
      simp only [hreadAt]
  | response b | memory b => rfl

theorem Drains.of_contents (h : Drains d grant max body pieces last)
    (hsame : ∀ number, d'.content number = d.content number) : Drains d' grant max body pieces last := by
  induction h with
  | ended hread => exact .ended (by rw [read_of_contents fun number _ => hsame number, hread])
  | failed hread => exact .failed (by rw [read_of_contents fun number _ => hsame number, hread])
  | piece hread _ ih => exact .piece (by rw [read_of_contents fun number _ => hsame number, hread]) ih

theorem Delivers.of_contents {bytes : Bytes} (h : Delivers d grant max body bytes)
    (hsame : ∀ number, d'.content number = d.content number) : Delivers d' grant max body bytes := by
  obtain ⟨pieces, hdrains, hbytes⟩ := h
  exact ⟨pieces, hdrains.of_contents hsame, hbytes⟩

theorem Breaks.of_contents {fault : TransferFault} (h : Breaks d grant max body fault)
    (hsame : ∀ number, d'.content number = d.content number) : Breaks d' grant max body fault := by
  obtain ⟨pieces, hdrains⟩ := h
  exact ⟨pieces, hdrains.of_contents hsame⟩

end ChunkedStorage.Body
