import ChunkedStorage.Disk

/-!
# Bodies

Sources that deliver exactly the bytes of a span, piece by piece, and then their end. To run out of bytes early is a
fault, never an end.
-/

namespace ChunkedStorage

/-- What a read gives: a piece, the end, or a fault. -/
abbrev Delivery := Except TransferFault (Option Bytes)

/-! ### Windows of files -/

/-- The bytes of an open file from `start` on, `expected` of them; none are delivered once the file is closed. -/
structure FileWindow where
  entry? : Option Entry
  start : Nat
  expected : Nat
  remaining : Nat

namespace FileWindow

/-- Opens a span of a file. It may reach beyond the end of the file; a reversed span is empty. -/
def ofFile (d : Disk) (path : String) (s : Span) : Except IoFault FileWindow :=
  match d.openEntry path with
  | .error fault => .error fault
  | .ok entry =>
    if d.lastPosition < s.start then .error (.os IoFault.invalidArgumentCode)
    else .ok ⟨some entry, s.start, s.length, s.length⟩

def received (w : FileWindow) : Nat := w.expected - w.remaining

def truncated (w : FileWindow) : TransferFault := .truncated w.received w.expected

/-- The span that the next read asks the system for. The system hands over at most `grant` bytes, but at least one. -/
def wanted (w : FileWindow) (grant max : Nat) : Span :=
  let position := w.start + w.received
  ⟨position, position + min (min (Nat.max grant 1) (Nat.max max 1)) w.remaining⟩

/-- Reads at most `max` bytes, but at least one. -/
def read (w : FileWindow) (d : Disk) (grant max : Nat) : Delivery × FileWindow :=
  if w.remaining = 0 then (.ok none, w)
  else
    match w.entry? with
    | none => (.error w.truncated, w)
    | some entry =>
      match d.readAt entry (w.wanted grant max) with
      | .error fault => (.error (.io fault), w)
      | .ok [] => (.error w.truncated, w)
      | .ok (first :: more) =>
        (.ok (some (first :: more)), { w with remaining := w.remaining - (first :: more).length })

theorem read_ne_empty (w : FileWindow) (d : Disk) (grant max : Nat) : (w.read d grant max).1 ≠ .ok (some []) := by
  unfold read
  split
  · simp
  · split
    · simp
    · split <;> simp

def close (w : FileWindow) : FileWindow := { w with entry? := none }

end FileWindow

/-! ### Bodies of responses -/

/-- The body of a response that arrives in pieces, some of which may be broken connections. The first `skip` bytes
are dropped, and what follows the expected ones is not looked at. -/
structure ResponseBody where
  /-- The pieces to come, unless the response is done with. -/
  arriving? : Option (List (Except String Bytes))
  pending : Bytes
  skip : Nat
  expected : Nat
  remaining : Nat

namespace ResponseBody

def ofPieces (pieces : List (Except String Bytes)) (skip length : Nat) : ResponseBody :=
  ⟨some pieces, [], skip, length, length⟩

def truncated (b : ResponseBody) : TransferFault := .truncated (b.expected - b.remaining) b.expected

/-- Goes on until there are bytes to deliver, the connection breaks or the response ends. -/
def fill (b : ResponseBody) : List (Except String Bytes) → (pending : Bytes) → (skip : Nat) →
    Except TransferFault Unit × ResponseBody
  | [], pending, skip =>
    if skip < pending.length then (.ok (), { b with arriving? := some [], pending := pending.drop skip, skip := 0 })
    else
      (.error b.truncated, { b with arriving? := none, pending := [], skip := skip - pending.length })
  | .error detail :: rest, pending, skip =>
    if skip < pending.length then
      (.ok (), { b with arriving? := some (.error detail :: rest), pending := pending.drop skip, skip := 0 })
    else
      (.error (.network detail), { b with arriving? := some rest, pending := [], skip := skip - pending.length })
  | .ok piece :: rest, pending, skip =>
    if skip < pending.length then
      (.ok (), { b with arriving? := some (.ok piece :: rest), pending := pending.drop skip, skip := 0 })
    else b.fill rest piece (skip - pending.length)

/-- Delivers at most `max` of the pending bytes, but at least one. -/
def deliver (b : ResponseBody) (max : Nat) : Delivery × ResponseBody :=
  let n := min (min (Nat.max max 1) b.pending.length) b.remaining
  (.ok (some (b.pending.take n)), { b with pending := b.pending.drop n, remaining := b.remaining - n })

/-- Reads at most `max` bytes, but at least one. -/
def read (b : ResponseBody) (max : Nat) : Delivery × ResponseBody :=
  if b.remaining = 0 then (.ok none, { b with arriving? := none })
  else
    match b.arriving? with
    | none => (.error b.truncated, b)
    | some pieces =>
      match b.fill pieces b.pending b.skip with
      | (.error fault, b) => (.error fault, b)
      | (.ok (), b) => b.deliver max

def close (b : ResponseBody) : ResponseBody := { b with arriving? := none, pending := [] }

theorem fill_pending {b b' : ResponseBody} {pieces : List (Except String Bytes)} {pending : Bytes} {skip : Nat}
    (h : b.fill pieces pending skip = (.ok (), b')) : b'.pending ≠ [] ∧ b'.remaining = b.remaining := by
  fun_induction fill b pieces pending skip with
  | case1 | case3 | case5 =>
    simp only [Prod.mk.injEq, true_and] at h
    subst h
    simpa
  | case2 | case4 => simp at h
  | case6 _ _ _ _ _ ih => exact ih h

theorem read_ne_empty (b : ResponseBody) (max : Nat) : (b.read max).1 ≠ .ok (some []) := by
  unfold read
  split
  · simp
  · next some_left =>
    split
    · simp
    · split
      · simp
      · next filled =>
        obtain ⟨pending, same⟩ := fill_pending filled
        have := Nat.le_max_right max 1
        simp [deliver, List.take_eq_nil_iff, pending, same]
        omega

end ResponseBody

/-! ### Bodies in memory -/

structure MemoryBody where
  bytes : Bytes

namespace MemoryBody

def remaining (b : MemoryBody) : Nat := b.bytes.length

/-- Reads at most `max` bytes, but at least one. -/
def read (b : MemoryBody) (max : Nat) : Delivery × MemoryBody :=
  if b.bytes = [] then (.ok none, b)
  else
    let n := Nat.max max 1
    (.ok (some (b.bytes.take n)), ⟨b.bytes.drop n⟩)

def close (_ : MemoryBody) : MemoryBody := ⟨[]⟩

theorem read_ne_empty (b : MemoryBody) (max : Nat) : (b.read max).1 ≠ .ok (some []) := by
  unfold read
  split
  · simp
  · next some_left => simp [List.take_eq_nil_iff, some_left]

end MemoryBody

/-! ### Any body -/

inductive Body where
  | window (w : FileWindow)
  | response (b : ResponseBody)
  | memory (b : MemoryBody)

namespace Body

/-- Bytes of the span that are not delivered yet. -/
def remaining : Body → Nat
  | window w => w.remaining
  | response b => b.remaining
  | memory b => b.remaining

/-- Reads at most `max` bytes, but at least one. -/
def read (body : Body) (d : Disk) (grant max : Nat) : Delivery × Body :=
  match body with
  | window w =>
    let (delivery, w) := w.read d grant max
    (delivery, window w)
  | response b =>
    let (delivery, b) := b.read max
    (delivery, response b)
  | memory b =>
    let (delivery, b) := b.read max
    (delivery, memory b)

theorem read_ne_empty (body : Body) (d : Disk) (grant max : Nat) : (body.read d grant max).1 ≠ .ok (some []) := by
  cases body with
  | window w => exact w.read_ne_empty d grant max
  | response b => exact b.read_ne_empty max
  | memory b => exact b.read_ne_empty max

/-- Gives the source free; what is not delivered yet never will be. -/
def close : Body → Body
  | window w => .window w.close
  | response b => .response b.close
  | memory b => .memory b.close

/-- Reads pieces of at most `max` bytes until the end or a fault. -/
def drainFor : (fuel : Nat) → Body → Disk → (grant max : Nat) → List Bytes × Delivery × Body
  | 0, body, _, _, _ => ([], .ok none, body)
  | fuel + 1, body, d, grant, max =>
    match body.read d grant max with
    | (.ok (some piece), body) =>
      let (pieces, last, body) := drainFor fuel body d grant max
      (piece :: pieces, last, body)
    | (last, body) => ([], last, body)

/-- The pieces of at most `max` bytes up to the end or the first fault, with what ended them. -/
def drain (body : Body) (d : Disk) (grant max : Nat) : List Bytes × Delivery × Body :=
  body.drainFor (body.remaining + 1) d grant max

end Body

end ChunkedStorage
