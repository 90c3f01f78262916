/-!
# Upload progress

A report states how much of which chunk is stored; its percentage is that of the whole upload. It can be computed in
any kind of numbers; the program uses floating-point ones.
-/

namespace ChunkedStorage

/-- Counts as floating-point numbers. -/
instance natCastFloat : NatCast Float := ⟨Float.ofNat⟩

/-- The place of one chunk in an upload. -/
structure ChunkProgress where
  index : Nat
  count : Nat
deriving DecidableEq

variable {α : Type} [NatCast α] [OfNat α 0] [OfNat α 1] [OfNat α 100] [Add α] [Mul α] [Div α] [LT α] [DecidableLT α]

namespace ChunkProgress

/-- The fraction moved into the interval from zero to one; what is no number stays so. -/
def clampFraction (fraction : α) : α :=
  if fraction < 0 then 0 else if 1 < fraction then 1 else fraction

/-- The percentage of the whole upload once `fraction` of the chunk is stored. -/
def percent (p : ChunkProgress) (fraction : α) : α :=
  (p.index + clampFraction fraction) / (max p.count 1 : Nat) * 100

def text (p : ChunkProgress) : String := s!"ChunkProgress \x7b index: {p.index}, count: {p.count}, .. \x7d"

end ChunkProgress

/-- `part` of `whole` bytes of a chunk are stored. -/
structure ProgressReport where
  chunk : ChunkProgress
  part : Nat
  whole : Nat
deriving DecidableEq

def ProgressReport.percent (r : ProgressReport) : α := r.chunk.percent (r.part / r.whole : α)

end ChunkedStorage
