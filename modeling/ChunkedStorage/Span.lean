/-!
# Offsets and spans

Offsets, sizes and counts are natural numbers. Stored ones are 64-bit words, so they lie below `wordLimit`; signed ones
lie between `-signedLimit` and `signedLimit`, the upper end excluded. A span is a half-open interval of offsets.
-/

namespace ChunkedStorage

/-- The content of files, objects and bodies. -/
abbrev Bytes := List UInt8

/-- One more than the largest word. -/
def wordLimit : Nat := Nat.pow 2 64

/-- One more than the largest signed word. -/
def signedLimit : Nat := Nat.pow 2 63

/-- The sum of two words, stopping at the largest word. -/
def saturatingAdd (a b : Nat) : Nat := min (a + b) (wordLimit - 1)

theorem saturatingAdd_of_lt {a b : Nat} (h : a + b < wordLimit) : saturatingAdd a b = a + b := by
  unfold saturatingAdd; omega

/-- The offsets from `start` up to, and without, `stop`. -/
structure Span where
  start : Nat
  stop : Nat
deriving DecidableEq

namespace Span

def length (s : Span) : Nat := s.stop - s.start

/-- Whether the span holds no offset; a reversed span holds none. -/
def isEmpty (s : Span) : Bool := s.stop ≤ s.start

/-- The bytes of the span, as far as the content reaches. -/
def cut (s : Span) (content : Bytes) : Bytes := (content.drop s.start).take s.length

theorem length_cut (s : Span) (content : Bytes) :
    (s.cut content).length = min s.length (content.length - s.start) := by
  simp [cut]

end Span

end ChunkedStorage
