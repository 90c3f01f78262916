import ChunkedStorage.Span

/-!
# Durations and points in time

Durations and points in time count nanoseconds. A duration has at most `2 ^ 64 - 1` whole seconds.
-/

namespace ChunkedStorage

structure Duration where
  nanos : Nat
deriving DecidableEq

namespace Duration

def perSecond : Nat := 1000000000

/-- The longest duration: one nanosecond less than `2 ^ 64` seconds. -/
def longest : Duration := ⟨wordLimit * perSecond - 1⟩

def ofSeconds (seconds : Nat) : Duration := ⟨seconds * perSecond⟩

def ofParts (seconds nanos : Nat) : Duration := ⟨seconds * perSecond + nanos⟩

def seconds (d : Duration) : Nat := d.nanos / perSecond

/-- The nanoseconds beyond the whole seconds. -/
def subseconds (d : Duration) : Nat := d.nanos % perSecond

/-- The duration `factor` times over, stopping at the longest one. -/
def times (d : Duration) (factor : Nat) : Duration := ⟨min (d.nanos * factor) longest.nanos⟩

end Duration

/-- Nanoseconds since the start of 1970. -/
structure Timestamp where
  nanos : Int
deriving DecidableEq

namespace Timestamp

def ofParts (seconds nanos : Int) : Timestamp := ⟨seconds * Duration.perSecond + nanos⟩

/-- The last point in time: 9999-12-30T22:00:00.999999999Z. -/
def last : Timestamp := ofParts 253402207200 999999999

/-- The point in time that lies `d` later, if there is one. -/
def add? (t : Timestamp) (d : Duration) : Option Timestamp :=
  let later : Int := t.nanos + d.nanos
  if later ≤ last.nanos then some ⟨later⟩ else none

end Timestamp

end ChunkedStorage
