import ChunkedStorage.Failure
import ChunkedStorage.Span
import ChunkedStorage.Text.Blank
import ChunkedStorage.Text.Decimal

/-!
# Range requests

A request for a contiguous part of a logical file, as callers make it or as a `Range` header states it. Its bounds are
checked, and clamped to the file, when it is resolved.
-/

namespace ChunkedStorage

inductive RangeLength where
  | bytes (count : Int)
  /-- Everything from the start to the end of the file. -/
  | toEnd
deriving DecidableEq

def RangeLength.text : RangeLength → String
  | bytes count => toString count
  | toEnd => "to-end"

structure RangeRequest where
  start : Int
  length : RangeLength
deriving DecidableEq

namespace RangeRequest

def text (r : RangeRequest) : String := s!"start={r.start} length={r.length.text}"

/-- The span of a file of `totalSize` bytes that is asked for, ending where the file ends at the latest. -/
def resolve (r : RangeRequest) (totalSize : Nat) : Except Failure Span :=
  let invalid := Failure.invalidRange r.start r.length.text totalSize
  if r.start < 0 then
    .error invalid
  else
    let start := r.start.toNat
    if totalSize ≤ start then
      .error invalid
    else
      match r.length with
      | .toEnd => .ok ⟨start, totalSize⟩
      | .bytes count =>
        if count < 0 then .error invalid
        else .ok ⟨start, min (saturatingAdd start count.toNat) totalSize⟩

/-! ### Header values -/

/-- The two sides of the first dash of a text, if it has one. -/
def splitDash (s : List Char) : Option (List Char × List Char) :=
  match s.dropWhile (· ≠ '-') with
  | [] => none
  | _ :: rest => some (s.takeWhile (· ≠ '-'), rest)

/-- The request that the value after `bytes=` makes. -/
def ofSpec? (spec : List Char) (totalSize : Nat) : Option RangeRequest := do
  if ',' ∈ spec then failure
  let (first, last) ← splitDash spec
  let first := Text.trim first
  let last := Text.trim last
  if first = [] then
    let count ← Text.natural? last
    let start := totalSize - count
    if start < signedLimit then some ⟨start, .toEnd⟩ else none
  else
    let start ← Text.integer? first
    if last = [] then
      some ⟨start, .toEnd⟩
    else
      let stop ← Text.integer? last
      if start ≤ stop then some ⟨start, .bytes (min (stop - start + 1) (signedLimit - 1))⟩ else none

/-- Reads a `Range` header value of one range: `bytes=a-b`, `bytes=a-`, or `bytes=-n` for the last `n` bytes. -/
def ofHeader (header : String) (totalSize : Nat) : Except Failure RangeRequest :=
  match Text.trim header.toList with
  | 'b' :: 'y' :: 't' :: 'e' :: 's' :: '=' :: spec =>
    match ofSpec? spec totalSize with
    | some request => .ok request
    | none => .error (.rangeHeader header)
  | _ => .error (.rangeHeader header)

end RangeRequest

end ChunkedStorage
