import ChunkedStorage.Layout

/-!
# Chunk listings

The check that a list of chunk records is the layout of a file: indices count from zero, the chunks meet and cover the
file, all but the last are as long as the first, and the last is no longer.
-/

namespace ChunkedStorage.Listing

/-- Checks one chunk and gives the offset where the next has to start. -/
def checkChunk (nominal position expected : Nat) (isLast : Bool) (c : Chunk) : Except LayoutFault Nat :=
  if c.index ≠ position then
    .error (.wrongIndex position c.index)
  else if c.start ≠ expected ∨ c.stop < c.start then
    .error (.misplaced c.index c.start c.stop expected)
  else if isLast = false ∧ c.length ≠ nominal then
    .error (.uneven c.index c.length nominal)
  else if nominal < c.length then
    .error (.oversized c.index c.length nominal)
  else
    .ok c.stop

/-- Checks the chunks from a position on and gives the offset where the last ends. -/
def checkFrom (nominal : Nat) : (position expected : Nat) → List Chunk → Except LayoutFault Nat
  | _, expected, [] => .ok expected
  | position, expected, c :: rest =>
    match checkChunk nominal position expected rest.isEmpty c with
    | .error fault => .error fault
    | .ok stop => checkFrom nominal (position + 1) stop rest

/-- Checks that the chunks are a layout of a file of `totalSize` bytes. The length of the first chunk is taken before
its offsets are looked at: if it is reversed it counts as empty, where a machine that checks its subtractions would give
up, and one that wraps would go on with a huge length. No other length is taken of a reversed chunk. -/
def verify (chunks : List Chunk) (totalSize : Nat) : Except Failure Unit :=
  match chunks with
  | [] => .error .emptyListing
  | first :: rest =>
    if first.length = 0 ∧ rest ≠ [] then
      .error (.layoutCorrupted (.emptyFirst chunks.length))
    else
      match checkFrom first.length 0 0 chunks with
      | .error fault => .error (.layoutCorrupted fault)
      | .ok covered =>
        if covered = totalSize then .ok () else .error (.layoutCorrupted (.wrongTotal covered totalSize))

end ChunkedStorage.Listing
