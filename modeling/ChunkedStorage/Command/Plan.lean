import ChunkedStorage.Command
import ChunkedStorage.Config

/-!
# The plan of a file

The lines that say how a file of a given size would be stored.
-/

namespace ChunkedStorage

/-- Fills a text with blanks up to a width. -/
def padding (width : Nat) (text : String) : String := "".pushn ' ' (width - text.length)

/-- The line of one chunk. -/
def ChunkBounds.line (b : ChunkBounds) : String :=
  let index := toString b.index
  let start := toString b.start
  let stop := toString b.stop
  s!"chunk {padding 4 index}{index}  {padding 15 start}{start}..{stop}{padding 15 stop}  {b.length} bytes"

namespace PlanCommand

def chunkSize (p : PlanCommand) (c : ChunkingConfig) : Nat := p.chunkSize?.getD c.maxChunkSize

def headLine (p : PlanCommand) (c : ChunkingConfig) : String :=
  s!"size: {p.size} bytes, chunk size: {p.chunkSize c} bytes, threshold: {c.chunkThreshold} bytes"

def singleLine : String := "below threshold: stored as a single object"

def countLine (count : Nat) : String := s!"chunks: {count}"

/-- The lines of a plan. -/
def lines (p : PlanCommand) (c : ChunkingConfig) : Except Failure (List String) :=
  if requiresChunking p.size c.chunkThreshold then
    match Layout.create p.size (p.chunkSize c) with
    | .error failure => .error failure
    | .ok l => .ok (p.headLine c :: countLine l.count :: l.bounds.map ChunkBounds.line)
  else .ok [p.headLine c, singleLine]

end PlanCommand

end ChunkedStorage
