/-!
# Metrics

Counters of what readers and uploads have done.
-/

namespace ChunkedStorage

inductive Counter where
  | bytesDelivered
  | resolveRetries
  | openRetries
  | transferFailures
  | chunksStored
  | bytesStored
deriving DecidableEq

structure Metrics where
  bytesDelivered : Nat := 0
  resolveRetries : Nat := 0
  openRetries : Nat := 0
  transferFailures : Nat := 0
  chunksStored : Nat := 0
  bytesStored : Nat := 0
deriving DecidableEq

def Metrics.count (m : Metrics) (counter : Counter) (n : Nat) : Metrics :=
  match counter with
  | .bytesDelivered => { m with bytesDelivered := m.bytesDelivered + n }
  | .resolveRetries => { m with resolveRetries := m.resolveRetries + n }
  | .openRetries => { m with openRetries := m.openRetries + n }
  | .transferFailures => { m with transferFailures := m.transferFailures + n }
  | .chunksStored => { m with chunksStored := m.chunksStored + n }
  | .bytesStored => { m with bytesStored := m.bytesStored + n }

end ChunkedStorage
