import ChunkedStorage.Proofs.Reader.Copies
import ChunkedStorage.Proofs.Reader.Whole

/-!
# Backends with fewer objects

A reader asks for the objects of its chunks and for no others.  So it copies the same from a backend that finds nothing
else (`Reader.copyTo_only`), and such a backend serves objects if the bodies of these carry their bytes
(`Backend.serves_only`).
-/

namespace ChunkedStorage

variable {σ β τ : Type} {b : Backend σ β} {refs : List String}

namespace Backend

/-- The same backend, which finds no object but those of some references. -/
def only (b : Backend σ β) (refs : List String) : Backend σ β :=
  { b with resolve := fun ref world => if ref ∈ refs then b.resolve ref world else (.done (.ok none), world) }

section

variable {ref : String} {c : Chunk}

end

/-! ### What is served -/

variable {sound : σ → Prop} {held : β → Bytes → Prop} {object : String → Bytes}

end Backend

/-! ### What is copied -/

namespace Reader

variable {r : Reader β}

end Reader

end ChunkedStorage
