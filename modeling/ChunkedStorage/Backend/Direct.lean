import ChunkedStorage.Backend
import ChunkedStorage.Http
import ChunkedStorage.ObjectDirectory

/-!
# Backends without a script

Reads of an object directory on the disk, and of objects behind an HTTP server.
-/

namespace ChunkedStorage

variable {σ : Type}

/-- Objects are files of the directory. -/
def ObjectDirectory.backend (o : ObjectDirectory) (disk : σ → Disk) (policy : RetryPolicy) (around : Surroundings σ) :
    Backend σ Body where
  toSurroundings := around
  policy
  resolve := fun ref world => (.done ((o.resolve (disk world) ref).mapError .io), world)
  openBody := fun location s world => (.done (openBody (disk world) location s), world)
  readBody := fun body max world =>
    let (delivery, body) := body.read (disk world) Disk.readLimit max
    (.done delivery, body, world)
  closeBody := fun _ world => world
  idle := fun _ _ => 0
  idle_readBody := by
    intro body max world body' world' h
    simp only [Prod.mk.injEq, Reply.done.injEq] at h
    exact absurd h.1 (body.read_ne_empty _ _ _)

/-- Objects are fetched from the URLs that a template gives. -/
def HttpClient.backend (client : HttpClient) (template : UrlTemplate)
    (exchange : HttpRequest → σ → Except String HttpResponse × σ) (policy : RetryPolicy) (around : Surroundings σ) :
    Backend σ Body where
  toSurroundings := around
  policy
  resolve := fun ref world => (.done ((template.resolve ref (around.now world)).map some), world)
  openBody := fun location s world =>
    let (opened, world) := client.openBody exchange location s world
    (.done opened, world)
  readBody := fun body max world =>
    let (delivery, body) := body.read Disk.empty Disk.readLimit max
    (.done delivery, body, world)
  closeBody := fun _ world => world
  idle := fun _ _ => 0
  idle_readBody := by
    intro body max world body' world' h
    simp only [Prod.mk.injEq, Reply.done.injEq] at h
    exact absurd h.1 (body.read_ne_empty _ _ _)

end ChunkedStorage
