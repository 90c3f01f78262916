import ChunkedStorage.Chunk
import ChunkedStorage.Json.Reader
import ChunkedStorage.Json.Value
import ChunkedStorage.Text.Utf8

/-!
# Manifests

The JSON form of logical files, chunks and manifests.
-/

namespace ChunkedStorage

namespace LogicalFile

def shape : Json.Shape LogicalFile where
  title := "struct LogicalFile"
  fields :=
    [ .required "name" (Json.text "a string") fun f name => { f with name },
      .required "total_size" (Json.word "u64") fun f totalSize => { f with totalSize },
      .required "chunk_size" (Json.word "u64") fun f chunkSize => { f with chunkSize },
      .required "chunked" Json.boolean fun f chunked => { f with chunked },
      .nullable "checksum" (Json.nullable (Json.text "a string")) fun f checksum => { f with checksum },
      .optional "deleted" Json.boolean fun f deleted => { f with deleted } ]

def read : Json.Reader LogicalFile :=
  shape.read { name := "", totalSize := 0, chunkSize := 0, chunked := false, checksum := none, deleted := false }

def value (f : LogicalFile) : Json.Value :=
  .object
    [ ("name", .text f.name),
      ("total_size", .number f.totalSize),
      ("chunk_size", .number f.chunkSize),
      ("chunked", .boolean f.chunked),
      ("checksum", f.checksum.elim .null .text),
      ("deleted", .boolean f.deleted) ]

end LogicalFile

namespace Chunk

def shape : Json.Shape Chunk where
  title := "struct Chunk"
  fields :=
    [ .required "index" (Json.word "usize") fun c index => { c with index },
      .required "start_offset" (Json.word "u64") fun c start => { c with start },
      .required "end_offset" (Json.word "u64") fun c stop => { c with stop },
      .required "remote_ref" (Json.text "a string") fun c remoteRef => { c with remoteRef },
      .required "checksum" (Json.text "a string") fun c checksum => { c with checksum },
      .optional "deleted" Json.boolean fun c deleted => { c with deleted } ]

def read : Json.Reader Chunk :=
  shape.read { index := 0, start := 0, stop := 0, remoteRef := "", checksum := "", deleted := false }

def value (c : Chunk) : Json.Value :=
  .object
    [ ("index", .number c.index),
      ("start_offset", .number c.start),
      ("end_offset", .number c.stop),
      ("remote_ref", .text c.remoteRef),
      ("checksum", .text c.checksum),
      ("deleted", .boolean c.deleted) ]

end Chunk

namespace Manifest

def shape : Json.Shape Manifest where
  title := "struct Manifest"
  fields :=
    [ .required "file" LogicalFile.read fun m file => { m with file },
      .required "chunks" (Json.list Chunk.read) fun m chunks => { m with chunks } ]

def read : Json.Reader Manifest :=
  shape.read
    { file := { name := "", totalSize := 0, chunkSize := 0, chunked := false, checksum := none, deleted := false }
      chunks := [] }

def value (m : Manifest) : Json.Value :=
  .object [("file", m.file.value), ("chunks", .list (m.chunks.map Chunk.value))]

/-- The text of a manifest file. -/
def render (m : Manifest) : String := m.value.pretty

def parse (source : Json.Source) : Except Json.Fault Manifest := Json.readAll read source

end Manifest

end ChunkedStorage
