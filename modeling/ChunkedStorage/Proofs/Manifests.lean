import ChunkedStorage.Manifest
import ChunkedStorage.Proofs.Json.Records

/-!
# Manifests that are read back

A manifest is read back from the text that is written for it (`Manifest.parse_render`), and from every other text that
gives its records: in any order, among keys that mean nothing, and without a checksum or a deletion that there is not
(`Manifest.parse_of_isText`).
-/

namespace ChunkedStorage

open Json (Document Field Reads IsRecordWith)

/-! ### Files -/

namespace LogicalFile

variable {f : LogicalFile} {d : Document}

/-- The record that a file is read into. -/
def blank : LogicalFile :=
  { name := "", totalSize := 0, chunkSize := 0, chunked := false, checksum := none, deleted := false }

def entries (f : LogicalFile) : List (Json.Entry LogicalFile) :=
  [ ⟨"name", (· = .text f.name), fun r => r.name = f.name⟩,
    ⟨"total_size", (· = (Json.Value.number f.totalSize).document), fun r => r.totalSize = f.totalSize⟩,
    ⟨"chunk_size", (· = (Json.Value.number f.chunkSize).document), fun r => r.chunkSize = f.chunkSize⟩,
    ⟨"chunked", (· = .boolean f.chunked), fun r => r.chunked = f.chunked⟩,
    ⟨"checksum", (· = (f.checksum.elim Json.Value.null .text).document), fun r => r.checksum = f.checksum⟩,
    ⟨"deleted", (· = .boolean f.deleted), fun r => r.deleted = f.deleted⟩ ]

/-- The document gives the file, which has no checksum and is not deleted if nothing says so. -/
def IsDocument (f : LogicalFile) (d : Document) : Prop :=
  IsRecordWith ["name", "total_size", "chunk_size", "chunked"] f.entries blank d

/-- Sizes are words. -/
structure WellFormed (f : LogicalFile) : Prop where
  totalSize : f.totalSize < wordLimit
  chunkSize : f.chunkSize < wordLimit

theorem reads (hf : f.WellFormed) (hd : f.IsDocument d) : Reads read d f := by
  have hsets : List.Forall₂ (Field.Sets f.entries) shape.fields f.entries := by
    refine .cons ?_ (.cons ?_ (.cons ?_ (.cons ?_ (.cons ?_ (.cons ?_ .nil)))))
    · exact Field.sets_required (Field.sets_document (Json.reads_text _ _) (fun _ => rfl) (by simp [entries]))
    · exact Field.sets_required
        (Field.sets_document (Json.reads_word _ hf.totalSize) (fun _ => rfl) (by simp [entries]))
    · exact Field.sets_required
        (Field.sets_document (Json.reads_word _ hf.chunkSize) (fun _ => rfl) (by simp [entries]))
    · exact Field.sets_required (Field.sets_document (Json.reads_boolean _) (fun _ => rfl) (by simp [entries]))
    · exact Field.sets_nullable
        (Field.sets_document (Json.reads_text? _ f.checksum) (fun _ => rfl) (by simp [entries]))
    · exact Field.sets_document (Json.reads_boolean _) (fun _ => rfl) (by simp [entries])
  obtain ⟨⟨name, totalSize, chunkSize, chunked, checksum, deleted⟩, hread, hholds⟩ :=
    IsRecordWith.reads hd hsets (by simp [entries]) (by decide)
  simp only [entries, List.forall_mem_cons] at hholds
  obtain ⟨rfl, rfl, rfl, rfl, rfl, rfl, -⟩ := hholds
  exact hread

theorem isDocument_value (f : LogicalFile) : f.IsDocument f.value.document := by
  refine ⟨_, rfl, by simp [Json.Value.namedDocuments], Json.describes_of_forall₂ ?_ (by simp [entries]) blank⟩
  exact .cons ⟨rfl, rfl⟩ (.cons ⟨rfl, rfl⟩ (.cons ⟨rfl, rfl⟩ (.cons ⟨rfl, rfl⟩
    (.cons ⟨rfl, rfl⟩ (.cons ⟨rfl, rfl⟩ .nil)))))

end LogicalFile

/-! ### Chunks -/

namespace Chunk

variable {c : Chunk} {d : Document}

/-- The record that a chunk is read into. -/
def blank : Chunk := { index := 0, start := 0, stop := 0, remoteRef := "", checksum := "", deleted := false }

def entries (c : Chunk) : List (Json.Entry Chunk) :=
  [ ⟨"index", (· = (Json.Value.number c.index).document), fun r => r.index = c.index⟩,
    ⟨"start_offset", (· = (Json.Value.number c.start).document), fun r => r.start = c.start⟩,
    ⟨"end_offset", (· = (Json.Value.number c.stop).document), fun r => r.stop = c.stop⟩,
    ⟨"remote_ref", (· = .text c.remoteRef), fun r => r.remoteRef = c.remoteRef⟩,
    ⟨"checksum", (· = .text c.checksum), fun r => r.checksum = c.checksum⟩,
    ⟨"deleted", (· = .boolean c.deleted), fun r => r.deleted = c.deleted⟩ ]

/-- The document gives the chunk, which is not deleted if nothing says so. -/
def IsDocument (c : Chunk) (d : Document) : Prop :=
  IsRecordWith ["index", "start_offset", "end_offset", "remote_ref", "checksum"] c.entries blank d

/-- The index and the offsets are words. -/
structure WellFormed (c : Chunk) : Prop where
  index : c.index < wordLimit
  start : c.start < wordLimit
  stop : c.stop < wordLimit

theorem reads (hc : c.WellFormed) (hd : c.IsDocument d) : Reads read d c := by
  have hsets : List.Forall₂ (Field.Sets c.entries) shape.fields c.entries := by
    refine .cons ?_ (.cons ?_ (.cons ?_ (.cons ?_ (.cons ?_ (.cons ?_ .nil)))))
    · exact Field.sets_required (Field.sets_document (Json.reads_word _ hc.index) (fun _ => rfl) (by simp [entries]))
    · exact Field.sets_required (Field.sets_document (Json.reads_word _ hc.start) (fun _ => rfl) (by simp [entries]))
    · exact Field.sets_required (Field.sets_document (Json.reads_word _ hc.stop) (fun _ => rfl) (by simp [entries]))
    · exact Field.sets_required (Field.sets_document (Json.reads_text _ _) (fun _ => rfl) (by simp [entries]))
    · exact Field.sets_required (Field.sets_document (Json.reads_text _ _) (fun _ => rfl) (by simp [entries]))
    · exact Field.sets_document (Json.reads_boolean _) (fun _ => rfl) (by simp [entries])
  obtain ⟨⟨index, start, stop, remoteRef, checksum, deleted⟩, hread, hholds⟩ :=
    IsRecordWith.reads hd hsets (by simp [entries]) (by decide)
  simp only [entries, List.forall_mem_cons] at hholds
  obtain ⟨rfl, rfl, rfl, rfl, rfl, rfl, -⟩ := hholds
  exact hread

theorem isDocument_value (c : Chunk) : c.IsDocument c.value.document := by
  refine ⟨_, rfl, by simp [Json.Value.namedDocuments], Json.describes_of_forall₂ ?_ (by simp [entries]) blank⟩
  exact .cons ⟨rfl, rfl⟩ (.cons ⟨rfl, rfl⟩ (.cons ⟨rfl, rfl⟩ (.cons ⟨rfl, rfl⟩
    (.cons ⟨rfl, rfl⟩ (.cons ⟨rfl, rfl⟩ .nil)))))

end Chunk

/-! ### Whole manifests -/

namespace Manifest

variable {m : Manifest} {d : Document}

/-- The record that a manifest is read into. -/
def blank : Manifest := ⟨LogicalFile.blank, []⟩

def entries (m : Manifest) : List (Json.Entry Manifest) :=
  [ ⟨"file", m.file.IsDocument, fun r => r.file = m.file⟩,
    ⟨"chunks", fun d => ∃ ds, d = .list ds ∧ List.Forall₂ (fun d c => c.IsDocument d) ds m.chunks,
      fun r => r.chunks = m.chunks⟩ ]

/-- The document gives the manifest: each of its keys stands once and has the document of its value, and keys of other
names have any document.  This holds of the records inside as well, where keys may be missing whose values are
understood. -/
def IsDocument (m : Manifest) (d : Document) : Prop := IsRecordWith ["file", "chunks"] m.entries blank d

/-- All numbers are words. -/
structure WellFormed (m : Manifest) : Prop where
  file : m.file.WellFormed
  chunks : ∀ c ∈ m.chunks, c.WellFormed

private theorem reads_chunks {chunks : List Chunk} {ds : List Document} (hchunks : ∀ c ∈ chunks, c.WellFormed)
    (hds : List.Forall₂ (fun d c => Chunk.IsDocument c d) ds chunks) : List.Forall₂ (Reads Chunk.read) ds chunks := by
  induction hds with
  | nil => exact .nil
  | cons hd _ ih =>
    obtain ⟨hfirst, hrest⟩ := List.forall_mem_cons.1 hchunks
    exact .cons (Chunk.reads hfirst hd) (ih hrest)

theorem reads (hm : m.WellFormed) (hd : m.IsDocument d) : Reads read d m := by
  have hsets : List.Forall₂ (Field.Sets m.entries) shape.fields m.entries := by
    refine .cons (Field.sets_required ?_) (.cons (Field.sets_required ?_) .nil)
    · exact Field.sets_optional (fun d hd => ⟨_, LogicalFile.reads hm.file hd, fun _ => rfl⟩) (by simp [entries])
    · refine Field.sets_optional ?_ (by simp [entries])
      rintro d ⟨ds, rfl, hds⟩
      exact ⟨_, Json.reads_list (reads_chunks hm.chunks hds), fun _ => rfl⟩
  obtain ⟨⟨file, chunks⟩, hread, hholds⟩ := IsRecordWith.reads hd hsets (by simp [entries]) (by decide)
  simp only [entries, List.forall_mem_cons] at hholds
  obtain ⟨rfl, rfl, -⟩ := hholds
  exact hread

private theorem documents_chunks (chunks : List Chunk) :
    List.Forall₂ (fun d c => Chunk.IsDocument c d) (Json.Value.documents (chunks.map Chunk.value)) chunks := by
  induction chunks with
  | nil => exact .nil
  | cons c chunks ih => exact .cons (Chunk.isDocument_value c) ih

theorem isDocument_value (m : Manifest) : m.IsDocument m.value.document := by
  refine ⟨_, rfl, by simp [Json.Value.namedDocuments], Json.describes_of_forall₂ ?_ (by simp [entries]) blank⟩
  exact .cons ⟨rfl, m.file.isDocument_value⟩ (.cons ⟨rfl, _, rfl, documents_chunks m.chunks⟩ .nil)

/-- A manifest is read from every text of its documents. -/
theorem parse_of_isText {s : Json.Source} (hm : m.WellFormed) (hd : m.IsDocument d) (hs : Json.IsText d s) :
    parse s = .ok m :=
  (reads hm hd).readAll hs

/-- A manifest is read back from the text that is written for it. -/
theorem parse_render (hm : m.WellFormed) : parse (Text.decode (Text.encode m.render)) = .ok m := by
  rw [Text.decode_encode]
  exact parse_of_isText hm m.isDocument_value m.value.isText_pretty

end Manifest

end ChunkedStorage
