import ChunkedStorage.Metadata
import ChunkedStorage.Proofs.Tables
import Mathlib.Data.List.Nodup

/-!
# Records in memory

The numbers of files and of their chunks never pass the last number that was given (`Metadata.Numbered`), whatever is
recorded or deleted.  The recording of chunks can go three ways (`Metadata.Records`).  A new file has no chunks yet, and
the listing of its chunks is what is recorded for it (`Numbered.createChunks_list`).
-/

namespace ChunkedStorage.Metadata

/-! ### Numbers -/

/-- No number is beyond the last one. -/
structure Numbered (m : Metadata) : Prop where
  files : ∀ e ∈ m.files, e.1 ≤ m.last
  chunks : ∀ e ∈ m.chunks, e.1 ≤ m.last

theorem numbered_empty : empty.Numbered := ⟨by simp [empty], by simp [empty]⟩

namespace Numbered

variable {m : Metadata}

theorem create (h : m.Numbered) (file : LogicalFile) : (m.create file).2.Numbered where
  files := by
    intro e he
    rcases List.mem_cons.1 he with rfl | he
    · exact Nat.le_refl _
    · exact Nat.le_succ_of_le (h.files e he)
  chunks := fun e he => Nat.le_succ_of_le (h.chunks e he)

private theorem setRecorded {id : Nat} (h : m.Numbered) (hid : id ≤ m.last) (chunks : List Chunk) :
    (m.setRecorded id chunks).Numbered where
  files := h.files
  chunks := by
    intro e he
    rcases List.mem_cons.1 he with rfl | he
    · exact hid
    · exact h.chunks e (List.mem_filter.1 he).1

private theorem le_of_file? {id : Nat} {file : LogicalFile} (h : m.Numbered) (hfile : m.file? id = some file) :
    id ≤ m.last := by
  unfold file? at hfile
  obtain ⟨before, after, hfiles, -⟩ := List.lookup_eq_some_iff.1 hfile
  exact h.files (id, file) (by simp [hfiles])

theorem createChunks (h : m.Numbered) (id : Nat) (chunks : List Chunk) : (m.createChunks id chunks).2.Numbered := by
  unfold Metadata.createChunks
  cases hfile : m.file? id with
  | none => exact h
  | some file =>
    have hid := h.le_of_file? hfile
    simp only [Option.isNone_some, Bool.false_eq_true, if_false]
    split
    · exact h.setRecorded hid _
    · exact h.setRecorded hid _

theorem delete (h : m.Numbered) (id : Nat) : (m.delete id).2.Numbered := by
  unfold Metadata.delete
  split
  · exact h
  · refine ⟨?_, h.chunks⟩
    intro e he
    obtain ⟨e', he', rfl⟩ := List.mem_map.1 he
    have := h.files e' he'
    simp only
    split <;> exact this

end Numbered

/-! ### Lookups -/

theorem file?_create (m : Metadata) (file : LogicalFile) (id : Nat) :
    (m.create file).2.file? id = if id = m.last + 1 then some file else m.file? id := Tables.lookup_cons_eq ..

theorem recorded_setRecorded (m : Metadata) (id : Nat) (chunks : List Chunk) (other : Nat) :
    (m.setRecorded id chunks).recorded other = if other = id then chunks else m.recorded other := by
  simp only [recorded, Metadata.setRecorded, Tables.lookup_cons_eq, Tables.lookup_filter_ne]
  split <;> rfl

theorem file?_delete (m : Metadata) (id other : Nat) :
    (m.delete id).2.file? other =
      if other = id then (m.file? id).map fun file => { file with deleted := true } else m.file? other := by
  unfold Metadata.delete
  cases hfile : m.file? id with
  | none =>
    by_cases hother : other = id
    · simp [hother, hfile]
    · simp [hother]
  | some file =>
    have hmap := Tables.lookup_map_at m.files id (fun file : LogicalFile => { file with deleted := true }) other
    rw [show m.files.lookup id = some file from hfile] at hmap
    exact hmap

@[simp] theorem recorded_delete (m : Metadata) (id other : Nat) :
    (m.delete id).2.recorded other = m.recorded other := by
  unfold Metadata.delete
  split <;> rfl

theorem createChunks_of_unknown {m : Metadata} {id : Nat} (hfile : m.file? id = none) (chunks : List Chunk) :
    m.createChunks id chunks = (.error (.unknownFile id), m) := by
  unfold Metadata.createChunks
  rw [if_pos (by rw [hfile]; rfl)]

theorem file?_createChunks (m : Metadata) (id : Nat) (chunks : List Chunk) (other : Nat) :
    (m.createChunks id chunks).2.file? other = m.file? other := by
  unfold Metadata.createChunks
  split
  · rfl
  · split <;> rfl

theorem recorded_createChunks_of_ne (m : Metadata) {id other : Nat} (chunks : List Chunk) (hother : other ≠ id) :
    (m.createChunks id chunks).2.recorded other = m.recorded other := by
  unfold Metadata.createChunks
  split
  · rfl
  · split <;> rw [recorded_setRecorded, if_neg hother]

@[simp] theorem last_createChunks (m : Metadata) (id : Nat) (chunks : List Chunk) :
    (m.createChunks id chunks).2.last = m.last := by
  unfold Metadata.createChunks
  split
  · rfl
  · split <;> rfl

@[simp] theorem last_delete (m : Metadata) (id : Nat) : (m.delete id).2.last = m.last := by
  unfold Metadata.delete
  split <;> rfl

theorem delete_of_unknown {m : Metadata} {id : Nat} (hfile : m.file? id = none) :
    m.delete id = (.error (.unknownFile id), m) := by
  unfold Metadata.delete
  rw [hfile]

theorem delete_ok_iff {m : Metadata} {id : Nat} : (m.delete id).1 = .ok () ↔ ∃ file, m.file? id = some file := by
  unfold Metadata.delete
  cases m.file? id <;> simp

/-! ### Recording chunks -/

/-- Chunks are added up to the first index that is taken. -/
private theorem addChunks_cases (id : Nat) {known new : List Chunk} (hknown : (known.map Chunk.index).Nodup) :
    (((known ++ new).map Chunk.index).Nodup ∧ addChunks id known new = (.ok (), known ++ new)) ∨
      ∃ front c back, new = front ++ c :: back ∧ ((known ++ front).map Chunk.index).Nodup ∧
        c.index ∈ (known ++ front).map Chunk.index ∧
        addChunks id known new = (.error (.duplicateChunk id c.index), known ++ front) := by
  induction new generalizing known with
  | nil => exact .inl ⟨by rwa [List.append_nil], by rw [addChunks, List.append_nil]⟩
  | cons c rest ih =>
    by_cases htaken : c.index ∈ known.map Chunk.index
    · have hany : known.any (·.index == c.index) = true := by simpa using htaken
      refine .inr ⟨[], c, rest, rfl, by rwa [List.append_nil], by rwa [List.append_nil], ?_⟩
      rw [addChunks, if_pos hany, List.append_nil]
    · have hany : ¬ known.any (·.index == c.index) = true := by simpa using htaken
      have hfresh : ((known ++ [c]).map Chunk.index).Nodup := by
        rw [List.map_append, List.map_singleton, List.nodup_append]
        refine ⟨hknown, List.nodup_singleton _, ?_⟩
        intro a ha b hb
        rintro rfl
        rw [List.mem_singleton.1 hb] at ha
        exact htaken ha
      rcases ih hfresh with ⟨hnodup, hadd⟩ | ⟨front, c', back, rfl, hnodup, htaken', hadd⟩
      · rw [← List.append_cons] at hnodup hadd
        exact .inl ⟨hnodup, by rw [addChunks, if_neg hany, hadd]⟩
      · rw [← List.append_cons] at hnodup htaken' hadd
        exact .inr ⟨c :: front, c', back, rfl, hnodup, htaken', by rw [addChunks, if_neg hany, hadd]⟩

/-- Chunks in strict order of their indices. -/
def Increasing (chunks : List Chunk) : Prop := chunks.Pairwise fun a b => a.index < b.index

theorem Increasing.nodup {chunks : List Chunk} (h : Increasing chunks) : (chunks.map Chunk.index).Nodup :=
  List.pairwise_map.2 (h.imp Nat.ne_of_lt)

theorem sorted_perm (chunks : List Chunk) : (sorted chunks).Perm chunks := List.mergeSort_perm ..

theorem increasing_sorted {chunks : List Chunk} (h : (chunks.map Chunk.index).Nodup) : Increasing (sorted chunks) := by
  have hordered : (sorted chunks).Pairwise fun a b => decide (a.index ≤ b.index) = true := by
    refine List.pairwise_mergeSort ?_ ?_ chunks
    · intro a b c
      simp only [decide_eq_true_eq]
      exact Nat.le_trans
    · intro a b
      simp only [Bool.or_eq_true, decide_eq_true_eq]
      exact Nat.le_total ..
  have hdistinct : (sorted chunks).Pairwise fun a b => a.index ≠ b.index :=
    List.pairwise_map.1 (((sorted_perm chunks).map Chunk.index).nodup_iff.2 h)
  exact (hordered.and hdistinct).imp fun h => Nat.lt_of_le_of_ne (of_decide_eq_true h.1) h.2

theorem sorted_of_increasing {chunks : List Chunk} (h : Increasing chunks) : sorted chunks = chunks := by
  refine List.mergeSort_of_pairwise (h.imp ?_)
  intro a b hlt
  exact decide_eq_true (Nat.le_of_lt hlt)

/-- The ways in which the recording of chunks of a file may go, with what is recorded for it afterwards. -/
inductive Records (m : Metadata) (id : Nat) (chunks : List Chunk) : Except MetadataFault Unit → List Chunk → Prop where
  | unknown (hfile : m.file? id = none) : Records m id chunks (.error (.unknownFile id)) (m.recorded id)
  | stopped {front back : List Chunk} {c : Chunk} (hfile : m.file? id ≠ none) (hsplit : chunks = front ++ c :: back)
      (hfresh : ((m.recorded id ++ front).map Chunk.index).Nodup)
      (htaken : c.index ∈ (m.recorded id ++ front).map Chunk.index) :
      Records m id chunks (.error (.duplicateChunk id c.index)) (m.recorded id ++ front)
  | whole (hfile : m.file? id ≠ none) (hfresh : ((m.recorded id ++ chunks).map Chunk.index).Nodup) :
      Records m id chunks (.ok ()) (sorted (m.recorded id ++ chunks))

theorem records_createChunks {m : Metadata} {id : Nat} (hdistinct : ((m.recorded id).map Chunk.index).Nodup)
    (chunks : List Chunk) :
    m.Records id chunks (m.createChunks id chunks).1 ((m.createChunks id chunks).2.recorded id) := by
  by_cases hfile : m.file? id = none
  · rw [createChunks_of_unknown hfile]
    exact .unknown hfile
  · unfold Metadata.createChunks
    rw [if_neg (by simpa using hfile)]
    rcases addChunks_cases id hdistinct with ⟨hfresh, hadd⟩ | ⟨front, c, back, hsplit, hfresh, htaken, hadd⟩
    · rw [hadd]
      simp only [recorded_setRecorded, if_true]
      exact .whole hfile hfresh
    · rw [hadd]
      simp only [recorded_setRecorded, if_true]
      exact .stopped hfile hsplit hfresh htaken

/-- Chunks are recorded if no index is taken. -/
theorem createChunks_ok {m : Metadata} {id : Nat} {chunks : List Chunk} (hfile : m.file? id ≠ none)
    (hfresh : ((m.recorded id ++ chunks).map Chunk.index).Nodup) :
    (m.createChunks id chunks).1 = .ok () ∧
      (m.createChunks id chunks).2.recorded id = sorted (m.recorded id ++ chunks) := by
  have hdistinct : ((m.recorded id).map Chunk.index).Nodup := by
    rw [List.map_append] at hfresh
    exact hfresh.of_append_left
  have hrecords := records_createChunks hdistinct chunks
  generalize (m.createChunks id chunks).1 = result at hrecords ⊢
  generalize (m.createChunks id chunks).2.recorded id = recorded at hrecords ⊢
  cases hrecords with
  | unknown hnone => exact absurd hnone hfile
  | stopped _ hsplit _ htaken =>
    rw [hsplit, ← List.append_assoc, List.map_append, List.nodup_append] at hfresh
    exact absurd rfl (hfresh.2.2 _ htaken _ (by simp))
  | whole => exact ⟨rfl, rfl⟩

/-! ### New files -/

/-- A file that was just recorded gets its chunks, and they are listed as they are. -/
theorem Numbered.createChunks_list {m : Metadata} (h : m.Numbered) (file : LogicalFile) {chunks : List Chunk}
    (hindices : ∀ (i : Nat) (c : Chunk), chunks[i]? = some c → c.index = i)
    (hdeleted : ∀ c ∈ chunks, c.deleted = false) :
    ∃ m', (m.create file).2.createChunks (m.create file).1 chunks = (.ok (), m') ∧
      m'.file? (m.create file).1 = some file ∧ m'.list (m.create file).1 = chunks ∧ m'.Numbered := by
  have hnumbered := (h.create file).createChunks (m.create file).1 chunks
  have hfile : (m.create file).2.file? (m.create file).1 = some file :=
    (file?_create m file (m.last + 1)).trans (if_pos rfl)
  -- the number of the file is new, and so nothing is recorded for it
  have hnone : (m.create file).2.recorded (m.create file).1 = [] := by
    have hlookup : m.chunks.lookup (m.last + 1) = none := by
      rw [List.lookup_eq_none_iff]
      intro e he
      have := h.chunks e he
      simp
      omega
    simp [Metadata.create, recorded, hlookup]
  have hincreasing : Increasing chunks := by
    rw [Increasing, List.pairwise_iff_getElem]
    intro i j hi hj hij
    rwa [hindices i chunks[i] (List.getElem?_eq_getElem hi), hindices j chunks[j] (List.getElem?_eq_getElem hj)]
  have hfresh : (((m.create file).2.recorded (m.create file).1 ++ chunks).map Chunk.index).Nodup := by
    rw [hnone]
    exact hincreasing.nodup
  obtain ⟨hresult, hrecorded⟩ := createChunks_ok (by rw [hfile]; exact Option.some_ne_none file) hfresh
  refine ⟨_, Prod.ext hresult rfl, by rw [file?_createChunks, hfile], ?_, hnumbered⟩
  rw [list, hrecorded, hnone, List.nil_append, sorted_of_increasing hincreasing, List.filter_eq_self]
  simpa using hdeleted

end ChunkedStorage.Metadata
