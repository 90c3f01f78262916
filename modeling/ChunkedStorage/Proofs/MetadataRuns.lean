import ChunkedStorage.ChunkedObject
import ChunkedStorage.Proofs.Metadata
import Mathlib.Data.List.Induction
import Mathlib.Data.List.Perm.Subperm

/-!
# Runs of operations on records

Whatever is done to an empty store, its files are those that were created, deleted if that was asked for, and the chunks
of each have indices of their own (`Metadata.Faithful`, `Metadata.Distinct`).
-/

namespace ChunkedStorage.Metadata

/-! ### Operations -/

inductive Operation where
  | create (file : LogicalFile)
  | createChunks (id : Nat) (chunks : List Chunk)
  | file (id : Nat)
  | list (id : Nat)
  | delete (id : Nat)

/-- What an operation answers. -/
inductive Answer where
  | created (id : Nat)
  | settled (result : Except MetadataFault Unit)
  | found (file? : Option LogicalFile)
  | listed (chunks : List Chunk)

def perform (m : Metadata) : Operation → Answer × Metadata
  | .create file => (.created (m.create file).1, (m.create file).2)
  | .createChunks id chunks => (.settled (m.createChunks id chunks).1, (m.createChunks id chunks).2)
  | .file id => (.found (m.file? id), m)
  | .list id => (.listed (m.list id), m)
  | .delete id => (.settled (m.delete id).1, (m.delete id).2)

/-- Operations with their answers. -/
abbrev Trace := List (Operation × Answer)

/-- What operations on an empty store answer, and what they leave. -/
def run (operations : List Operation) : Trace × Metadata :=
  operations.foldl (fun (past, m) operation =>
    (past ++ [(operation, (m.perform operation).1)], (m.perform operation).2)) ([], empty)

theorem run_concat (operations : List Operation) (operation : Operation) :
    run (operations ++ [operation]) =
      ((run operations).1 ++ [(operation, ((run operations).2.perform operation).1)],
        ((run operations).2.perform operation).2) := List.foldl_concat ..

theorem run_induction {P : Trace → Metadata → Prop} (start : P [] empty)
    (step : ∀ past m operation, P past m → P (past ++ [(operation, (m.perform operation).1)]) (m.perform operation).2)
    (operations : List Operation) : P (run operations).1 (run operations).2 := by
  induction operations using List.reverseRecOn with
  | nil => exact start
  | append_singleton front operation ih =>
    rw [run_concat]
    exact step _ _ operation ih

/-! ### Indices -/

/-- The chunks of a file have indices of their own, and only files that are known have chunks. -/
structure Distinct (m : Metadata) : Prop where
  indices : ∀ id, ((m.recorded id).map Chunk.index).Nodup
  known : ∀ id, m.recorded id ≠ [] → m.file? id ≠ none

namespace Distinct

variable {m : Metadata}

theorem start : empty.Distinct where
  indices := fun _ => List.nodup_nil
  known := fun _ h => absurd rfl h

theorem create (h : m.Distinct) (file : LogicalFile) : (m.create file).2.Distinct where
  indices := h.indices
  known := by
    intro id hchunks
    rw [file?_create]
    split
    · exact Option.some_ne_none file
    · exact h.known id hchunks

theorem createChunks (h : m.Distinct) (id : Nat) (chunks : List Chunk) : (m.createChunks id chunks).2.Distinct where
  indices := by
    intro other
    by_cases hother : other = id
    · subst hother
      have hrecords := records_createChunks (h.indices other) chunks
      generalize (m.createChunks other chunks).1 = result at hrecords
      generalize (m.createChunks other chunks).2.recorded other = recorded at hrecords ⊢
      cases hrecords with
      | unknown => exact h.indices other
      | stopped _ _ hfresh => exact hfresh
      | whole _ hfresh => exact (increasing_sorted hfresh).nodup
    · rw [recorded_createChunks_of_ne m chunks hother]
      exact h.indices other
  known := by
    intro other hchunks
    rw [file?_createChunks]
    by_cases hother : other = id
    · subst hother
      intro hnone
      rw [createChunks_of_unknown hnone] at hchunks
      exact h.known other hchunks hnone
    · rw [recorded_createChunks_of_ne m chunks hother] at hchunks
      exact h.known other hchunks

theorem delete (h : m.Distinct) (id : Nat) : (m.delete id).2.Distinct where
  indices := fun other => by
    rw [recorded_delete]
    exact h.indices other
  known := by
    intro other hchunks
    rw [recorded_delete] at hchunks
    have hknown := h.known other hchunks
    rw [file?_delete]
    split
    · next hother => rwa [← hother, ne_eq, Option.map_eq_none_iff]
    · exact hknown

theorem perform (h : m.Distinct) (operation : Operation) : (m.perform operation).2.Distinct := by
  cases operation with
  | create file => exact h.create file
  | createChunks id chunks => exact h.createChunks id chunks
  | file id | list id => exact h
  | delete id => exact h.delete id

end Distinct

/-! ### Files -/

/-- The number that an operation handed out. -/
def handedOut : Operation × Answer → Option Nat
  | (_, .created id) => some id
  | _ => none

/-- Whether an operation deleted a file. -/
def erases (id : Nat) : Operation × Answer → Bool
  | (.delete other, .settled (.ok ())) => other == id
  | _ => false

def Created (past : Trace) (id : Nat) (record : LogicalFile) : Prop := (.create record, .created id) ∈ past

/-- Whether a file was ever deleted. -/
def isErased (past : Trace) (id : Nat) : Bool := past.any (erases id)

section

variable {past : Trace} {e : Operation × Answer} {id : Nat} {record : LogicalFile}

private theorem created_concat :
    Created (past ++ [e]) id record ↔ Created past id record ∨ e = (.create record, .created id) := by
  simp only [Created, List.mem_append, List.mem_singleton, eq_comm]

private theorem isErased_concat : isErased (past ++ [e]) id = (isErased past id || erases id e) := by
  simp only [isErased, List.any_append, List.any_cons, List.any_nil, Bool.or_false]

end

/-- What is known of files is what happened to them. -/
structure Faithful (past : Trace) (m : Metadata) : Prop where
  /-- Numbers are handed out in order, and never again. -/
  numbers : past.filterMap handedOut = List.range' 1 m.last
  known : ∀ id, m.file? id ≠ none ↔ 1 ≤ id ∧ id ≤ m.last
  files : ∀ id file, m.file? id = some file ↔
    ∃ record, Created past id record ∧ file = { record with deleted := record.deleted || isErased past id }
  erased : ∀ id, isErased past id = true → m.file? id ≠ none

namespace Faithful

variable {past : Trace} {m m' : Metadata}

theorem start : Faithful [] empty where
  numbers := rfl
  known := by
    intro id
    have hnone : empty.file? id = none := rfl
    simp only [hnone, ne_eq, not_true_eq_false, false_iff]
    show ¬ (1 ≤ id ∧ id ≤ 0)
    omega
  files := by
    intro id file
    constructor
    · intro h
      cases h
    · rintro ⟨record, hcreated, -⟩
      cases hcreated
  erased := by
    intro id h
    cases h

/-- An operation that hands out no number and deletes nothing leaves the files as they are. -/
private theorem extend (h : Faithful past m) {e : Operation × Answer} (hhands : handedOut e = none)
    (herases : ∀ id, erases id e = false) (hlast : m'.last = m.last) (hfile : ∀ id, m'.file? id = m.file? id) :
    Faithful (past ++ [e]) m' where
  numbers := by rw [List.filterMap_append, h.numbers, hlast, List.filterMap_cons, hhands, List.filterMap_nil,
    List.append_nil]
  known := by
    intro id
    rw [hfile, hlast]
    exact h.known id
  files := by
    intro id file
    have hne (record : LogicalFile) : e ≠ (.create record, .created id) := by
      rintro rfl
      cases hhands
    simp only [created_concat, isErased_concat, hne, herases, or_false, Bool.or_false, hfile]
    exact h.files id file
  erased := by
    intro id
    rw [isErased_concat, herases, Bool.or_false, hfile]
    exact h.erased id

/-- Nothing happened yet to the file of the next number. -/
private theorem fresh (h : Faithful past m) :
    (∀ record, ¬ Created past (m.last + 1) record) ∧ isErased past (m.last + 1) = false := by
  have hfile : m.file? (m.last + 1) = none := by
    by_contra hsome
    have := (h.known (m.last + 1)).1 hsome
    omega
  constructor
  · intro record hcreated
    have hsome := (h.files (m.last + 1) _).2 ⟨record, hcreated, rfl⟩
    rw [hfile] at hsome
    cases hsome
  · by_contra htrue
    exact h.erased (m.last + 1) (by simpa using htrue) hfile

private theorem create (h : Faithful past m) (record : LogicalFile) :
    Faithful (past ++ [(.create record, .created (m.last + 1))]) (m.create record).2 where
  numbers := by
    have hlast : (m.create record).2.last = m.last + 1 := rfl
    rw [List.filterMap_append, h.numbers, hlast, List.range'_1_concat, Nat.add_comm 1]
    rfl
  known := by
    intro id
    have hlast : (m.create record).2.last = m.last + 1 := rfl
    have hknown := h.known id
    rw [file?_create, hlast]
    by_cases hid : id = m.last + 1
    · simp [hid]
    · rw [if_neg hid, hknown]
      omega
  files := by
    intro id file
    have hnone : erases id (.create record, .created (m.last + 1)) = false := rfl
    simp only [file?_create, created_concat, isErased_concat, hnone, Bool.or_false, Prod.mk.injEq,
      Operation.create.injEq, Answer.created.injEq]
    by_cases hid : id = m.last + 1
    · subst hid
      obtain ⟨hcreated, herased⟩ := h.fresh
      simp only [if_true, Option.some.injEq, and_true, hcreated, false_or, herased, Bool.or_false, exists_eq_left']
      exact eq_comm
    · simp only [hid, Ne.symm hid, if_false, and_false, or_false]
      exact h.files id file
  erased := by
    intro id
    have hnone : erases id (.create record, .created (m.last + 1)) = false := rfl
    rw [isErased_concat, hnone, Bool.or_false, file?_create]
    intro herased
    split
    · exact Option.some_ne_none record
    · exact h.erased id herased

private theorem delete (h : Faithful past m) {id : Nat} (hok : (m.delete id).1 = .ok ()) :
    Faithful (past ++ [(.delete id, .settled (.ok ()))]) (m.delete id).2 where
  numbers := by
    rw [List.filterMap_append, h.numbers, last_delete]
    exact List.append_nil _
  known := by
    intro other
    rw [file?_delete, last_delete, ← h.known other]
    split
    · next hother => rw [hother, ne_eq, ne_eq, Option.map_eq_none_iff]
    · rfl
  files := by
    intro other file
    have herases : erases other (.delete id, .settled (.ok ())) = (id == other) := rfl
    simp only [created_concat, isErased_concat, herases, Prod.mk.injEq, reduceCtorEq, false_and, or_false]
    rw [file?_delete]
    by_cases hother : other = id
    · subst hother
      simp only [if_true, beq_self_eq_true, Bool.or_true, Option.map_eq_some_iff, h.files]
      constructor
      · rintro ⟨old, ⟨record, hcreated, rfl⟩, rfl⟩
        exact ⟨record, hcreated, rfl⟩
      · rintro ⟨record, hcreated, rfl⟩
        exact ⟨_, ⟨record, hcreated, rfl⟩, rfl⟩
    · have hne : (id == other) = false := by simpa using Ne.symm hother
      simp only [hother, if_false, hne, Bool.or_false]
      exact h.files other file
  erased := by
    intro other
    have herases : erases other (.delete id, .settled (.ok ())) = (id == other) := rfl
    rw [isErased_concat, herases, file?_delete]
    intro herased
    split
    · obtain ⟨file, hfile⟩ := delete_ok_iff.1 hok
      simp [hfile]
    · next hother =>
      have hne : (id == other) = false := by simpa using Ne.symm hother
      rw [hne, Bool.or_false] at herased
      exact h.erased other herased

theorem perform (h : Faithful past m) (operation : Operation) :
    Faithful (past ++ [(operation, (m.perform operation).1)]) (m.perform operation).2 := by
  cases operation with
  | create record => exact h.create record
  | createChunks id chunks => exact h.extend rfl (fun _ => rfl) (last_createChunks ..) (file?_createChunks m id chunks)
  | file id | list id => exact h.extend rfl (fun _ => rfl) rfl fun _ => rfl
  | delete id =>
    cases hfile : m.file? id with
    | none =>
      simp only [Metadata.perform, delete_of_unknown hfile]
      exact h.extend rfl (fun _ => rfl) rfl fun _ => rfl
    | some file =>
      have hok := delete_ok_iff.2 ⟨file, hfile⟩
      simp only [Metadata.perform, hok]
      exact h.delete hok

/-- A file that was deleted cannot be opened. -/
theorem ofMetadata_of_erased (h : Faithful past m) {id : Nat} (herased : isErased past id = true) :
    ChunkedObject.ofMetadata .inMemory id m = .error (.fileNotFound id) := by
  obtain ⟨file, hfile⟩ := Option.ne_none_iff_exists'.1 (h.erased id herased)
  have hdeleted : file.deleted = true := by
    obtain ⟨record, -, rfl⟩ := (h.files id file).1 hfile
    simp [herased]
  simp only [ChunkedObject.ofMetadata, MetadataStore.inMemory, hfile, hdeleted, if_true]

end Faithful

/-! ### What operations change -/

/-- The file that an operation may change. -/
def concerned (m : Metadata) : Operation → Option Nat
  | .create _ => some (m.last + 1)
  | .createChunks id _ | .delete id => some id
  | .file _ | .list _ => none

/-- What a call does that records chunks, and what it reports. -/
structure Adds (m : Metadata) (id : Nat) (chunks : List Chunk) : Prop where
  unknown : m.file? id = none → m.createChunks id chunks = (.error (.unknownFile id), m)
  whole : (m.createChunks id chunks).1 = .ok () →
    ((m.createChunks id chunks).2.recorded id).Perm (m.recorded id ++ chunks)
  /-- The chunks before the first one whose index is taken stay. -/
  stopped : ∀ fault, m.file? id ≠ none → (m.createChunks id chunks).1 = .error fault →
    ∃ front c back, chunks = front ++ c :: back ∧ ((m.recorded id ++ front).map Chunk.index).Nodup ∧
      c.index ∈ (m.recorded id ++ front).map Chunk.index ∧ fault = .duplicateChunk id c.index ∧
      (m.createChunks id chunks).2.recorded id = m.recorded id ++ front

/-- Chunks are neither changed nor removed, and no other file is touched. -/
structure Keeps (m : Metadata) (operation : Operation) : Prop where
  chunks : ∀ id, (m.recorded id).Subperm ((m.perform operation).2.recorded id)
  others : ∀ id, m.concerned operation ≠ some id →
    (m.perform operation).2.file? id = m.file? id ∧ (m.perform operation).2.recorded id = m.recorded id

namespace Distinct

variable {m : Metadata} (h : m.Distinct)
include h

private theorem adds (id : Nat) (chunks : List Chunk) : m.Adds id chunks := by
  have hrecords := records_createChunks (h.indices id) chunks
  refine ⟨fun hfile => createChunks_of_unknown hfile chunks, ?_, ?_⟩
  · intro hok
    rw [hok] at hrecords
    generalize (m.createChunks id chunks).2.recorded id = recorded at hrecords ⊢
    cases hrecords with
    | whole => exact sorted_perm _
  · intro fault hfile hfault
    rw [hfault] at hrecords
    generalize (m.createChunks id chunks).2.recorded id = recorded at hrecords ⊢
    cases hrecords with
    | unknown hnone => exact absurd hnone hfile
    | stopped _ hsplit hfresh htaken => exact ⟨_, _, _, hsplit, hfresh, htaken, rfl, rfl⟩

private theorem subperm_createChunks (id : Nat) (chunks : List Chunk) :
    (m.recorded id).Subperm ((m.createChunks id chunks).2.recorded id) := by
  have hrecords := records_createChunks (h.indices id) chunks
  generalize (m.createChunks id chunks).1 = result at hrecords
  generalize (m.createChunks id chunks).2.recorded id = recorded at hrecords ⊢
  cases hrecords with
  | unknown => exact .refl _
  | stopped => exact (List.sublist_append_left ..).subperm
  | whole => exact (List.sublist_append_left ..).subperm.trans (sorted_perm _).symm.subperm

private theorem keeps (operation : Operation) : m.Keeps operation := by
  cases operation with
  | create file =>
    refine ⟨fun _ => .refl _, ?_⟩
    intro id hid
    have hne : id ≠ m.last + 1 := fun hsame => hid (congrArg some hsame.symm)
    exact ⟨(file?_create m file id).trans (if_neg hne), rfl⟩
  | createChunks id chunks =>
    constructor
    · intro other
      by_cases hother : other = id
      · subst hother
        exact h.subperm_createChunks other chunks
      · rw [Metadata.perform, recorded_createChunks_of_ne m chunks hother]
    · intro other hid
      have hne : other ≠ id := fun hsame => hid (congrArg some hsame.symm)
      exact ⟨file?_createChunks m id chunks other, recorded_createChunks_of_ne m chunks hne⟩
  | file id | list id => exact ⟨fun _ => .refl _, fun _ _ => ⟨rfl, rfl⟩⟩
  | delete id =>
    constructor
    · intro other
      rw [Metadata.perform, recorded_delete]
    · intro other hid
      have hne : other ≠ id := fun hsame => hid (congrArg some hsame.symm)
      exact ⟨(file?_delete m id other).trans (if_neg hne), recorded_delete m id other⟩

end Distinct

/-! ### Whole runs -/

theorem distinct_run (operations : List Operation) : (run operations).2.Distinct :=
  run_induction (P := fun _ m => m.Distinct) .start (fun _ _ operation h => h.perform operation) operations

/-- After any operations on an empty store, the files are those that were created, numbered from one on and deleted as
asked for, and the chunks of each have indices of their own.  What is done next adds the chunks that it can, and leaves
everything else as it is. -/
theorem run_faithful (operations : List Operation) :
    let past := (run operations).1
    let m := (run operations).2
    Faithful past m ∧ m.Distinct ∧ (∀ id chunks, m.Adds id chunks) ∧ (∀ operation, m.Keeps operation) ∧
      (∀ id, m.list id = (m.recorded id).filter fun c => !c.deleted) ∧
      ∀ id, isErased past id = true → ChunkedObject.ofMetadata .inMemory id m = .error (.fileNotFound id) := by
  intro past m
  have hfaithful : Faithful past m := run_induction .start (fun _ _ operation h => h.perform operation) operations
  have hdistinct : m.Distinct := distinct_run operations
  exact ⟨hfaithful, hdistinct, hdistinct.adds, hdistinct.keeps, fun _ => rfl, fun _ => hfaithful.ofMetadata_of_erased⟩

/-- A call stops at an index that it brings twice, and what it recorded before stays when the file is deleted. -/
theorem run_faithful_stopped :
    let first : Chunk := ⟨2, 8, 10, "c2", "", false⟩
    let second : Chunk := ⟨0, 0, 4, "c0", "", false⟩
    let operations : List Operation :=
      [.create ⟨"a", 10, 4, true, none, false⟩, .createChunks 1 [first, second, second], .delete 1]
    isErased (run operations).1 1 = true ∧ (run operations).2.list 1 = [first, second] ∧
      ChunkedObject.ofMetadata .inMemory 1 (run operations).2 = .error (.fileNotFound 1) := by
  intro first second operations
  obtain ⟨-, -, -, -, hlist, hopen⟩ := run_faithful operations
  refine ⟨rfl, ?_, hopen 1 rfl⟩
  rw [hlist]
  rfl

end ChunkedStorage.Metadata
