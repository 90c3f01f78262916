import ChunkedStorage.Proofs.MetadataRuns

/-!
# The order of listings

Chunks are put in order only by calls that succeed.  What a call leaves behind that fails stays at the end, in the order
in which it came, until the next call that succeeds (`Metadata.strays`).  A listing is in order as long as nothing has
strayed (`Metadata.list_increasing_iff`), and need not be otherwise (`Metadata.list_not_increasing`).
-/

namespace ChunkedStorage.Metadata

variable {m : Metadata} {id : Nat} {operation : Operation}

/-- Whether an operation records chunks of a file and succeeds. -/
def settles (m : Metadata) (id : Nat) : Operation → Bool
  | .createChunks other chunks => other == id && (m.createChunks id chunks).1.toBool
  | _ => false

/-- What an operation puts behind the chunks of a file. -/
def added (m : Metadata) (id : Nat) (operation : Operation) : List Chunk :=
  ((m.perform operation).2.recorded id).drop (m.recorded id).length

/-- One more operation, with the chunks of a file that calls left behind which failed. -/
def stray (id : Nat) (state : Metadata × List Chunk) (operation : Operation) : Metadata × List Chunk :=
  ((state.1.perform operation).2,
    if state.1.settles id operation then [] else state.2 ++ state.1.added id operation)

/-- The chunks of a file that calls left behind which failed, since the last one that succeeded. -/
def strays (id : Nat) (operations : List Operation) : List Chunk := (operations.foldl (stray id) (empty, [])).2

private theorem foldl_stray (id : Nat) (operations : List Operation) :
    operations.foldl (stray id) (empty, []) = ((run operations).2, strays id operations) := by
  refine Prod.ext ?_ rfl
  induction operations using List.reverseRecOn with
  | nil => rfl
  | append_singleton front last ih =>
    rw [List.foldl_concat, run_concat, stray, ih]

theorem strays_concat (id : Nat) (operations : List Operation) (operation : Operation) :
    strays id (operations ++ [operation]) =
      if (run operations).2.settles id operation then []
      else strays id operations ++ (run operations).2.added id operation := by
  conv => lhs; rw [strays, List.foldl_concat, foldl_stray, stray]

/-! ### One operation -/

/-- A call that succeeds leaves the chunks in order. -/
theorem Distinct.increasing_of_settles (h : m.Distinct) (hsettles : m.settles id operation = true) :
    Increasing ((m.perform operation).2.recorded id) := by
  cases operation with
  | createChunks other chunks =>
    simp only [settles, Bool.and_eq_true, beq_iff_eq] at hsettles
    obtain ⟨rfl, hok⟩ := hsettles
    have hrecords := records_createChunks (h.indices other) chunks
    rw [Metadata.perform]
    generalize (m.createChunks other chunks).1 = result at hrecords hok
    generalize (m.createChunks other chunks).2.recorded other = recorded at hrecords ⊢
    cases hrecords with
    | unknown | stopped => cases hok
    | whole _ hfresh => exact increasing_sorted hfresh
  | create | file | list | delete => cases hsettles

/-- All else leaves the chunks where they are, or puts some behind them. -/
theorem Distinct.recorded_of_not_settles (h : m.Distinct) (hnot : ¬ m.settles id operation = true) :
    (m.perform operation).2.recorded id = m.recorded id ++ m.added id operation := by
  refine (List.prefix_iff_eq_append.1 ?_).symm
  cases operation with
  | createChunks other chunks =>
    by_cases hother : id = other
    · subst hother
      have hrecords := records_createChunks (h.indices id) chunks
      simp only [settles, beq_self_eq_true, Bool.true_and] at hnot
      rw [Metadata.perform]
      generalize (m.createChunks id chunks).1 = result at hrecords hnot
      generalize (m.createChunks id chunks).2.recorded id = recorded at hrecords ⊢
      cases hrecords with
      | unknown => exact List.prefix_rfl
      | stopped => exact List.prefix_append ..
      | whole => exact absurd rfl hnot
    · exact ⟨[], (List.append_nil _).trans (recorded_createChunks_of_ne m chunks hother).symm⟩
  | create | file | list => exact List.prefix_rfl
  | delete other => exact ⟨[], (List.append_nil _).trans (recorded_delete m other id).symm⟩

/-! ### Whole runs -/

/-- What is recorded is in order up to what has strayed. -/
private theorem exists_settled (operations : List Operation) (id : Nat) :
    ∃ settled, (run operations).2.recorded id = settled ++ strays id operations ∧ Increasing settled := by
  induction operations using List.reverseRecOn with
  | nil => exact ⟨[], rfl, .nil⟩
  | append_singleton front last ih =>
    obtain ⟨settled, hrecorded, hsettled⟩ := ih
    have hdistinct : (run front).2.Distinct := distinct_run front
    rw [run_concat, strays_concat]
    by_cases hsettles : (run front).2.settles id last = true
    · rw [if_pos hsettles]
      exact ⟨_, (List.append_nil _).symm, hdistinct.increasing_of_settles hsettles⟩
    · rw [if_neg hsettles]
      refine ⟨settled, ?_, hsettled⟩
      rw [← List.append_assoc, ← hrecorded]
      exact hdistinct.recorded_of_not_settles hsettles

/-- The chunks that a listing shows. -/
def listed (chunks : List Chunk) : List Chunk := chunks.filter fun c => !c.deleted

/-- What is listed is in strict order exactly if the chunks that have strayed are so and come behind the others; if
nothing has strayed, it is. -/
theorem list_increasing_iff (operations : List Operation) (id : Nat) :
    ∃ settled, (run operations).2.recorded id = settled ++ strays id operations ∧ Increasing settled ∧
      (Increasing ((run operations).2.list id) ↔
        Increasing (listed (strays id operations)) ∧
          ∀ a ∈ listed settled, ∀ b ∈ listed (strays id operations), a.index < b.index) ∧
      (strays id operations = [] → Increasing ((run operations).2.list id)) := by
  obtain ⟨settled, hrecorded, hsettled⟩ := exists_settled operations id
  have hlisted : Increasing (listed settled) := hsettled.filter _
  have hlist : (run operations).2.list id = listed settled ++ listed (strays id operations) := by
    rw [list, hrecorded, List.filter_append]
    rfl
  have hiff : Increasing ((run operations).2.list id) ↔
      Increasing (listed (strays id operations)) ∧
        ∀ a ∈ listed settled, ∀ b ∈ listed (strays id operations), a.index < b.index := by
    rw [hlist, Increasing, List.pairwise_append]
    exact ⟨fun h => h.2, fun h => ⟨hlisted, h⟩⟩
  refine ⟨settled, hrecorded, hsettled, hiff, ?_⟩
  intro hnone
  rw [hiff, hnone]
  exact ⟨.nil, fun _ _ _ hmem => by cases hmem⟩

/-- The second of three chunks stays behind the first, since the call fails at the third, and both are listed so. -/
theorem list_not_increasing :
    ¬ ∀ (operations : List Operation) (id : Nat), Increasing ((run operations).2.list id) := by
  intro h
  have hlisted := h [.create ⟨"a", 10, 4, true, none, false⟩, .createChunks 1
    [⟨2, 8, 10, "c2", "", false⟩, ⟨0, 0, 4, "c0", "", false⟩, ⟨0, 0, 4, "c0", "", false⟩]] 1
  revert hlisted
  unfold Increasing
  decide

end ChunkedStorage.Metadata
