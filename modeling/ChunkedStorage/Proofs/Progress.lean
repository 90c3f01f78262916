import Mathlib.Algebra.Order.Field.Rat
import Mathlib.Tactic.GCongr
import ChunkedStorage.Rehearsal
import ChunkedStorage.Proofs.Circumstances
import ChunkedStorage.Proofs.Plans
import ChunkedStorage.Proofs.StoreCalls

/-!
# The progress of an upload

Computed in exact numbers, the percentage of a report lies in the share that its chunk has of the upload
(`ChunkProgress.percent_bounds`), and grows with the fraction that is stored (`ChunkProgress.percent_mono`).  The
reports of an upload are shown chunk by chunk (`UploadTarget.ShowsStoring.exists_parts`), so that they never go back,
however the storing goes and wherever it fails (`UploadTarget.upload_climbs`).
-/

namespace ChunkedStorage

/-! ### Percentages -/

namespace ChunkProgress

variable {p : ChunkProgress}

theorem clampFraction_eq (fraction : ℚ) : clampFraction fraction = max 0 (min fraction 1) := by
  unfold clampFraction
  split
  · next hnegative => rw [max_eq_left (min_le_of_left_le (le_of_lt hnegative))]
  · next hnonneg =>
    rw [not_lt] at hnonneg
    split
    · next hlarge => rw [min_eq_right (le_of_lt hlarge), max_eq_right zero_le_one]
    · next hsmall => rw [min_eq_left (not_lt.1 hsmall), max_eq_right hnonneg]

theorem clampFraction_mem (fraction : ℚ) : (0 : ℚ) ≤ clampFraction fraction ∧ clampFraction fraction ≤ (1 : ℚ) := by
  rw [clampFraction_eq]
  exact ⟨le_max_left _ _, max_le zero_le_one (min_le_right _ _)⟩

theorem percent_mono (p : ChunkProgress) : Monotone fun fraction : ℚ => p.percent fraction := by
  intro a b hle
  simp only [percent, clampFraction_eq]
  gcongr

/-- No fraction counts for more than the whole chunk. -/
theorem percent_le_one (p : ChunkProgress) (fraction : ℚ) : p.percent fraction ≤ p.percent (1 : ℚ) := by
  have hwhole : clampFraction (1 : ℚ) = 1 := by rw [clampFraction_eq, min_self, max_eq_right zero_le_one]
  rw [percent, percent, hwhole]
  gcongr
  exact (clampFraction_mem fraction).2

/-- The percentage lies in the share of the chunk, whatever the fraction is. -/
theorem percent_bounds (hcount : 0 < p.count) (fraction : ℚ) :
    (100 * p.index / p.count : ℚ) ≤ p.percent fraction ∧
      (p.percent fraction : ℚ) ≤ 100 * (p.index + 1) / p.count := by
  obtain ⟨hzero, hone⟩ := clampFraction_mem fraction
  have hpercent : p.percent fraction = 100 * (p.index + clampFraction fraction) / p.count := by
    rw [percent, Nat.max_eq_left hcount, mul_comm, mul_div_assoc]
  rw [hpercent]
  constructor
  · gcongr
    exact le_add_of_nonneg_right hzero
  · gcongr

end ChunkProgress

namespace ProgressReport

theorem percent_start (count : Nat) : ((⟨⟨0, count⟩, 0, 1⟩ : ProgressReport).percent : ℚ) = 0 := by
  simp [percent, ChunkProgress.percent, ChunkProgress.clampFraction_eq]

theorem percent_finish (last : Nat) : ((⟨⟨last, last + 1⟩, 1, 1⟩ : ProgressReport).percent : ℚ) = 100 := by
  have hpositive : (last + 1 : ℚ) ≠ 0 := by positivity
  simp [percent, ChunkProgress.percent, ChunkProgress.clampFraction_eq, hpositive]

/-- Of two reports on the same chunk the one with the larger part has the larger percentage. -/
theorem percent_le {a b : ProgressReport} (hchunk : a.chunk = b.chunk) (hwhole : a.whole = b.whole)
    (hpart : a.part ≤ b.part) : (a.percent : ℚ) ≤ b.percent := by
  rw [percent, percent, hchunk, hwhole]
  refine b.chunk.percent_mono ?_
  gcongr

end ProgressReport

/-! ### One chunk -/

/-- The reports on one chunk, from its start on. -/
structure AreOn (p : ChunkProgress) (part : List ProgressReport) : Prop where
  chunk : ∀ r ∈ part, r.chunk = p
  start : part.head? = some ⟨p, 0, 1⟩
  ordered : part.Pairwise fun a b => (a.percent : ℚ) ≤ b.percent

namespace AreOn

variable {p : ChunkProgress} {part : List ProgressReport} {upload : ChunkUpload}

private theorem of_mem_reports {written : Nat} {pieces : List Bytes} {r : ProgressReport}
    (h : r ∈ ObjectDirectory.reports upload written pieces) :
    r.chunk = upload.progress ∧ r.whole = max upload.length 1 ∧ written ≤ r.part := by
  induction pieces generalizing written with
  | nil => simp [ObjectDirectory.reports] at h
  | cons piece rest ih =>
    rcases List.mem_cons.1 h with rfl | hmem
    · exact ⟨rfl, rfl, Nat.le_add_right _ _⟩
    · obtain ⟨hchunk, hwhole, hpart⟩ := ih hmem
      exact ⟨hchunk, hwhole, by omega⟩

private theorem pairwise_reports (upload : ChunkUpload) (written : Nat) (pieces : List Bytes) :
    (ObjectDirectory.reports upload written pieces).Pairwise fun a b => (a.percent : ℚ) ≤ b.percent := by
  induction pieces generalizing written with
  | nil => exact .nil
  | cons piece rest ih =>
    refine .cons ?_ (ih _)
    intro r hr
    obtain ⟨hchunk, hwhole, hpart⟩ := of_mem_reports hr
    exact ProgressReport.percent_le hchunk.symm hwhole.symm hpart

/-- The report of the start comes before those of the pieces. -/
theorem reports (upload : ChunkUpload) (pieces : List Bytes) :
    AreOn upload.progress (⟨upload.progress, 0, 1⟩ :: ObjectDirectory.reports upload 0 pieces) where
  chunk := by
    rw [List.forall_mem_cons]
    exact ⟨rfl, fun r hr => (of_mem_reports hr).1⟩
  start := rfl
  ordered := by
    refine .cons ?_ (pairwise_reports _ _ _)
    intro r hr
    rw [ProgressReport.percent, ProgressReport.percent, (of_mem_reports hr).1]
    refine upload.progress.percent_mono ?_
    rw [Nat.cast_zero, zero_div]
    exact div_nonneg (Nat.cast_nonneg _) (Nat.cast_nonneg _)

theorem within {i count : Nat} (h : AreOn ⟨i, count⟩ part) (hcount : 0 < count) : ∀ r ∈ part,
    (100 * i / count : ℚ) ≤ r.percent ∧ (r.percent : ℚ) ≤ 100 * (i + 1) / count := by
  intro r hr
  rw [ProgressReport.percent, h.chunk r hr]
  exact ChunkProgress.percent_bounds hcount _

/-- The report of the end comes last. -/
theorem concat (h : AreOn p part) : AreOn p (part ++ [⟨p, 1, 1⟩]) where
  chunk := by
    rw [List.forall_mem_append]
    exact ⟨h.chunk, by simp⟩
  start := by rw [List.head?_append, h.start, Option.some_or]
  ordered := by
    rw [List.pairwise_append]
    refine ⟨h.ordered, List.pairwise_singleton _ _, ?_⟩
    intro a ha b hb
    rw [List.mem_singleton.1 hb, ProgressReport.percent, ProgressReport.percent, h.chunk a ha, Nat.cast_one, div_one]
    exact p.percent_le_one _

end AreOn

/-! ### Uploads to a directory -/

namespace UploadTarget

variable {σ : Type} {t : UploadTarget σ} {o : ObjectDirectory} {shown : σ → List ProgressReport}

/-- The target stores objects in a directory, and shows the reports of the upload and of the store in their order.  Each
object meets with circumstances of its own. -/
structure ShowsStoring (t : UploadTarget σ) (o : ObjectDirectory) (shown : σ → List ProgressReport) : Prop where
  report : ∀ report world, shown (t.report report world) = shown world ++ [report]
  count : ∀ counter n world, shown (t.count counter n world) = shown world
  store : ∀ upload d world, ∃ c : Circumstances,
    shown (t.store upload d world).2.2 = shown world ++ (o.storeAmid d c upload).2.1 ∧
      ∀ stored, (t.store upload d world).1 = .ok stored → (o.storeAmid d c upload).1 = .ok stored
  create : ∀ file world, shown (t.metadata.create file world).2 = shown world
  createChunks : ∀ id chunks world, shown (t.metadata.createChunks id chunks world).2 = shown world

/-- What is shown while one chunk is stored: the reports on it, the last of which is that of its end if it is stored. -/
theorem ShowsStoring.storeChunk (h : t.ShowsStoring o shown) (name : String) (chunked : Bool) (total : Nat)
    (source : StagedSource) (b : ChunkBounds) (d : Disk) (world : σ) :
    ∃ part, shown (t.storeChunk name chunked total source b d world).2.2 = shown world ++ part ∧
      AreOn ⟨b.index, total⟩ part ∧
      ∀ c, (t.storeChunk name chunked total source b d world).1 = .ok c →
        part.getLast? = some ⟨⟨b.index, total⟩, 1, 1⟩ := by
  obtain ⟨calls, hstores⟩ := t.storesChunk name chunked total source b d world
  have hstored (w : FileWindow) : ∃ pieces,
      shown (t.store (chunkUpload name chunked total b w) d (t.report ⟨⟨b.index, total⟩, 0, 1⟩ world)).2.2 =
        shown world ++ ⟨⟨b.index, total⟩, 0, 1⟩ ::
          ObjectDirectory.reports (chunkUpload name chunked total b w) 0 pieces := by
    obtain ⟨c, hshown, -⟩ := h.store (chunkUpload name chunked total b w) d (t.report ⟨⟨b.index, total⟩, 0, 1⟩ world)
    obtain ⟨pieces, hmade⟩ := o.exists_storeAmid d c (chunkUpload name chunked total b w)
    exact ⟨pieces, by rw [hshown, hmade, h.report, List.append_assoc, List.singleton_append]⟩
  generalize t.storeChunk name chunked total source b d world = outcome at hstores ⊢
  cases hstores with
  | unopened =>
    exact ⟨[⟨⟨b.index, total⟩, 0, 1⟩], h.report _ _, ⟨by simp, rfl, List.pairwise_singleton _ _⟩, by simp⟩
  | @refused w _ _ _ _ hstore =>
    obtain ⟨pieces, hshown⟩ := hstored w
    rw [hstore] at hshown
    exact ⟨_, hshown, .reports (chunkUpload name chunked total b w) pieces, by simp⟩
  | @stored w _ _ _ _ hstore =>
    obtain ⟨pieces, hshown⟩ := hstored w
    rw [hstore] at hshown
    refine ⟨_, ?_, (AreOn.reports (chunkUpload name chunked total b w) pieces).concat, fun _ _ => List.getLast?_concat⟩
    rw [h.count, h.count, h.report, hshown, List.append_assoc]
    rfl

section

variable {name : String} {chunked : Bool} {total completed i : Nat} {source : StagedSource} {b : ChunkBounds}
variable {bounds rest : List ChunkBounds} {d d₁ : Disk} {world world₁ : σ} {part : List ProgressReport} {c : Chunk}

/-- The reports are shown while chunk `i` is stored, once those in front of it are. -/
def ShowsFor (t : UploadTarget σ) (shown : σ → List ProgressReport) (name : String) (chunked : Bool) (total : Nat)
    (source : StagedSource) (completed : Nat) (bounds : List ChunkBounds) (d : Disk) (world : σ) (i : Nat)
    (part : List ProgressReport) : Prop :=
  ∃ front b back chunks d₁ world₁, bounds = front ++ b :: back ∧ front.length = i ∧
    t.storeChunks name chunked total source completed front d world = (.ok chunks, d₁, world₁) ∧
    shown (t.storeChunk name chunked total source b d₁ world₁).2.2 = shown world₁ ++ part

theorem ShowsFor.areOn (hfor : t.ShowsFor shown name chunked total source completed bounds d world i part)
    (h : t.ShowsStoring o shown) : ∃ b, bounds[i]? = some b ∧ AreOn ⟨b.index, total⟩ part := by
  obtain ⟨front, b, back, chunks, d₁, world₁, rfl, rfl, -, hpart⟩ := hfor
  obtain ⟨part', hshown, hareOn, -⟩ := h.storeChunk name chunked total source b d₁ world₁
  obtain rfl := List.append_cancel_left (hshown.symm.trans hpart)
  exact ⟨b, by simp, hareOn⟩

theorem ShowsFor.succ (hgoing : t.isCancelled world = false)
    (hchunk : t.storeChunk name chunked total source b d world = (.ok c, d₁, world₁))
    (hfor : t.ShowsFor shown name chunked total source (completed + 1) rest d₁ world₁ i part) :
    t.ShowsFor shown name chunked total source completed (b :: rest) d world (i + 1) part := by
  obtain ⟨front, b', back, chunks, d₂, world₂, rfl, rfl, hfront, hpart⟩ := hfor
  exact ⟨b :: front, b', back, c :: chunks, d₂, world₂, rfl, rfl,
    storeChunks_cons_ok_iff.2 ⟨hgoing, c, d₁, world₁, chunks, hchunk, hfront, rfl⟩, hpart⟩

private theorem world_storeChunks (hgoing : t.isCancelled world = false)
    (hchunk : t.storeChunk name chunked total source b d world = (.ok c, d₁, world₁)) :
    (t.storeChunks name chunked total source completed (b :: rest) d world).2.2 =
      (t.storeChunks name chunked total source (completed + 1) rest d₁ world₁).2.2 := by
  simp only [storeChunks, hgoing, hchunk, Bool.false_eq_true, if_false]
  split <;> next hrest => rw [hrest]

/-- While chunks are stored one after the other, the reports are shown in parts, one for each chunk that is begun. -/
theorem ShowsStoring.exists_parts (h : t.ShowsStoring o shown) (name : String) (chunked : Bool) (total : Nat)
    (source : StagedSource) (completed : Nat) (bounds : List ChunkBounds) (d : Disk) (world : σ) :
    ∃ parts : List (List ProgressReport),
      shown (t.storeChunks name chunked total source completed bounds d world).2.2 = shown world ++ parts.flatten ∧
      (∀ (i : Nat) (part : List ProgressReport), parts[i]? = some part →
        t.ShowsFor shown name chunked total source completed bounds d world i part) ∧
      ∀ chunks, (t.storeChunks name chunked total source completed bounds d world).1 = .ok chunks →
        List.Forall₂ (fun part b => part.getLast? = some ⟨⟨b.index, total⟩, 1, 1⟩) parts bounds := by
  induction bounds generalizing completed d world with
  | nil => exact ⟨[], by simp [storeChunks], by simp, fun _ _ => .nil⟩
  | cons b rest ih =>
    cases hgoing : t.isCancelled world with
    | true => exact ⟨[], by simp [storeChunks, hgoing], by simp, by simp [storeChunks, hgoing]⟩
    | false =>
      obtain ⟨part, hshown, -, hlast⟩ := h.storeChunk name chunked total source b d world
      have hfirst : t.ShowsFor shown name chunked total source completed (b :: rest) d world 0 part :=
        ⟨[], b, rest, [], d, world, rfl, rfl, rfl, hshown⟩
      rcases hchunk : t.storeChunk name chunked total source b d world with ⟨failure | c, d₁, world₁⟩
      · rw [hchunk] at hshown
        refine ⟨[part], ?_, ?_, ?_⟩
        · simpa [storeChunks, hgoing, hchunk] using hshown
        · intro i part' hpart
          obtain ⟨rfl, rfl⟩ : i = 0 ∧ part = part' := by
            cases i <;> simp_all
          exact hfirst
        · simp [storeChunks, hgoing, hchunk]
      · rw [hchunk] at hshown hlast
        obtain ⟨parts, hparts, heach, hall⟩ := ih (completed + 1) d₁ world₁
        refine ⟨part :: parts, ?_, ?_, ?_⟩
        · rw [world_storeChunks hgoing hchunk, hparts, hshown, List.append_assoc, List.flatten_cons]
        · intro i part' hpart
          cases i with
          | zero =>
            obtain rfl : part = part' := by simpa using hpart
            exact hfirst
          | succ i => exact (heach i part' (by simpa using hpart)).succ hgoing hchunk
        · intro chunks hchunks
          obtain ⟨-, c', d₁', world₁', others, hchunk', hothers, -⟩ := storeChunks_cons_ok_iff.1 (Prod.ext hchunks rfl)
          obtain ⟨-, rfl, rfl⟩ : c = c' ∧ d₁ = d₁' ∧ world₁ = world₁' := by simpa [hchunk] using hchunk'
          exact .cons (hlast c rfl) (hall others (congrArg Prod.fst hothers))

end

/-! ### Parts of an upload -/

section

variable {count : Nat} {parts : List (List ProgressReport)}

private theorem pairwise_flatten (hcount : 0 < count)
    (heach : ∀ (i : Nat) (part : List ProgressReport), parts[i]? = some part → AreOn ⟨i, count⟩ part) :
    parts.flatten.Pairwise fun a b => (a.percent : ℚ) ≤ b.percent := by
  rw [List.pairwise_flatten]
  constructor
  · intro part hpart
    obtain ⟨i, hi⟩ := List.getElem?_of_mem hpart
    exact (heach i part hi).ordered
  · rw [List.pairwise_iff_getElem]
    intro i j hi hj hlt a ha b hb
    have hupper := ((heach i _ (List.getElem?_eq_getElem hi)).within hcount a ha).2
    have hlower := ((heach j _ (List.getElem?_eq_getElem hj)).within hcount b hb).1
    -- the share of the one chunk ends where that of the other begins, or in front of it
    have hshares : (100 * (i + 1) / count : ℚ) ≤ 100 * j / count := by
      gcongr
      exact_mod_cast hlt
    exact hupper.trans (hshares.trans hlower)

private theorem head?_flatten {r : ProgressReport}
    (heach : ∀ (i : Nat) (part : List ProgressReport), parts[i]? = some part → AreOn ⟨i, count⟩ part)
    (hr : parts.flatten.head? = some r) : r = ⟨⟨0, count⟩, 0, 1⟩ := by
  cases parts with
  | nil => cases hr
  | cons part rest =>
    rw [List.flatten_cons, List.head?_append, (heach 0 part rfl).start] at hr
    exact (Option.some.inj hr).symm

private theorem getLast?_flatten {bounds : List ChunkBounds} (hne : bounds ≠ [])
    (hlast : List.Forall₂ (fun part b => part.getLast? = some ⟨⟨b.index, count⟩, 1, 1⟩) parts bounds) :
    parts.flatten.getLast? = some ⟨⟨(bounds.getLast hne).index, count⟩, 1, 1⟩ := by
  induction hlast with
  | nil => exact absurd rfl hne
  | @cons part b parts rest hpart hparts ih =>
    rw [List.flatten_cons, List.getLast?_append]
    rcases eq_or_ne rest [] with rfl | hrest
    · obtain rfl := List.forall₂_nil_right_iff.1 hparts
      simpa using hpart
    · rw [ih hrest, Option.some_or, List.getLast_cons hrest]

end

/-! ### Whole uploads -/

/-- What is shown of an upload of planned chunks, part by part. -/
structure Climbs (t : UploadTarget σ) (shown : σ → List ProgressReport) (name : String) (chunked : Bool)
    (source : StagedSource) (bounds : List ChunkBounds) (d : Disk) (world : σ)
    (outcome : Except Failure UploadedFile × Disk × σ) (parts : List (List ProgressReport)) : Prop where
  made : shown outcome.2.2 = shown world ++ parts.flatten
  each : ∀ (i : Nat) (part : List ProgressReport), parts[i]? = some part →
    t.ShowsFor shown name chunked bounds.length source 0 bounds d world i part
  /-- The reports on a chunk lie in its share of the upload. -/
  within : ∀ (i : Nat) (part : List ProgressReport), parts[i]? = some part → ∀ r ∈ part,
    (100 * i / bounds.length : ℚ) ≤ r.percent ∧ (r.percent : ℚ) ≤ 100 * (i + 1) / bounds.length
  ordered : parts.flatten.Pairwise fun a b => (a.percent : ℚ) ≤ b.percent
  start : ∀ r, parts.flatten.head? = some r → (r.percent : ℚ) = 0
  finish : ∀ uploaded, outcome.1 = .ok uploaded → ∃ r, parts.flatten.getLast? = some r ∧ (r.percent : ℚ) = 100

/-- An upload that fails before it begins to store shows nothing. -/
theorem Climbs.nothing (t : UploadTarget σ) (shown : σ → List ProgressReport) (name : String) (chunked : Bool)
    (source : StagedSource) (bounds : List ChunkBounds) (d : Disk) (world : σ) (failure : Failure) :
    t.Climbs shown name chunked source bounds d world (.error failure, d, world) [] where
  made := (List.append_nil _).symm
  each := by simp
  within := by simp
  ordered := .nil
  start := by simp
  finish := by simp

/-- Recording shows nothing. -/
private theorem ShowsStoring.record (h : t.ShowsStoring o shown) (file : LogicalFile) (chunks : List Chunk)
    (world : σ) : shown (t.record file chunks world).2 = shown world := by
  have hcreate := h.create file world
  unfold UploadTarget.record
  split
  · next hfile =>
    rw [hfile] at hcreate
    exact hcreate
  · next id world₁ hfile =>
    rw [hfile] at hcreate
    have hchunks := h.createChunks id chunks world₁
    split
    all_goals
      next hrecorded =>
      rw [hrecorded] at hchunks
      exact hchunks.trans hcreate

/-- An upload of numbered chunks climbs. -/
theorem ShowsStoring.storeAndRecord (h : t.ShowsStoring o shown) (name : String) (chunked : Bool) (chunkSize : Nat)
    (source : StagedSource) {bounds : List ChunkBounds} (hne : bounds ≠ [])
    (hnumbered : ∀ (i : Nat) (b : ChunkBounds), bounds[i]? = some b → b.index = i) (d : Disk) (world : σ) :
    ∃ parts, t.Climbs shown name chunked source bounds d world
      (t.storeAndRecord name chunked chunkSize source bounds d world) parts := by
  obtain ⟨parts, hshown, hfor, hlast⟩ := h.exists_parts name chunked bounds.length source 0 bounds d world
  have hcount : 0 < bounds.length := List.length_pos_iff.2 hne
  have heach (i : Nat) (part : List ProgressReport) (hpart : parts[i]? = some part) :
      AreOn ⟨i, bounds.length⟩ part := by
    obtain ⟨b, hb, hareOn⟩ := (hfor i part hpart).areOn h
    rwa [hnumbered i b hb] at hareOn
  have hwithin (i : Nat) (part : List ProgressReport) (hpart : parts[i]? = some part) :=
    (heach i part hpart).within hcount
  refine ⟨parts, ?_, hfor, hwithin, pairwise_flatten hcount heach, ?_, ?_⟩
  · unfold UploadTarget.storeAndRecord
    split
    · next hchunks =>
      rw [hchunks] at hshown
      exact hshown
    · next hchunks =>
      rw [hchunks] at hshown
      exact (h.record _ _ _).trans hshown
  · intro r hr
    rw [head?_flatten heach hr, ProgressReport.percent_start]
  · intro uploaded huploaded
    unfold UploadTarget.storeAndRecord at huploaded
    split at huploaded
    · cases huploaded
    · next chunks _ _ hchunks =>
      refine ⟨_, getLast?_flatten hne (hlast chunks (congrArg Prod.fst hchunks)), ?_⟩
      obtain ⟨last, hlength⟩ := Nat.exists_eq_add_one.2 hcount
      rw [hnumbered last _ (by rw [List.getLast_eq_getElem]; simp [hlength]), hlength]
      exact ProgressReport.percent_finish last

/-- An upload in chunks of one size climbs. -/
theorem ShowsStoring.uploadChunked (h : t.ShowsStoring o shown) (name : String) (source : StagedSource)
    (maxChunkSize : Nat) (d : Disk) (world : σ) : ∃ parts, t.Climbs shown name true source
      (((plan source.length maxChunkSize).toOption).getD []) d world
      (t.uploadChunked name source maxChunkSize d world) parts := by
  unfold UploadTarget.uploadChunked
  split
  · exact ⟨[], .nothing ..⟩
  · next hsome =>
    rcases Nat.eq_zero_or_pos maxChunkSize with rfl | hsize
    · exact ⟨[], .nothing ..⟩
    · let l : Layout := ⟨source.length, maxChunkSize, hsize⟩
      have hne : l.bounds ≠ [] := by
        rw [← List.length_pos_iff, l.length_bounds]
        exact Nat.pos_of_ne_zero (l.count_ne_zero hsome)
      rw [l.plan_eq]
      exact h.storeAndRecord name true maxChunkSize source hne
        (fun i b hb => by rw [(l.getElem?_bounds.1 hb).2]; rfl) d world

/-- An upload climbs, in chunks or as one object. -/
theorem ShowsStoring.uploadSource (h : t.ShowsStoring o shown) (c : ChunkingConfig) (name : String)
    (source : StagedSource) (d : Disk) (world : σ) : ∃ parts,
      t.Climbs shown name (requiresChunking source.length c.chunkThreshold) source (c.bounds source.length) d world
        (t.uploadSource c name source d world) parts := by
  unfold UploadTarget.uploadSource ChunkingConfig.bounds
  split
  · next hlarge =>
    rw [hlarge]
    exact h.uploadChunked name source c.maxChunkSize d world
  · next hsmall =>
    rw [Bool.eq_false_iff.2 hsmall]
    refine h.storeAndRecord name false source.length source (List.cons_ne_nil _ _) ?_ d world
    intro i b hb
    cases i with
    | zero =>
      obtain rfl : (⟨0, 0, source.length⟩ : ChunkBounds) = b := by simpa using hb
      rfl
    | succ i => simp at hb

end UploadTarget

/-- A rehearsal with a directory shows the reports of the directory. -/
theorem Rehearsal.showsStoring (o : ObjectDirectory) :
    (target (keepInDirectory o)).ShowsStoring o Rehearsal.reports where
  report := fun _ _ => rfl
  count := fun _ _ _ => rfl
  store := by
    intro upload d r
    by_cases hrefused : r.upload.refused? = some upload.index
    · -- a refused object shows as little as one whose directory cannot be made
      refine ⟨⟨fun _ => 0, fun _ => some (.kind .other)⟩, ?_, ?_⟩
      · simp only [target, hrefused, if_pos, ObjectDirectory.storeAmid]
        split <;> exact (List.append_nil _).symm
      · simp [target, hrefused]
    · refine ⟨.calm Disk.readLimit, ?_⟩
      rw [o.storeAmid_calm]
      rcases hstore : o.store d Disk.readLimit upload with ⟨fault | stored, made, d'⟩
      all_goals
        simp [target, keepInDirectory, hrefused, hstore, Except.mapError]
  create := by
    intro file r
    simp only [target, metadataStore]
    split <;> rfl
  createChunks := by
    intro id chunks r
    simp only [target, metadataStore]
    split <;> rfl

namespace UploadTarget

variable {σ : Type} {t : UploadTarget σ} {o : ObjectDirectory} {shown : σ → List ProgressReport}

/-- **The progress of an upload never goes back.**  However the reads of a body and the steps of the storing go, the
reports on chunk `i` of `n` lie between the `i`-th and the next `n`-th part of the upload, all reports of it climb, the
first of them is at 0, and the last at 100 if the upload succeeds.  A stream that cannot be staged shows nothing. -/
theorem upload_climbs (h : t.ShowsStoring o shown) :
    (∀ name source maxChunkSize d world, ∃ parts, t.Climbs shown name true source
      (((plan source.length maxChunkSize).toOption).getD []) d world
      (t.uploadChunked name source maxChunkSize d world) parts) ∧
    (∀ c name source d world, ∃ parts, t.Climbs shown name (requiresChunking source.length c.chunkThreshold) source
      (c.bounds source.length) d world (t.uploadStaged c name source d world) parts) ∧
    ∀ (c : ChunkingConfig) name stream declared d world,
      (∃ source d₁, StagedSource.stage d stream declared c.stagingDir c.stageBufferSize = (.ok source, d₁) ∧
        ∃ parts, t.Climbs shown name (requiresChunking source.length c.chunkThreshold) source (c.bounds source.length)
          d₁ world (t.uploadStream c name stream declared d world) parts) ∨
      ∃ failure d₁, t.uploadStream c name stream declared d world = (.error failure, d₁, world) := by
  refine ⟨h.uploadChunked, ?_, ?_⟩
  · intro c name source d world
    unfold uploadStaged
    split
    · exact ⟨[], .nothing ..⟩
    · exact h.uploadSource c name source d world
  · intro c name stream declared d world
    unfold uploadStream
    split
    · exact .inr ⟨_, _, rfl⟩
    · split
      · exact .inr ⟨_, _, rfl⟩
      · next source d₁ hstaged =>
        obtain ⟨parts, hclimbs⟩ := h.uploadSource c name source d₁ world
        exact .inl ⟨source, d₁, hstaged, parts, { hclimbs with }⟩

/-- Three bytes are uploaded in two chunks: each is reported at its start, once it is written, and at its end. -/
theorem upload_climbs_threeBytes :
    let t := Rehearsal.target (Rehearsal.keepInDirectory ⟨"objects"⟩)
    let d := (Disk.empty.addFile ["f"]).2.append 0 [1, 2, 3]
    let source : StagedSource := ⟨"f", 3, none, none⟩
    let outcome := t.uploadChunked "g" source 2 d { disk := d }
    t.ShowsStoring ⟨"objects"⟩ Rehearsal.reports ∧ outcome.1.isOk = true ∧
      outcome.2.2.reports.map (fun r => (r.percent : ℚ)) = [0, 50, 50, 50, 100, 100] ∧
      ∃ parts,
        t.Climbs Rehearsal.reports "g" true source (((plan 3 2).toOption).getD []) d { disk := d } outcome parts :=
  ⟨Rehearsal.showsStoring _, by decide +kernel, by decide +kernel,
    (upload_climbs (Rehearsal.showsStoring ⟨"objects"⟩)).1 "g" ⟨"f", 3, none, none⟩ 2 _ _⟩

end UploadTarget

end ChunkedStorage
