import ChunkedStorage.Proofs.Closings

/-!
# Bodies of files and of memory

Reads of a window of a file, and of a body in memory, deliver exactly the bytes of their window, whatever they ask for
and however many bytes the system hands over at once (`Body.readEach_exact`).  A file that ends inside the window shows
as a fault behind its last byte, with its counts, and never as an end.
-/

namespace ChunkedStorage

/-! ### Exact reads -/

/-- Reads that deliver a window and nothing else, up to the end or, behind a window that is too short, to faults with
its counts. -/
structure Exact (window : Bytes) (length : Nat) (maxes : List Nat) (deliveries : List Delivery) (remaining : Nat) :
    Prop extends Windowed window length maxes deliveries remaining where
  /-- Behind the end comes nothing but the end. -/
  forever : ∀ i j : Nat, i ≤ j → deliveries[i]? = some (.ok none) → ∀ delivery, deliveries[j]? = some delivery →
    delivery = .ok none
  /-- A read that gives no piece comes behind the whole window. -/
  drained : ∀ (i : Nat) (delivery : Delivery), deliveries[i]? = some delivery → (∀ piece, delivery ≠ .ok (some piece)) →
    ChunkedStorage.delivered (deliveries.take i) = window
  /-- As many reads as the window has bytes are enough. -/
  complete : window.length ≤ maxes.length → ChunkedStorage.delivered deliveries = window
  short : window.length < length → ∀ (i : Nat) (delivery : Delivery), deliveries[i]? = some delivery →
    ChunkedStorage.delivered (deliveries.take i) = window → delivery = .error (.truncated window.length length)

theorem Windowed.exact {window : Bytes} {length remaining : Nat} {maxes : List Nat} {deliveries : List Delivery}
    (h : Windowed window length maxes deliveries remaining) (hwindow : window.length ≤ length)
    (hcounts : ∀ (i : Nat) (fault : TransferFault), deliveries[i]? = some (.error fault) →
      fault = .truncated (ChunkedStorage.delivered (deliveries.take i)).length length) :
    Exact window length maxes deliveries remaining where
  toWindowed := h
  forever := by
    intro i j hij hend delivery hdelivery
    have hall := (h.ended i _ hend).1 rfl
    have hfront := delivered_take_isPrefix (deliveries.take j) i
    rw [List.take_take, Nat.min_eq_left hij] at hfront
    have hle := hfront.length_le
    have hinside := (delivered_take_isPrefix deliveries j).length_le
    have hadd := h.remaining_add
    exact (h.ended j delivery hdelivery).2 (by omega)
  drained := by
    intro i delivery hdelivery hnone
    rcases delivery with fault | _ | piece
    · exact (h.failed i fault hdelivery).1
    · have hall := (h.ended i _ hdelivery).1 rfl
      exact ((delivered_take_isPrefix deliveries i).trans h.delivered).eq_of_length_le (by omega)
    · exact absurd rfl (hnone piece)
  complete := h.complete hwindow
  short := by
    intro hshort i delivery hdelivery hall
    obtain ⟨fault, rfl⟩ := h.fault_of_delivered hdelivery hall hshort
    rw [hcounts i fault hdelivery, hall]

/-- Reads are exact if each of them takes what it gives off the front of what the source has, and none fails with other
counts than those of what it was to deliver. -/
theorem Exact.of_reads {α ι : Type} {read : α → ι → Delivery × α} (max : ι → Nat) (remaining : α → Nat)
    (Has : α → Bytes → Prop) {source : α} {window : Bytes} {requests : List ι} (hstart : Has source window)
    (hwindow : window.length ≤ remaining source)
    (hread : ∀ request ∈ requests, ∀ source' ahead, Has source' ahead →
      ∃ ahead', Has (read source' request).2 ahead' ∧
        Given (max request) ahead ahead' (remaining source') (remaining (read source' request).2)
          (read source' request).1 ∧
        ∀ fault, (read source' request).1 = .error fault →
          fault = .truncated (remaining source - remaining source') (remaining source)) :
    Exact window (remaining source) (requests.map max) (readEach read source requests).1
      (remaining (readEach read source requests).2) := by
  -- what the reads so far leave of the source is on its course
  let P (past : List Delivery) (source' : α) : Prop :=
    ∃ ahead, Has source' ahead ∧ Course window (remaining source) past ahead (remaining source')
  have hbegin : P [] source := ⟨window, hstart, Course.start _ _⟩
  have hstep : ∀ request ∈ requests, ∀ past source', P past source' →
      P (past ++ [(read source' request).1]) (read source' request).2 := by
    rintro request hmem past source' ⟨ahead, hhas, hcourse⟩
    obtain ⟨ahead', hhas', hgiven, -⟩ := hread request hmem source' ahead hhas
    exact ⟨ahead', hhas', hcourse.given hgiven⟩
  obtain ⟨ahead, -, hlast⟩ := readEach_induction read hbegin hstep
  refine Windowed.exact (.of_courses ?_ hlast ?_) hwindow ?_
  · rw [length_readEach, List.length_map]
  · intro i delivery hdelivery
    obtain ⟨request, source', hrequest, rfl, ahead, hhas, hcourse⟩ :=
      of_getElem?_readEach read hbegin hstep hdelivery
    obtain ⟨ahead', -, hgiven, -⟩ := hread request (List.mem_of_getElem? hrequest) source' ahead hhas
    exact ⟨max request, ahead, ahead', _, _, by rw [List.getElem?_map, hrequest]; rfl, hcourse, hgiven⟩
  · intro i fault hfault
    obtain ⟨request, source', hrequest, hsame, ahead, hhas, hcourse⟩ :=
      of_getElem?_readEach read hbegin hstep hfault
    obtain ⟨-, -, -, hcounts⟩ := hread request (List.mem_of_getElem? hrequest) source' ahead hhas
    have hadd := hcourse.left_add
    rw [hcounts fault hsame.symm]
    congr 1
    omega

/-! ### Windows of files -/

/-- The window of an open entry at a span, which may start and stop anywhere. -/
def FileWindow.opened (entry : Entry) (s : Span) : FileWindow := ⟨some entry, s.start, s.length, s.length⟩

theorem FileWindow.ofFile_eq_ok_iff {d : Disk} {path : String} {s : Span} {entry : Entry} {w : FileWindow}
    (hentry : d.openEntry path = .ok entry) :
    ofFile d path s = .ok w ↔ (s.start < signedLimit ∧ s.start ≤ d.seekLimit) ∧ w = opened entry s := by
  rw [← Disk.le_lastPosition_iff]
  simp only [ofFile, hentry]
  split
  · next hbehind =>
    simp only [reduceCtorEq, false_iff, not_and]
    intro hle
    exact absurd hbehind (Nat.not_lt.2 hle)
  · next hle => simp [opened, Nat.not_lt.1 hle, eq_comm]

namespace Body

/-- A window of an open file with the given content, and what it still has of its span. -/
inductive HasWindow (number : Nat) (content : Bytes) (length : Nat) : Body → Bytes → Prop where
  | window {w : FileWindow} {ahead : Bytes} (hentry : w.entry? = some (.file number)) (hexpected : w.expected = length)
      (hholds : ∀ d : Disk, d.content number = content → w.Holds d ahead) :
      HasWindow number content length (.window w) ahead

variable {number length : Nat} {content ahead : Bytes} {body : Body} {request : Request}

theorem hasWindow_opened (number : Nat) (content : Bytes) (s : Span) :
    HasWindow number content s.length (.window (.opened (.file number) s)) (s.cut content) := by
  refine .window rfl rfl fun d hd => ⟨Nat.le_refl _, _, rfl, ?_⟩
  simp only [FileWindow.bytesOf, hd, FileWindow.opened, FileWindow.received, Span.cut, Span.length, Nat.sub_self,
    Nat.add_zero, Nat.add_sub_cancel_left]

theorem HasWindow.answer (h : HasWindow number content length body ahead)
    (hdisk : request.disk.content number = content) :
    ∃ ahead', HasWindow number content length (body.answer request).2 ahead' ∧
      Given request.max ahead ahead' body.remaining (body.answer request).2.remaining (body.answer request).1 ∧
      ∀ fault, (body.answer request).1 = .error fault → fault = .truncated (length - body.remaining) length := by
  obtain @⟨w, _, hentry, hexpected, hholds⟩ := h
  have hgives := w.gives_read request.disk request.grant request.max
  obtain ⟨hentry', hexpected'⟩ := hgives.kept
  obtain ⟨ahead', hholds', hgiven, hfault⟩ := (hholds request.disk hdisk).given hentry hgives
  refine ⟨ahead', .window (hentry'.trans hentry) (hexpected'.trans hexpected) ?_, hgiven, ?_⟩
  · intro d hd
    refine hholds'.of_contents fun number' hnumber => ?_
    obtain rfl := Entry.file.inj (Option.some.inj ((hentry'.trans hentry).symm.trans hnumber))
    rw [hd, hdisk]
  · intro fault hsame
    rw [hfault fault hsame, FileWindow.truncated, FileWindow.received, hexpected]
    rfl

/-! ### Bodies in memory -/

/-- A body in memory has what it is to deliver. -/
def HasMemory (body : Body) (ahead : Bytes) : Prop := body = .memory ⟨ahead⟩

theorem HasMemory.answer (h : HasMemory body ahead) (request : Request) :
    ∃ ahead', HasMemory (body.answer request).2 ahead' ∧
      Given request.max ahead ahead' body.remaining (body.answer request).2.remaining (body.answer request).1 ∧
      ∀ fault, (body.answer request).1 ≠ .error fault := by
  subst h
  by_cases hnone : ahead = []
  · subst hnone
    refine ⟨[], rfl, .ended rfl rfl rfl, fun fault hfault => ?_⟩
    cases hfault
  · have hpositive := List.length_pos_iff.2 hnone
    have hmax : 1 ≤ Nat.max request.max 1 := Nat.le_max_right ..
    simp only [Body.answer, read, MemoryBody.read, if_neg hnone]
    refine ⟨ahead.drop (Nat.max request.max 1), rfl, .piece ?_ ?_ ?_ ?_, fun fault hfault => ?_⟩
    · rw [← List.length_pos_iff, List.length_take]
      omega
    · rw [List.length_take]
      exact Nat.min_le_left ..
    · exact (List.take_append_drop ..).symm
    · simp only [remaining, MemoryBody.remaining, List.length_drop, List.length_take]
      omega
    · cases hfault

/-! ### Rows of reads -/

/-- A window of a file opens if its span starts at a signed position that the file system seeks to.  It delivers the
bytes of the file in its span, wherever the span starts and stops, and a body in memory delivers all its bytes.  What
the pieces make together depends neither on how much is asked for nor on how much the system hands over.  If the file
ends inside a span that is not empty, all that it has of the span is delivered, and then every read fails with the
counts. -/
theorem readEach_exact :
    (∀ {d : Disk} {path : String} {entry : Entry} (s : Span) (w : FileWindow), d.openEntry path = .ok entry →
      (FileWindow.ofFile d path s = .ok w ↔
        (s.start < signedLimit ∧ s.start ≤ d.seekLimit) ∧ w = .opened entry s)) ∧
    (∀ (content : Bytes) (s : Span) (number : Nat) (requests : List Request),
      (∀ request ∈ requests, request.disk.content number = content) →
        let run := readEach answer (.window (.opened (.file number) s)) requests
        Exact (s.cut content) s.length (requests.map Request.max) run.1 run.2.remaining ∧
        (s.start < s.stop → content.length < s.stop →
          s.cut content = content.drop s.start ∧
          ∀ (i : Nat) (delivery : Delivery), run.1[i]? = some delivery → delivery ≠ .ok none ∧
            (delivered (run.1.take i) = content.drop s.start ↔
              delivery = .error (.truncated (content.length - s.start) (s.stop - s.start))))) ∧
    ∀ (bytes : Bytes) (requests : List Request),
      let run := readEach answer (.memory ⟨bytes⟩) requests
      Exact bytes bytes.length (requests.map Request.max) run.1 run.2.remaining := by
  refine ⟨fun s w hentry => FileWindow.ofFile_eq_ok_iff hentry, ?_, ?_⟩
  · intro content s number requests hdisk run
    have hwindow : (s.cut content).length ≤ s.length := by
      rw [Span.length_cut]
      exact Nat.min_le_left ..
    have hexact : Exact (s.cut content) s.length (requests.map Request.max) run.1 run.2.remaining :=
      .of_reads Request.max remaining (HasWindow number content s.length) (hasWindow_opened number content s) hwindow
        fun request hmem _ _ hhas => hhas.answer (hdisk request hmem)
    refine ⟨hexact, ?_⟩
    intro hsome hshort
    have hcut : s.cut content = content.drop s.start := by
      rw [Span.cut, Span.length, List.take_of_length_le]
      rw [List.length_drop]
      omega
    refine ⟨hcut, ?_⟩
    intro i delivery hdelivery
    have hless : (s.cut content).length < s.length := by
      rw [hcut, List.length_drop, Span.length]
      omega
    have hfault := hexact.short hless i delivery hdelivery
    rw [hcut, List.length_drop] at hfault
    have hdrained := hexact.drained i delivery hdelivery
    rw [hcut] at hdrained
    refine ⟨?_, hfault, ?_⟩
    · rintro rfl
      cases hfault (hdrained fun _ h => by cases h)
    · rintro rfl
      exact hdrained fun _ h => by cases h
  · intro bytes requests run
    refine .of_reads Request.max remaining HasMemory rfl (Nat.le_refl _) fun request _ source' ahead hhas => ?_
    obtain ⟨ahead', hhas', hgiven, hfault⟩ := hhas.answer request
    exact ⟨ahead', hhas', hgiven, fun fault hsame => absurd hsame (hfault fault)⟩

/-- A file of four bytes ends inside the window, and another file grows between the reads. -/
theorem readEach_exact_short :
    let before : Disk := ⟨[(["a"], .file 0), (["b"], .file 1)], [[48, 49, 50, 51], []], 9⟩
    let behind : Disk := ⟨[(["a"], .file 0), (["b"], .file 1)], [[48, 49, 50, 51], [9]], 9⟩
    let requests : List Request := [⟨before, 1, 16⟩, ⟨behind, 9, 0⟩, ⟨behind, 9, 5⟩]
    let run := readEach answer (.window (.opened (.file 0) ⟨2, 10⟩)) requests
    (∀ request ∈ requests, request.disk.content 0 = [48, 49, 50, 51]) ∧
      Exact [50, 51] 8 [16, 0, 5] run.1 run.2.remaining ∧ run.1[2]? = some (.error (.truncated 2 8)) := by
  intro before behind requests run
  have hdisk : ∀ request ∈ requests, request.disk.content 0 = [48, 49, 50, 51] := by decide
  obtain ⟨hexact, hshort⟩ := readEach_exact.2.1 [48, 49, 50, 51] ⟨2, 10⟩ 0 requests hdisk
  obtain ⟨-, hreads⟩ := hshort (by decide) (by decide)
  exact ⟨hdisk, hexact, congrArg some ((hreads 2 _ rfl).2.1 rfl)⟩

end Body

end ChunkedStorage
