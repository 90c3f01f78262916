import ChunkedStorage.Proofs.Drains

/-!
# Closing bodies

A closed window or response that bytes were left of fails every further read, with the counts of what was delivered
before; a closed body in memory comes to its end like one that was read through (`Body.close_reads`).
-/

namespace ChunkedStorage.Body

/-- A body that nothing is read from yet, however it is made. -/
inductive Opened : Body → Prop where
  | window {d : Disk} {path : String} {s : Span} {w : FileWindow} (hwindow : FileWindow.ofFile d path s = .ok w) :
      Opened (.window w)
  | response (pieces : List (Except String Bytes)) (skip length : Nat) :
      Opened (.response (ResponseBody.ofPieces pieces skip length))
  | memory (bytes : Bytes) : Opened (.memory ⟨bytes⟩)

/-- A read: the disk as it then is, what the system grants, and how much is asked for. -/
structure Request where
  disk : Disk
  grant : Nat
  max : Nat

def answer (body : Body) (request : Request) : Delivery × Body := body.read request.disk request.grant request.max

/-- The number of bytes that a body is to deliver in all, if it keeps it. -/
def expected? : Body → Option Nat
  | window w => some w.expected
  | response b => some b.expected
  | memory _ => none

def inMemory (body : Body) : Bool := body.expected?.isNone

variable {body : Body} {reads : List Request}

/-! ### One read -/

private theorem answer_expected? (body : Body) (request : Request) :
    (body.answer request).2.expected? = body.expected? := by
  cases body with
  | window w => exact congrArg some (w.gives_read request.disk request.grant request.max).kept.2
  | response b =>
    have hgives := b.gives_read request.max
    generalize hread : b.read request.max = result at hgives
    obtain ⟨delivery, b'⟩ := result
    simp only [answer, read, hread, expected?]
    cases hgives with
    | ended | broken | truncated => rfl
    | piece _ _ _ _ hexpected => rw [hexpected]
  | memory b => rfl

/-- What a body gives for ever once it is closed. -/
def closing (body : Body) : Delivery :=
  match body.expected? with
  | none => .ok none
  | some expected =>
    if body.remaining = 0 then .ok none else .error (.truncated (expected - body.remaining) expected)

private theorem close_answer (body : Body) (request : Request) :
    body.close.answer request = (body.closing, body.close) := by
  cases body with
  | window w =>
    by_cases hnone : w.remaining = 0
    · simp [close, answer, read, FileWindow.close, FileWindow.read, closing, expected?, remaining, hnone]
    · simp [close, answer, read, FileWindow.close, FileWindow.read, FileWindow.truncated, FileWindow.received, closing,
        expected?, remaining, hnone]
  | response b =>
    by_cases hnone : b.remaining = 0
    · simp [close, answer, read, ResponseBody.close, ResponseBody.read, closing, expected?, remaining, hnone]
    · simp [close, answer, read, ResponseBody.close, ResponseBody.read, ResponseBody.truncated, closing, expected?,
        remaining, hnone]
  | memory b => rfl

/-! ### Rows of reads -/

/-- Reads take what they deliver off what remains, and keep the number that is to be delivered in all. -/
private theorem readEach_remaining (body : Body) (reads : List Request) :
    (readEach answer body reads).2.remaining + (delivered (readEach answer body reads).1).length = body.remaining ∧
      (readEach answer body reads).2.expected? = body.expected? :=
  readEach_induction answer (P := fun past body' =>
      body'.remaining + (delivered past).length = body.remaining ∧ body'.expected? = body.expected?)
    ⟨rfl, rfl⟩
    (fun request _ past source ⟨hremaining, hexpected⟩ => by
      have hnext : (source.answer request).2.remaining + (Reply.done (source.answer request).1).piece.length = _ :=
        source.read_left request.disk request.grant request.max
      refine ⟨?_, (source.answer_expected? request).trans hexpected⟩
      rw [delivered_concat, List.length_append]
      omega)

private theorem readEach_close (body : Body) (later : List Request) :
    (readEach answer body.close later).1 = later.map fun _ => body.closing := by
  induction later with
  | nil => rfl
  | cons request rest ih => simp only [readEach, close_answer, List.map_cons, ih]

private theorem Opened.expected?_eq (h : body.Opened) (hkept : body.inMemory = false) :
    body.expected? = some body.remaining := by
  cases h with
  | @window d path s w hwindow =>
    unfold FileWindow.ofFile at hwindow
    split at hwindow
    · cases hwindow
    · split at hwindow
      · cases hwindow
      · cases hwindow
        rfl
  | response => rfl
  | memory => cases hkept

/-- After any reads, the bytes delivered and those that remain are the body.  Once it is closed, every further read
fails with their counts, unless nothing was left or the body is one in memory: that one is at its end, whatever was
left. -/
theorem close_reads (hopened : body.Opened) (reads later : List Request) :
    let run := readEach answer body reads
    run.2.remaining + (delivered run.1).length = body.remaining ∧
      ∀ delivery ∈ (readEach answer run.2.close later).1,
        delivery = if body.inMemory ∨ run.2.remaining = 0 then .ok none
          else .error (.truncated (delivered run.1).length body.remaining) := by
  intro run
  obtain ⟨hremaining, hexpected⟩ : run.2.remaining + (delivered run.1).length = body.remaining ∧ _ :=
    readEach_remaining body reads
  refine ⟨hremaining, ?_⟩
  intro delivery hdelivery
  rw [readEach_close] at hdelivery
  obtain ⟨request, -, rfl⟩ := List.mem_map.1 hdelivery
  cases hmemory : body.inMemory with
  | true =>
    rw [inMemory, Option.isNone_iff_eq_none] at hmemory
    simp only [closing, run, hexpected, hmemory, true_or, if_true]
  | false =>
    have hcounts : body.remaining - run.2.remaining = (delivered run.1).length := by omega
    simp only [closing, run, hexpected, hopened.expected?_eq hmemory, Bool.false_eq_true, false_or]
    rw [hcounts]

/-- A response that is closed behind its first piece. -/
theorem close_reads_response :
    let body := Body.response (ResponseBody.ofPieces [.ok [1, 2], .ok [3]] 0 3)
    body.Opened ∧ ∀ delivery ∈
        (readEach answer (readEach answer body [⟨.empty, 1, 2⟩]).2.close [⟨.empty, 1, 4⟩, ⟨.empty, 1, 4⟩]).1,
      delivery = .error (.truncated 2 3) :=
  ⟨.response .., (close_reads (.response ..) [⟨.empty, 1, 2⟩] [⟨.empty, 1, 4⟩, ⟨.empty, 1, 4⟩]).2⟩

/-- A closed body in memory does not fail, though bytes were left. -/
theorem close_not_always_fails :
    ¬ ∀ (body : Body) (reads later : List Request), body.Opened → (readEach answer body reads).2.remaining ≠ 0 →
      ∀ delivery ∈ (readEach answer (readEach answer body reads).2.close later).1, delivery.isFault = true := by
  intro h
  have hfault := h (.memory ⟨[97, 98, 99, 100, 101, 102]⟩) [⟨.empty, 1, 2⟩] [⟨.empty, 1, 4⟩] (.memory _) (by decide)
    (.ok none) (.head _)
  cases hfault

end ChunkedStorage.Body
