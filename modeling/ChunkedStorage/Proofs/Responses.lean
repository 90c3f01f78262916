import ChunkedStorage.Http
import ChunkedStorage.Proofs.Reads
import ChunkedStorage.Proofs.Tiling

/-!
# Bodies of responses

However a response is cut into pieces, reads of its body deliver the bytes of its window and nothing else, and a broken
connection or an early end shows only behind them.  So a span of an object is delivered alike by a server that answers
with the span and by one that answers with the whole object (`HttpClient.openBody_delivers`).
-/

namespace ChunkedStorage

/-! ### Arrivals -/

namespace ResponseBody

/-- The bytes that arrive before the connection breaks or the response ends. -/
def front : List (Except String Bytes) → Bytes
  | .ok piece :: rest => piece ++ front rest
  | [] | .error _ :: _ => []

/-- How the connection breaks first, and what would arrive after that. -/
def firstBreak? : List (Except String Bytes) → Option (String × List (Except String Bytes))
  | [] => none
  | .ok _ :: rest => firstBreak? rest
  | .error detail :: rest => some (detail, rest)

/-- Pieces that arrive one after the other, and how the connection breaks behind them, if it does. -/
def arrivals (pieces : List Bytes) (broken? : Option String) : List (Except String Bytes) :=
  pieces.map .ok ++ (broken?.map .error).toList

theorem front_arrivals (pieces : List Bytes) (broken? : Option String) :
    front (arrivals pieces broken?) = pieces.flatten := by
  induction pieces with
  | nil => cases broken? <;> rfl
  | cons piece rest ih => exact congrArg (piece ++ ·) ih

theorem firstBreak?_arrivals (pieces : List Bytes) (broken? : Option String) :
    firstBreak? (arrivals pieces broken?) = broken?.map (·, []) := by
  induction pieces with
  | nil => cases broken? <;> rfl
  | cons piece rest ih => exact ih

/-! ### Filling -/

variable {b b' : ResponseBody}

private theorem drop_append_of_le {pending more : Bytes} {skip : Nat} (h : pending.length ≤ skip) :
    (pending ++ more).drop skip = more.drop (skip - pending.length) := by
  rw [List.drop_append, List.drop_of_length_le h, List.nil_append]

private theorem drop_ne_nil {pending : Bytes} {skip : Nat} (h : skip < pending.length) : pending.drop skip ≠ [] := by
  simpa using h

/-- As long as bytes behind the skipped ones arrive, some of them become pending. -/
private theorem fill_ok (b : ResponseBody) {pieces : List (Except String Bytes)} {pending : Bytes} {skip : Nat}
    (h : (pending ++ front pieces).drop skip ≠ []) :
    ∃ rest pending', b.fill pieces pending skip =
        (.ok (), { b with arriving? := some rest, pending := pending', skip := 0 }) ∧
      pending' ≠ [] ∧ pending' ++ front rest = (pending ++ front pieces).drop skip ∧
      firstBreak? rest = firstBreak? pieces := by
  fun_induction fill b pieces pending skip with
  | case1 pending skip hlt | case3 rest pending skip detail hlt | case5 rest pending skip piece hlt =>
    exact ⟨_, _, rfl, drop_ne_nil hlt, (List.drop_append_of_le_length (Nat.le_of_lt hlt)).symm, rfl⟩
  | case2 pending skip hle | case4 rest pending skip detail hle =>
    rw [front, List.append_nil, List.drop_of_length_le (Nat.le_of_not_lt hle)] at h
    exact absurd rfl h
  | case6 rest pending skip piece hle ih =>
    rw [front, drop_append_of_le (Nat.le_of_not_lt hle)] at h ⊢
    exact ih h

/-- Otherwise the connection breaks, or the response ends. -/
private theorem fill_error (b : ResponseBody) {pieces : List (Except String Bytes)} {pending : Bytes} {skip : Nat}
    (h : (pending ++ front pieces).drop skip = []) :
    ∃ skip', b.fill pieces pending skip =
      match firstBreak? pieces with
      | none => (.error b.truncated, { b with arriving? := none, pending := [], skip := skip' })
      | some (detail, rest) =>
        (.error (.network detail), { b with arriving? := some rest, pending := [], skip := skip' }) := by
  fun_induction fill b pieces pending skip with
  | case1 pending skip hlt | case3 rest pending skip detail hlt | case5 rest pending skip piece hlt =>
    rw [List.drop_append_of_le_length (Nat.le_of_lt hlt), List.append_eq_nil_iff] at h
    exact absurd h.1 (drop_ne_nil hlt)
  | case2 pending skip hle | case4 rest pending skip detail hle => exact ⟨_, rfl⟩
  | case6 rest pending skip piece hle ih =>
    rw [front, drop_append_of_le (Nat.le_of_not_lt hle)] at h
    exact ih h

/-! ### One read -/

/-- The bytes that are still delivered before the connection breaks or the response ends. -/
def ahead (b : ResponseBody) : Bytes :=
  match b.arriving? with
  | none => []
  | some pieces => ((b.pending ++ front pieces).drop b.skip).take b.remaining

/-- How the connection breaks next. -/
def break? (b : ResponseBody) : Option (String × List (Except String Bytes)) := b.arriving?.bind firstBreak?

/-- What a read may give, and what it leaves. -/
inductive Gives (b : ResponseBody) (max : Nat) : Delivery → ResponseBody → Prop where
  | ended (hnone : b.remaining = 0) : Gives b max (.ok none) { b with arriving? := none }
  | piece {piece : Bytes} {b' : ResponseBody} (hne : piece ≠ []) (hmax : piece.length ≤ Nat.max max 1)
      (hahead : b.ahead = piece ++ b'.ahead) (hremaining : b'.remaining + piece.length = b.remaining)
      (hexpected : b'.expected = b.expected) (hbreak : b'.break? = b.break?) : Gives b max (.ok (some piece)) b'
  | broken {detail : String} {rest : List (Except String Bytes)} {skip : Nat} (hsome : b.remaining ≠ 0)
      (hahead : b.ahead = []) (hbreak : b.break? = some (detail, rest)) :
      Gives b max (.error (.network detail)) { b with arriving? := some rest, pending := [], skip }
  | truncated {pending : Bytes} {skip : Nat} (hsome : b.remaining ≠ 0) (hahead : b.ahead = [])
      (hbreak : b.break? = none) :
      Gives b max (.error b.truncated) { b with arriving? := none, pending, skip }

theorem gives_read (b : ResponseBody) (max : Nat) : b.Gives max (b.read max).1 (b.read max).2 := by
  unfold read
  by_cases hremaining : b.remaining = 0
  · rw [if_pos hremaining]
    exact .ended hremaining
  · rw [if_neg hremaining]
    cases harriving : b.arriving? with
    | none =>
      have hgives : b.Gives max (.error b.truncated)
          { b with arriving? := none, pending := b.pending, skip := b.skip } :=
        .truncated hremaining (by simp only [ahead, harriving]) (by rw [break?, harriving]; rfl)
      rwa [show ({ b with arriving? := none, pending := b.pending, skip := b.skip } : ResponseBody) = b by
        rw [← harriving]] at hgives
    | some pieces =>
      have hbreak : b.break? = firstBreak? pieces := by rw [break?, harriving]; rfl
      have hahead : b.ahead = ((b.pending ++ front pieces).drop b.skip).take b.remaining := by
        simp only [ahead, harriving]
      by_cases hbytes : (b.pending ++ front pieces).drop b.skip = []
      · obtain ⟨skip', hfill⟩ := b.fill_error hbytes
        rw [hbytes, List.take_nil] at hahead
        cases hfirst : firstBreak? pieces with
        | none =>
          rw [hfirst] at hfill hbreak
          simp only [hfill]
          exact .truncated hremaining hahead hbreak
        | some broken =>
          rw [hfirst] at hfill hbreak
          simp only [hfill]
          exact .broken hremaining hahead hbreak
      · obtain ⟨rest, pending', hfill, hne, hpending, hfirst⟩ := b.fill_ok hbytes
        have hpositive := List.length_pos_iff.2 hne
        have hmax : 1 ≤ Nat.max max 1 := Nat.le_max_right ..
        simp only [hfill, deliver]
        generalize hn : min (min (Nat.max max 1) pending'.length) b.remaining = n
        have hlength : (pending'.take n).length = n := by
          rw [List.length_take]
          omega
        refine .piece ?_ ?_ ?_ ?_ rfl (hfirst.trans hbreak.symm)
        · rw [← List.length_pos_iff, hlength]
          omega
        · omega
        · -- the piece comes off the front of what is ahead
          rw [hahead, ← hpending]
          simp only [ahead]
          conv => lhs; rw [← List.take_append_drop n pending', List.append_assoc, List.take_append, hlength]
          rw [List.drop_zero, List.take_of_length_le (by omega)]
        · simp only
          omega

/-- Nothing is ahead of a body of which nothing remains. -/
private theorem ahead_of_none (hnone : b.remaining = 0) : b.ahead = [] := by
  unfold ahead
  split
  · rfl
  · rw [hnone, List.take_zero]

/-! ### Rows of reads -/

/-- Reads of a body that are on their course, and how the connection breaks next: once it broke, it does not break
again. -/
structure Course (window : Bytes) (length : Nat) (broken? : Option String) (past : List Delivery) (b : ResponseBody) :
    Prop extends ChunkedStorage.Course window length past b.ahead b.remaining where
  expected : b.expected = length
  break? : b.remaining ≠ 0 → b.break? = if past.any Delivery.isFault then none else broken?.map (·, [])

namespace Course

variable {window : Bytes} {length : Nat} {broken? : Option String} {past : List Delivery}

theorem ofPieces (pieces : List Bytes) (broken? : Option String) (skip length : Nat) :
    Course ((⟨skip, skip + length⟩ : Span).cut pieces.flatten) length broken? []
      (ofPieces (arrivals pieces broken?) skip length) where
  ahead_eq := by
    simp [delivered, ResponseBody.ahead, ResponseBody.ofPieces, front_arrivals, Span.cut, Span.length]
  left_add := rfl
  expected := rfl
  break? := fun _ => firstBreak?_arrivals pieces broken?

/-- What would arrive behind the break is nothing. -/
private theorem rest_eq {detail : String} {rest : List (Except String Bytes)}
    (h : Course window length broken? past b) (hsome : b.remaining ≠ 0) (hbreak : b.break? = some (detail, rest)) :
    rest = [] := by
  have hnext := h.break? hsome
  rw [hbreak] at hnext
  split at hnext
  · cases hnext
  · obtain ⟨_, -, heq⟩ := Option.map_eq_some_iff.1 hnext.symm
    exact (congrArg Prod.snd heq).symm

private theorem given {max : Nat} {delivery : Delivery} (h : Course window length broken? past b)
    (hgives : b.Gives max delivery b') : Given max b.ahead b'.ahead b.remaining b'.remaining delivery := by
  cases hgives with
  | ended hnone => exact .ended hnone (ahead_of_none hnone).symm rfl
  | piece hne hmax hahead hremaining => exact .piece hne hmax hahead hremaining
  | broken hsome hahead hbreak =>
    obtain rfl := h.rest_eq hsome hbreak
    exact .failed hsome hahead (by rw [hahead]; simp [ResponseBody.ahead, front]) rfl
  | truncated hsome hahead => exact .failed hsome hahead hahead.symm rfl

theorem gives {max : Nat} {delivery : Delivery} (h : Course window length broken? past b)
    (hgives : b.Gives max delivery b') : Course window length broken? (past ++ [delivery]) b' := by
  have hcourse := h.toCourse.given (h.given hgives)
  cases hgives with
  | ended hnone => exact ⟨hcourse, h.expected, fun hsome => absurd hnone hsome⟩
  | piece hne _ _ hremaining hexpected hbreak =>
    refine ⟨hcourse, hexpected.trans h.expected, ?_⟩
    intro _
    have hpositive := List.length_pos_iff.2 hne
    rw [hbreak, h.break? (by omega), List.any_append]
    simp [Delivery.isFault]
  | broken hsome _ hbreak =>
    obtain rfl := h.rest_eq hsome hbreak
    refine ⟨hcourse, h.expected, ?_⟩
    intro _
    rw [List.any_append]
    simp [Delivery.isFault, ResponseBody.break?, firstBreak?]
  | truncated =>
    refine ⟨hcourse, h.expected, ?_⟩
    intro _
    rw [List.any_append]
    simp [Delivery.isFault, ResponseBody.break?]

theorem reads (h : Course window length broken? [] b) (maxes : List Nat) :
    Course window length broken? (readEach read b maxes).1 (readEach read b maxes).2 :=
  readEach_induction read h fun max _ _ b hpast => hpast.gives (b.gives_read max)

/-- The `i`-th read is one of a body that the reads before it have brought on its course. -/
theorem of_getElem? (h : Course window length broken? [] b) {maxes : List Nat} {i : Nat} {delivery : Delivery}
    (hdelivery : (readEach read b maxes).1[i]? = some delivery) :
    ∃ max b₁ b₂, maxes[i]? = some max ∧ b₁.Gives max delivery b₂ ∧
      Course window length broken? ((readEach read b maxes).1.take i) b₁ := by
  obtain ⟨max, b₁, hmax, rfl, hcourse⟩ := of_getElem?_readEach read h
    (fun max _ _ b hpast => hpast.gives (b.gives_read max)) hdelivery
  exact ⟨max, b₁, _, hmax, b₁.gives_read max, hcourse⟩

theorem windowed (h : Course window length broken? [] b) (maxes : List Nat) :
    Windowed window length maxes (readEach read b maxes).1 (readEach read b maxes).2.remaining := by
  refine .of_courses (length_readEach read b maxes) (h.reads maxes).toCourse ?_
  intro i delivery hdelivery
  obtain ⟨max, b₁, b₂, hmax, hgives, hcourse⟩ := h.of_getElem? hdelivery
  exact ⟨max, _, _, _, _, hmax, hcourse.toCourse, hcourse.given hgives⟩

/-- The first fault is the break of the connection if it breaks; otherwise the response is too short. -/
theorem fault (h : Course window length broken? [] b) {maxes : List Nat} {i : Nat} {fault : TransferFault}
    (hfault : (readEach read b maxes).1[i]? = some (.error fault)) :
    fault = if ((readEach read b maxes).1.take i).any Delivery.isFault then .truncated window.length length
      else broken?.elim (.truncated window.length length) .network := by
  obtain ⟨max, b₁, b₂, -, hgives, hcourse⟩ := h.of_getElem? hfault
  have hall := hcourse.ahead_eq
  have hremaining := hcourse.left_add
  cases hgives with
  | broken hsome hahead hbreak =>
    have hnext := hcourse.break? hsome
    rw [hbreak] at hnext
    split at hnext
    · cases hnext
    · next hfirst =>
      obtain ⟨detail, hdetail, heq⟩ := Option.map_eq_some_iff.1 hnext.symm
      cases heq
      rw [if_neg hfirst, hdetail]
      rfl
  | truncated hsome hahead hbreak =>
    rw [hahead, List.append_nil] at hall
    have hcounts : b₁.truncated = .truncated window.length length := by
      rw [ResponseBody.truncated, hcourse.expected, ← hall]
      congr 1
      omega
    have hnext := hcourse.break? hsome
    rw [hbreak] at hnext
    rw [hcounts]
    split
    · rfl
    · next hfirst =>
      rw [if_neg hfirst] at hnext
      rw [Option.map_eq_none_iff.1 hnext.symm]
      rfl

end Course

end ResponseBody

/-! ### Spans of objects -/

/-- The answers to a request for a span of an object.  The connection may break behind what is asked for. -/
inductive HttpResponse.Answers (object : Bytes) (s : Span) : HttpResponse → Prop where
  /-- Partial content: the span. -/
  | span {pieces : List Bytes} {broken? : Option String} (hbytes : pieces.flatten = s.cut object) :
      Answers object s ⟨206, ResponseBody.arrivals pieces broken?⟩
  /-- The whole object. -/
  | whole {pieces : List Bytes} {broken? : Option String} (hbytes : pieces.flatten = object) :
      Answers object s ⟨200, ResponseBody.arrivals pieces broken?⟩

/-- To read a body of a response is to read the response. -/
theorem Body.readEach_response (b : ResponseBody) (d : Disk) (grant : Nat) (maxes : List Nat) :
    readEach (fun body max => Body.read body d grant max) (.response b) maxes =
      ((readEach ResponseBody.read b maxes).1, .response (readEach ResponseBody.read b maxes).2) := by
  induction maxes generalizing b with
  | nil => rfl
  | cons max rest ih =>
    have hread : Body.read (.response b) d grant max = ((b.read max).1, .response (b.read max).2) := rfl
    simp only [readEach, hread, ih]

namespace HttpClient

variable {σ : Type} {client : HttpClient} {exchange : HttpRequest → σ → Except String HttpResponse × σ}
variable {location : AccessLocation} {s : Span} {world world' : σ} {response : HttpResponse} {object : Bytes}

private theorem cut_whole {content : Bytes} {length : Nat} (h : content.length = length) :
    (⟨0, 0 + length⟩ : Span).cut content = content := by
  simp [Span.cut, Span.length, ← h]

/-- Both answers make a body whose window is the span. -/
private theorem openBody_course (hsome : s.start < s.stop) (hstop : s.stop ≤ object.length)
    (hexchange : exchange (client.request location s) world = (.ok response, world'))
    (hanswers : response.Answers object s) :
    ∃ b broken?, client.openBody exchange location s world = (.ok (.response b), world') ∧ b.remaining = s.length ∧
      b.Course (s.cut object) s.length broken? [] := by
  have hopen : client.openBody exchange location s world = (bodyOf location s response, world') := by
    simp only [openBody, Nat.not_le.2 hsome, if_false, hexchange]
  rw [hopen]
  cases hanswers with
  | @span pieces broken? hbytes =>
    refine ⟨_, broken?, rfl, rfl, ?_⟩
    have hcourse := ResponseBody.Course.ofPieces pieces broken? 0 s.length
    have hlength : (s.cut object).length = s.length := Span.length_cut_of_stop_le hstop
    rwa [hbytes, cut_whole hlength] at hcourse
  | @whole pieces broken? hbytes =>
    refine ⟨_, broken?, rfl, rfl, ?_⟩
    have hcourse := ResponseBody.Course.ofPieces pieces broken? s.start s.length
    have hspan : (⟨s.start, s.start + s.length⟩ : Span) = s := by
      rw [Span.length, Nat.add_sub_cancel' (Nat.le_of_lt hsome)]
    rwa [hbytes, hspan] at hcourse

/-- Reads of the body of a response deliver its window, the `length` bytes behind the first `skip` ones, however the
response is cut into pieces and whatever is asked for.  If the response ends or breaks before the end of the window, all
that arrived of the window is delivered, and then the reads fail.  So the span of an object is delivered, whether it is
answered alone or with the whole object. -/
theorem openBody_delivers :
    (∀ (pieces : List Bytes) (broken? : Option String) (skip length : Nat) (maxes : List Nat),
      let window := (⟨skip, skip + length⟩ : Span).cut pieces.flatten
      let run := readEach ResponseBody.read
        (ResponseBody.ofPieces (ResponseBody.arrivals pieces broken?) skip length) maxes
      Windowed window length maxes run.1 run.2.remaining ∧
        (window.length ≤ maxes.length → delivered run.1 = window) ∧
        ∀ (i : Nat) (delivery : Delivery), run.1[i]? = some delivery → delivered (run.1.take i) = window →
          window.length < length → broken? = none ∨ (run.1.take i).all (!·.isFault) = true →
            delivery = .error (broken?.elim (.truncated window.length length) .network)) ∧
      ∀ {σ : Type} (client : HttpClient) (exchange : HttpRequest → σ → Except String HttpResponse × σ)
        (location : AccessLocation) (s : Span) (world world' : σ) (response : HttpResponse) (object : Bytes),
        s.start < s.stop → s.stop ≤ object.length →
        exchange (client.request location s) world = (.ok response, world') → response.Answers object s →
          ∃ body, client.openBody exchange location s world = (.ok body, world') ∧ body.remaining = s.length ∧
            ∀ (d : Disk) (grant : Nat) (maxes : List Nat),
              let run := readEach (fun body max => Body.read body d grant max) body maxes
              Windowed (s.cut object) s.length maxes run.1 run.2.remaining ∧
                (s.length ≤ maxes.length → delivered run.1 = s.cut object) ∧
                ∀ delivery ∈ run.1, delivery.isFault = false := by
  constructor
  · intro pieces broken? skip length maxes window run
    have hcourse := ResponseBody.Course.ofPieces pieces broken? skip length
    have hwindowed := hcourse.windowed maxes
    have hle : window.length ≤ length := by
      rw [Span.length_cut]
      exact Nat.le_trans (Nat.min_le_left ..) (by simp [Span.length])
    refine ⟨hwindowed, hwindowed.complete hle, ?_⟩
    intro i delivery hdelivery hall hshort hfirst
    obtain ⟨fault, rfl⟩ := hwindowed.fault_of_delivered hdelivery hall hshort
    rw [hcourse.fault hdelivery]
    rcases hfirst with rfl | hfirst
    · exact congrArg Except.error (ite_self _)
    · have hnone : ¬ (run.1.take i).any Delivery.isFault = true := by simpa using hfirst
      rw [if_neg hnone]
  · intro σ client exchange location s world world' response object hsome hstop hexchange hanswers
    obtain ⟨b, broken?, hopen, hremaining, hcourse⟩ := openBody_course hsome hstop hexchange hanswers
    refine ⟨_, hopen, hremaining, ?_⟩
    intro d grant maxes run
    have hlength : (s.cut object).length = s.length := Span.length_cut_of_stop_le hstop
    have hwindowed : Windowed (s.cut object) s.length maxes run.1 run.2.remaining := by
      simp only [run, Body.readEach_response]
      exact hcourse.windowed maxes
    refine ⟨hwindowed, fun hreads => hwindowed.complete (Nat.le_of_eq hlength) (by omega), ?_⟩
    intro delivery hmem
    obtain ⟨i, hi⟩ := List.mem_iff_getElem?.1 hmem
    cases delivery with
    | ok _ => rfl
    | error fault =>
      -- a window that is whole leaves no room for a fault
      obtain ⟨-, hshort⟩ := hwindowed.failed i fault hi
      omega

/-- The whole object is answered, in pieces that reach over both ends of the span, and the connection breaks behind
it. -/
theorem openBody_delivers_broken :
    let client : HttpClient := ⟨[], ⟨0⟩, ⟨0⟩⟩
    let response : HttpResponse := ⟨200, ResponseBody.arrivals [[1, 2], [], [3, 4], [5]] (some "reset")⟩
    ∃ body, client.openBody (fun _ (world : Unit) => (.ok response, world)) ⟨"u", none⟩ ⟨1, 3⟩ () = (.ok body, ()) ∧
      delivered (readEach (fun body max => Body.read body .empty 1 max) body [0, 9, 9]).1 = [2, 3] := by
  intro client response
  obtain ⟨body, hopen, -, hreads⟩ := openBody_delivers.2 client (fun _ (world : Unit) => (.ok response, world))
    ⟨"u", none⟩ ⟨1, 3⟩ () () response [1, 2, 3, 4, 5] (by decide) (by decide) rfl (.whole rfl)
  obtain ⟨-, hcomplete, -⟩ := hreads .empty 1 [0, 9, 9]
  exact ⟨body, hopen, hcomplete (by decide)⟩

end HttpClient

end ChunkedStorage
