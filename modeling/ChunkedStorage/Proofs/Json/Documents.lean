import ChunkedStorage.Proofs.Json.Words
import ChunkedStorage.Text.Utf8

/-!
# Documents and their texts

A document is a JSON value whose objects keep their members as they are written.  It has many texts, as blanks may stand
around every word (`Written`).  Whatever the document is, each of its texts is passed over (`Written.skip_eq`).  The
texts of a value are some of its document, the one without blanks (`Value.isText_render`) and the one with a line for
each element and member (`Value.isText_pretty`).
-/

namespace ChunkedStorage.Json

/-- A JSON value; a number is its own text. -/
inductive Document where
  | null
  | boolean (value : Bool)
  | number (literal : List Char)
  | text (value : String)
  | list (elements : List Document)
  | object (members : List (String × Document))

/-- A part of a text: a value, or what is left of a list or an object, from its first element or member on or from
behind an earlier one on. -/
inductive Part where
  | value (d : Document)
  | elements (first : Bool) (ds : List Document)
  | members (first : Bool) (ms : List (String × Document))

/-- The next element or member starts at `s'`. -/
def Comes (first : Bool) (s s' : Source) : Prop :=
  if first then skipBlank s = s' else ∃ behind, skipBlank s = some ',' :: behind ∧ skipBlank behind = s'

/-- The text starts with the part, and `rest` is behind it.  A value starts with no blank. -/
inductive Written : Part → (s rest : Source) → Prop where
  | null {rest : Source} : Written (.value .null) (['n', 'u', 'l', 'l'].map some ++ rest) rest
  | boolean {b : Bool} {rest : Source} : Written (.value (.boolean b)) ((Value.boolText b).map some ++ rest) rest
  | number {cs : List Char} {rest : Source} (hcs : IsNumber cs) (hrest : Stops rest) :
    Written (.value (.number cs)) (cs.map some ++ rest) rest
  | text {t : String} {rest : Source} : Written (.value (.text t)) ((quote t).map some ++ rest) rest
  | list {ds : List Document} {s rest : Source} (hs : Written (.elements true ds) s rest) :
    Written (.value (.list ds)) (some '[' :: s) rest
  | object {ms : List (String × Document)} {s rest : Source} (hs : Written (.members true ms) s rest) :
    Written (.value (.object ms)) (some '\x7b' :: s) rest
  | noElement {first : Bool} {s rest : Source} (hs : skipBlank s = some ']' :: rest) :
    Written (.elements first []) s rest
  | element {first : Bool} {d : Document} {ds : List Document} {s s₁ s₂ rest : Source} (hcomes : Comes first s s₁)
    (hd : Written (.value d) s₁ s₂) (hds : Written (.elements false ds) s₂ rest) :
    Written (.elements first (d :: ds)) s rest
  | noMember {first : Bool} {s rest : Source} (hs : skipBlank s = some '\x7d' :: rest) :
    Written (.members first []) s rest
  | member {first : Bool} {key : String} {d : Document} {ms : List (String × Document)} {s s₁ s₂ s₃ rest : Source}
    (hcomes : Comes first s ((quote key).map some ++ s₁)) (hcolon : skipBlank s₁ = some ':' :: s₂)
    (hd : Written (.value d) (skipBlank s₂) s₃) (hms : Written (.members false ms) s₃ rest) :
    Written (.members first ((key, d) :: ms)) s rest

/-- A whole text of the document. -/
def IsText (d : Document) (s : Source) : Prop := ∃ rest, Written (.value d) (skipBlank s) rest ∧ skipBlank rest = []

variable {first : Bool} {d : Document} {ds : List Document} {ms : List (String × Document)} {part : Part}
  {s s' rest : Source}

/-! ### What a text starts with -/

theorem length_skipBlank_le (s : Source) : (skipBlank s).length ≤ s.length :=
  (List.dropWhile_suffix _).length_le

theorem Comes.length_le (h : Comes first s s') : s'.length ≤ s.length := by
  cases first with
  | true =>
    have hs : skipBlank s = s' := h
    rw [← hs]
    exact length_skipBlank_le s
  | false =>
    obtain ⟨behind, hs, rfl⟩ := h
    have hlength := length_skipBlank_le s
    have hbehind := length_skipBlank_le behind
    rw [hs, List.length_cons] at hlength
    omega

/-- The value of a member is behind its key. -/
theorem Comes.length_value_lt {key : String} {s₁ s₂ : Source} (h : Comes first s ((quote key).map some ++ s₁))
    (hcolon : skipBlank s₁ = some ':' :: s₂) : (skipBlank s₂).length < s.length := by
  have hlength := h.length_le
  have hbehind := length_skipBlank_le s₁
  have hvalue := length_skipBlank_le s₂
  rw [hcolon, List.length_cons] at hbehind
  rw [List.length_append] at hlength
  omega

private theorem length_lt_append {cs : List Char} (h : cs ≠ []) (rest : Source) :
    rest.length < (cs.map some ++ rest).length := by
  have hpositive := List.length_pos_iff.2 h
  rw [List.length_append, List.length_map]
  omega

/-- Every part takes some of the text. -/
theorem Written.length_lt (h : Written part s rest) : rest.length < s.length := by
  induction h with
  | null => exact length_lt_append (by simp) _
  | @boolean b => exact length_lt_append (by cases b <;> simp [Value.boolText]) _
  | number hcs =>
    obtain ⟨sign, whole, fraction, exponent, rfl, -, ⟨⟨hwhole, -⟩, -⟩, -⟩ := hcs
    exact length_lt_append (by simp [hwhole]) _
  | text => exact length_lt_append (by simp [quote]) _
  | list _ ih | object _ ih =>
    rw [List.length_cons]
    omega
  | @noElement _ s rest hs | @noMember _ s rest hs =>
    have hlength := length_skipBlank_le s
    rw [hs, List.length_cons] at hlength
    omega
  | element hcomes _ _ ihd ihds =>
    have hlength := hcomes.length_le
    omega
  | member hcomes hcolon _ _ ihd ihms =>
    have hvalue := hcomes.length_value_lt hcolon
    omega

/-- The first character of a value. -/
def StartsValue (c : Char) : Prop := c ∈ ['n', 't', 'f', '"', '[', '\x7b'] ∨ startsNumber c = true

theorem startsNumber_cases {c : Char} (h : startsNumber c = true) :
    c ∈ ['-', '0', '1', '2', '3', '4', '5', '6', '7', '8', '9'] := by
  rw [startsNumber, Bool.or_eq_true, beq_iff_eq] at h
  rcases h with rfl | h
  · decide
  · exact List.mem_cons_of_mem _ (Text.digit_cases h)

/-- A value starts with no blank, no comma and no closing bracket. -/
theorem StartsValue.plain {c : Char} (h : StartsValue c) :
    isBlank (some c) = false ∧ c ≠ ',' ∧ c ≠ ']' ∧ c ≠ '\x7d' := by
  have hall : ∀ c ∈ ['n', 't', 'f', '"', '[', '\x7b'] ++ ['-', '0', '1', '2', '3', '4', '5', '6', '7', '8', '9'],
      isBlank (some c) = false ∧ c ≠ ',' ∧ c ≠ ']' ∧ c ≠ '\x7d' := by
    simp [isBlank]
  rcases h with h | h
  · exact hall c (List.mem_append_left _ h)
  · exact hall c (List.mem_append_right _ (startsNumber_cases h))

theorem IsNumber.starts {cs : List Char} (h : IsNumber cs) : ∃ c cs', cs = c :: cs' ∧ startsNumber c = true := by
  obtain ⟨sign, whole, fraction, exponent, rfl, hsign, ⟨⟨hwhole, hdigits⟩, -⟩, -⟩ := h
  simp only [List.mem_cons, List.not_mem_nil, or_false] at hsign
  rcases hsign with rfl | rfl
  · obtain ⟨d, ds, rfl⟩ := List.exists_cons_of_ne_nil hwhole
    exact ⟨d, ds ++ (fraction ++ exponent), rfl, by simp [startsNumber, hdigits d List.mem_cons_self]⟩
  · exact ⟨'-', whole ++ (fraction ++ exponent), rfl, rfl⟩

theorem Written.starts (h : Written (.value d) s rest) : ∃ c s', s = some c :: s' ∧ StartsValue c := by
  cases h with
  | null => exact ⟨'n', _, rfl, .inl (by decide)⟩
  | @boolean b =>
    cases b
    · exact ⟨'f', _, rfl, .inl (by decide)⟩
    · exact ⟨'t', _, rfl, .inl (by decide)⟩
  | number hcs =>
    obtain ⟨c, cs, rfl, hc⟩ := hcs.starts
    exact ⟨c, _, rfl, .inr hc⟩
  | text => exact ⟨'"', _, rfl, .inl (by decide)⟩
  | list => exact ⟨'[', _, rfl, .inl (by decide)⟩
  | object => exact ⟨'\x7b', _, rfl, .inl (by decide)⟩

/-- There is no blank in front of a value. -/
theorem Written.skipBlank_eq (h : Written (.value d) s rest) : skipBlank s = s := by
  obtain ⟨c, s, rfl, hc⟩ := h.starts
  exact skipBlank_cons hc.plain.1 s

theorem skipBlank_quote (t : String) (rest : Source) :
    skipBlank ((quote t).map some ++ rest) = (quote t).map some ++ rest :=
  skipBlank_cons rfl _

/-! ### Passing over a text -/

/-- What passing over a part comes to. -/
private def Skipped (fuel : Nat) : Part → (s rest : Source) → Prop
  | .value _, s, rest => skipValue fuel s = .ok rest
  | .elements _ [], s, rest => skipBlank s = some ']' :: rest
  | .elements first (_ :: _), s, rest =>
    ∃ s', Comes first s s' ∧ s'.head? ≠ some (some ']') ∧ skipElements fuel s' = .ok rest
  | .members _ [], s, rest => skipBlank s = some '\x7d' :: rest
  | .members first (_ :: _), s, rest =>
    ∃ s', Comes first s s' ∧ s'.head? = some (some '"') ∧ skipMembers fuel s' = .ok rest

private theorem skipValue_skipBlank (fuel : Nat) (s : Source) : skipValue fuel (skipBlank s) = skipValue fuel s := by
  cases fuel with
  | zero => rfl
  | succ fuel => rw [skipValue, skipValue, skipBlank_skipBlank]

private theorem skipElements_skipBlank (fuel : Nat) (s : Source) :
    skipElements fuel (skipBlank s) = skipElements fuel s := by
  cases fuel with
  | zero => rfl
  | succ fuel => rw [skipElements, skipElements, skipValue_skipBlank]

private theorem skipMembers_skipBlank (fuel : Nat) (s : Source) :
    skipMembers fuel (skipBlank s) = skipMembers fuel s := by
  cases fuel with
  | zero => rfl
  | succ fuel => rw [skipMembers, skipMembers, skipBlank_skipBlank]

private theorem skipValue_number {c : Char} (hc : startsNumber c = true) (fuel : Nat) (s : Source) :
    skipValue (fuel + 1) (some c :: s) = skipNumber (some c :: s) := by
  rw [skipValue, skipBlank_cons (StartsValue.plain (.inr hc)).1]
  have hcases := startsNumber_cases hc
  simp only [List.mem_cons, List.not_mem_nil, or_false] at hcases
  rcases hcases with rfl | rfl | rfl | rfl | rfl | rfl | rfl | rfl | rfl | rfl | rfl <;> rfl

/-- A part takes a character, so there is fuel left. -/
private theorem Written.fuel_eq_succ (h : Written part s rest) {fuel : Nat}
    (hfuel : 2 * s.length ≤ 2 * rest.length + fuel) : ∃ more, fuel = more + 1 := by
  have hlength := h.length_lt
  exact Nat.exists_eq_succ_of_ne_zero (by omega)

/-- Fuel for two steps a character is enough: one step goes into a list or an object and one to its next element. -/
private theorem Written.skipped (h : Written part s rest) (fuel : Nat) (hfuel : 2 * s.length ≤ 2 * rest.length + fuel) :
    Skipped fuel part s rest := by
  induction h generalizing fuel with
  | null =>
    obtain ⟨fuel, rfl⟩ := Written.null.fuel_eq_succ hfuel
    rfl
  | @boolean b =>
    obtain ⟨fuel, rfl⟩ := Written.boolean.fuel_eq_succ hfuel
    cases b <;> rfl
  | number hcs hrest =>
    obtain ⟨fuel, rfl⟩ := (Written.number hcs hrest).fuel_eq_succ hfuel
    obtain ⟨c, cs, rfl, hc⟩ := hcs.starts
    exact (skipValue_number hc fuel _).trans (skipNumber_of_isNumber hcs hrest)
  | @text t rest =>
    obtain ⟨fuel, rfl⟩ := Written.text.fuel_eq_succ hfuel
    have hquoted := skipString_quote t rest
    simpa [Skipped, quote, skipValue, skipBlank_cons, isBlank] using hquoted
  | @list ds s rest hs ih =>
    obtain ⟨fuel, rfl⟩ := hs.list.fuel_eq_succ hfuel
    rw [List.length_cons] at hfuel
    have hskipped := ih fuel (by omega)
    rw [Skipped, skipValue, skipBlank_cons rfl]
    cases ds with
    | nil =>
      have hclosed : skipBlank s = some ']' :: rest := hskipped
      simp only [hclosed]
    | cons d ds =>
      obtain ⟨s', rfl, hhead, hskip⟩ := hskipped
      simp only
      split
      · next heq => simp [heq] at hhead
      · exact hskip
  | @object ms s rest hs ih =>
    obtain ⟨fuel, rfl⟩ := hs.object.fuel_eq_succ hfuel
    rw [List.length_cons] at hfuel
    have hskipped := ih fuel (by omega)
    rw [Skipped, skipValue, skipBlank_cons rfl]
    cases ms with
    | nil =>
      have hclosed : skipBlank s = some '\x7d' :: rest := hskipped
      simp only [hclosed]
    | cons m ms =>
      obtain ⟨s', rfl, hhead, hskip⟩ := hskipped
      simp only
      split
      · next heq => simp [heq] at hhead
      · exact hskip
  | noElement hs => exact hs
  | @element first d ds s s₁ s₂ rest hcomes hd hds ihd ihds =>
    obtain ⟨fuel, rfl⟩ := (hd.element hcomes hds).fuel_eq_succ hfuel
    have hvalue := hd.length_lt
    have hmore := hds.length_lt
    have hlength := hcomes.length_le
    obtain ⟨c, s₁, rfl, hc⟩ := hd.starts
    refine ⟨some c :: s₁, hcomes, by simpa using hc.plain.2.2.1, ?_⟩
    have hskipped : skipValue fuel (some c :: s₁) = .ok s₂ := ihd fuel (by omega)
    have hskips := ihds fuel (by omega)
    rw [skipElements, hskipped]
    cases ds with
    | nil =>
      have hclosed : skipBlank s₂ = some ']' :: rest := hskips
      simp only [hclosed]
    | cons d ds =>
      obtain ⟨s', ⟨behind, hcomma, rfl⟩, -, hskip⟩ := hskips
      simp only [hcomma]
      rwa [skipElements_skipBlank] at hskip
  | noMember hs => exact hs
  | @member first key d ms s s₁ s₂ s₃ rest hcomes hcolon hd hms ihd ihms =>
    obtain ⟨fuel, rfl⟩ := (hd.member hcomes hcolon hms).fuel_eq_succ hfuel
    have hlength := hcomes.length_value_lt hcolon
    have hvalue := hd.length_lt
    have hmore := hms.length_lt
    refine ⟨_, hcomes, rfl, ?_⟩
    have hskipped : skipValue fuel (skipBlank s₂) = .ok s₃ := ihd fuel (by omega)
    rw [skipValue_skipBlank] at hskipped
    have hskips := ihms fuel (by omega)
    have hquoted := skipString_quote key s₁
    rw [skipMembers, skipBlank_quote]
    simp only [quote, List.map_cons, List.map_append, List.map_nil, List.cons_append, List.append_assoc,
      List.nil_append, hquoted, hcolon, hskipped]
    cases ms with
    | nil =>
      have hclosed : skipBlank s₃ = some '\x7d' :: rest := hskips
      simp only [hclosed]
    | cons m ms =>
      obtain ⟨s', ⟨behind, hcomma, rfl⟩, -, hskip⟩ := hskips
      simp only [hcomma]
      rwa [skipMembers_skipBlank] at hskip

/-- Every text of a document is passed over. -/
theorem Written.skip_eq (h : Written (.value d) (skipBlank s) rest) : skip s = .ok rest := by
  have hlength := length_skipBlank_le s
  have hskipped : skipValue (2 * s.length + 2) (skipBlank s) = .ok rest := h.skipped _ (by omega)
  rwa [skipValue_skipBlank] at hskipped

/-! ### The texts of values -/

private theorem stops_cons {c : Char} (hc : c ∈ [',', ']', '\x7d', '\n']) (s : Source) : Stops (some c :: s) := by
  have hall : ∀ c ∈ [',', ']', '\x7d', '\n'], Text.isDigit c = false ∧ c ≠ '.' ∧ c ≠ 'e' ∧ c ≠ 'E' := by
    simp [Text.isDigit]
  intro d hd
  rw [List.head?_cons, Option.some.injEq, Option.some.injEq] at hd
  exact hd ▸ hall c hc

/-- Elements that fill a list may follow a comma as well. -/
private theorem Written.elements_behind_comma (h : Written (.elements true (d :: ds)) s rest) :
    Written (.elements false (d :: ds)) (some ',' :: s) rest := by
  cases h with
  | element hcomes hd hds => exact .element ⟨s, skipBlank_cons rfl s, hcomes⟩ hd hds

private theorem Written.members_behind_comma {m : String × Document} (h : Written (.members true (m :: ms)) s rest) :
    Written (.members false (m :: ms)) (some ',' :: s) rest := by
  cases h with
  | member hcomes hcolon hd hms => exact .member ⟨s, skipBlank_cons rfl s, hcomes⟩ hcolon hd hms

private theorem Written.firstElement (hd : Written (.value d) s s') (hds : Written (.elements false ds) s' rest) :
    Written (.elements true (d :: ds)) s rest :=
  .element hd.skipBlank_eq hd hds

private theorem Written.firstMember {key : String} (hs : skipBlank s = s₁) (hd : Written (.value d) s₁ s')
    (hms : Written (.members false ms) s' rest) :
    Written (.members true ((key, d) :: ms)) ((quote key).map some ++ some ':' :: s) rest :=
  .member (skipBlank_quote key _) (skipBlank_cons rfl s) (hs.symm ▸ hd) hms

namespace Value

mutual

/-- The document that a value stands for. -/
def document : Value → Document
  | null => .null
  | boolean b => .boolean b
  | number n => .number (Nat.toDigits 10 n)
  | text t => .text t
  | list vs => .list (documents vs)
  | object ms => .object (namedDocuments ms)

def documents : List Value → List Document
  | [] => []
  | v :: vs => document v :: documents vs

def namedDocuments : List (String × Value) → List (String × Document)
  | [] => []
  | (key, v) :: ms => (key, document v) :: namedDocuments ms

end

-- By induction on the value.  The text of a list behind its first element is the text of a list behind a comma.
mutual

theorem written_compact : (v : Value) → (rest : Source) → Stops rest →
    Written (.value v.document) (v.compact.map some ++ rest) rest
  | null, _, _ => .null
  | boolean _, _, _ => .boolean
  | number n, _, hrest => .number (isNumber_toDigits n) hrest
  | text _, _, _ => .text
  | list vs, rest, _ => (written_compactList vs rest).list
  | object ms, rest, _ => (written_compactMembers ms rest).object

theorem written_compactList : (vs : List Value) → (rest : Source) →
    Written (.elements true (documents vs)) ((compactList vs).map some ++ rest) rest
  | [], rest => .noElement (skipBlank_cons rfl rest)
  | [v], rest => by
    have hv := written_compact v (some ']' :: rest) (stops_cons (by decide) rest)
    simpa [compactList, documents] using hv.firstElement (.noElement (skipBlank_cons rfl rest))
  | v :: w :: vs, rest => by
    have hvs := written_compactList (w :: vs) rest
    have hv := written_compact v (some ',' :: ((compactList (w :: vs)).map some ++ rest)) (stops_cons (by decide) _)
    simpa [compactList, documents] using hv.firstElement hvs.elements_behind_comma

theorem written_compactMembers : (ms : List (String × Value)) → (rest : Source) →
    Written (.members true (namedDocuments ms)) ((compactMembers ms).map some ++ rest) rest
  | [], rest => .noMember (skipBlank_cons rfl rest)
  | [(key, v)], rest => by
    have hv := written_compact v (some '\x7d' :: rest) (stops_cons (by decide) rest)
    simpa [compactMembers, namedDocuments] using hv.firstMember hv.skipBlank_eq (.noMember (skipBlank_cons rfl rest))
  | (key, v) :: m :: ms, rest => by
    have hms := written_compactMembers (m :: ms) rest
    have hv := written_compact v (some ',' :: ((compactMembers (m :: ms)).map some ++ rest)) (stops_cons (by decide) _)
    simpa [compactMembers, namedDocuments] using hv.firstMember hv.skipBlank_eq hms.members_behind_comma

end

private theorem skipBlank_newLine (depth : Nat) (s : Source) :
    skipBlank ((newLine depth).map some ++ s) = skipBlank s := by
  apply List.dropWhile_append_of_pos
  intro c hc
  simp only [newLine, List.mem_map, List.mem_cons, List.mem_replicate] at hc
  obtain ⟨_, rfl | ⟨-, rfl⟩, rfl⟩ := hc
  · rfl
  · rfl

/-- A blank may stand in front of a value. -/
private theorem skipBlank_blank : skipBlank (some ' ' :: s) = skipBlank s := rfl

private theorem stops_newLine (depth : Nat) (s : Source) : Stops ((newLine depth).map some ++ s) :=
  stops_cons (by decide) _

/-- The first element of a list may stand on a line of its own, and so may the closing bracket. -/
private theorem elements_newLine (depth : Nat) (h : Written (.elements true ds) s rest) :
    Written (.elements true ds) ((newLine depth).map some ++ s) rest := by
  cases h with
  | noElement hs => exact .noElement ((skipBlank_newLine depth s).trans hs)
  | element hcomes hd hds => exact .element ((skipBlank_newLine depth s).trans hcomes) hd hds

private theorem members_newLine (depth : Nat) (h : Written (.members true ms) s rest) :
    Written (.members true ms) ((newLine depth).map some ++ s) rest := by
  cases h with
  | noMember hs => exact .noMember ((skipBlank_newLine depth s).trans hs)
  | member hcomes hcolon hd hms => exact .member ((skipBlank_newLine depth s).trans hcomes) hcolon hd hms

private theorem noElement_newLine (depth : Nat) (rest : Source) :
    Written (.elements first []) ((newLine depth).map some ++ some ']' :: rest) rest :=
  .noElement ((skipBlank_newLine depth _).trans (skipBlank_cons rfl rest))

private theorem noMember_newLine (depth : Nat) (rest : Source) :
    Written (.members first []) ((newLine depth).map some ++ some '\x7d' :: rest) rest :=
  .noMember ((skipBlank_newLine depth _).trans (skipBlank_cons rfl rest))

-- By induction on the value, as for the text without blanks.
mutual

theorem written_indented : (depth : Nat) → (v : Value) → (rest : Source) → Stops rest →
    Written (.value v.document) ((v.indented depth).map some ++ rest) rest
  | _, null, _, _ => .null
  | _, boolean _, _, _ => .boolean
  | _, number n, _, hrest => .number (isNumber_toDigits n) hrest
  | _, text _, _, _ => .text
  | _, list [], rest, _ => .list (.noElement (skipBlank_cons rfl rest))
  | depth, list (v :: vs), rest, _ => (written_indentedList depth (v :: vs) rest).list
  | _, object [], rest, _ => .object (.noMember (skipBlank_cons rfl rest))
  | depth, object (m :: ms), rest, _ => (written_indentedMembers depth (m :: ms) rest).object

theorem written_indentedList : (depth : Nat) → (vs : List Value) → (rest : Source) →
    Written (.elements true (documents vs)) ((indentedList depth vs).map some ++ rest) rest
  | depth, [], rest => by simpa [indentedList, documents] using noElement_newLine depth rest
  | depth, [v], rest => by
    have hv := written_indented (depth + 1) v _ (stops_newLine depth (some ']' :: rest))
    simpa [indentedList, documents] using elements_newLine (depth + 1) (hv.firstElement (noElement_newLine depth rest))
  | depth, v :: w :: vs, rest => by
    have hvs := written_indentedList depth (w :: vs) rest
    have hv := written_indented (depth + 1) v (some ',' :: ((indentedList depth (w :: vs)).map some ++ rest))
      (stops_cons (by decide) _)
    simpa [indentedList, documents] using
      elements_newLine (depth + 1) (hv.firstElement hvs.elements_behind_comma)

theorem written_indentedMembers : (depth : Nat) → (ms : List (String × Value)) → (rest : Source) →
    Written (.members true (namedDocuments ms)) ((indentedMembers depth ms).map some ++ rest) rest
  | depth, [], rest => by simpa [indentedMembers, namedDocuments] using noMember_newLine depth rest
  | depth, [(key, v)], rest => by
    have hv := written_indented (depth + 1) v _ (stops_newLine depth (some '\x7d' :: rest))
    have hblank := skipBlank_blank.trans hv.skipBlank_eq
    simpa [indentedMembers, namedDocuments] using
      members_newLine (depth + 1) (hv.firstMember hblank (noMember_newLine depth rest))
  | depth, (key, v) :: m :: ms, rest => by
    have hms := written_indentedMembers depth (m :: ms) rest
    have hv := written_indented (depth + 1) v
      (some ',' :: ((indentedMembers depth (m :: ms)).map some ++ rest)) (stops_cons (by decide) _)
    have hblank := skipBlank_blank.trans hv.skipBlank_eq
    simpa [indentedMembers, namedDocuments] using
      members_newLine (depth + 1) (hv.firstMember hblank hms.members_behind_comma)

end

theorem isText_render (v : Value) : IsText v.document (v.render.toList.map some) := by
  have hv := v.written_compact [] (by simp [Stops])
  refine ⟨[], ?_, rfl⟩
  rw [List.append_nil] at hv
  rwa [render, String.toList_ofList, hv.skipBlank_eq]

theorem isText_pretty (v : Value) : IsText v.document (v.pretty.toList.map some) := by
  have hv := v.written_indented 0 [] (by simp [Stops])
  refine ⟨[], ?_, rfl⟩
  rw [List.append_nil] at hv
  rwa [pretty, String.toList_ofList, hv.skipBlank_eq]

end Value

end ChunkedStorage.Json

namespace ChunkedStorage.Text

/-- The characters of a text are got back from its bytes. -/
theorem decode_encode (s : String) : decode (encode s) = s.toList.map some := by
  have hbytes : (encode s).toByteArray = s.toUTF8 := by
    ext1
    simp [encode, List.data_toByteArray]
  have hdecode : decode? (encode s) = some s := by
    rw [decode?, hbytes]
    exact dif_pos s.isValidUTF8
  rw [decode, hdecode]

end ChunkedStorage.Text
