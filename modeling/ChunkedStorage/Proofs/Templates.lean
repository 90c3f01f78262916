import Mathlib.Data.List.Infix
import ChunkedStorage.Location

/-!
# URLs from templates

The placeholders cut a template into pieces (`piecesFrom`).  A URL joins the pieces with the reference
(`fillFrom_eq`), and the template itself joins them with the placeholder, which stands nowhere else
(`eq_joint_of_eq`).  Since there is at least one joint, the reference can be read off the URL
(`intercalate_injective`), so that no two references share one (`UrlTemplate.url_fills`).
-/

namespace ChunkedStorage

/-! ### Placeholders -/

/-- The placeholder stands somewhere in a text. -/
theorem hasPlaceholder_iff (text : List Char) : hasPlaceholder text = true ↔ placeholder <:+: text := by
  induction text with
  | nil => simp [hasPlaceholder, placeholder]
  | cons c rest ih => rw [hasPlaceholder, Bool.or_eq_true, ih, List.isPrefixOf_iff_prefix, List.infix_cons_iff]

/-- A placeholder does not overlap with another one: the first one of a text is there as a whole before the next one
starts. -/
private theorem placeholder_append_eq {between back rest : List Char}
    (h : placeholder ++ rest = between ++ placeholder ++ back) :
    between = [] ∧ rest = back ∨ ∃ more, between = placeholder ++ more ∧ rest = more ++ placeholder ++ back := by
  match between, h with
  | [], h => exact .inl ⟨rfl, by simpa [placeholder] using h⟩
  | [_], h | [_, _], h | [_, _, _], h | [_, _, _, _], h => simp [placeholder] at h
  | c₀ :: c₁ :: c₂ :: c₃ :: c₄ :: more, h =>
    refine .inr ⟨more, ?_⟩
    simp only [placeholder, List.cons_append, List.nil_append, List.cons.injEq] at h ⊢
    obtain ⟨h₀, h₁, h₂, h₃, h₄, hrest⟩ := h
    exact ⟨⟨h₀.symm, h₁.symm, h₂.symm, h₃.symm, h₄.symm, trivial⟩, hrest⟩

/-! ### Joined pieces -/

section

variable {ref first : List Char} {pieces others : List (List Char)}

private theorem prefix_intercalate (ref first : List Char) (others : List (List Char)) :
    first <+: ref.intercalate (first :: others) := by
  cases others with
  | nil => rw [List.intercalate_singleton]
  | cons =>
    rw [List.intercalate_cons_cons, List.append_assoc]
    exact List.prefix_append _ _

private theorem length_intercalate (ref first : List Char) (others : List (List Char)) :
    (ref.intercalate (first :: others)).length =
      others.length * ref.length + (first :: others).flatten.length := by
  induction others generalizing first with
  | nil => simp
  | cons second others ih =>
    simp only [List.intercalate_cons_cons, List.length_append, ih, List.length_cons, List.flatten_cons, Nat.succ_mul]
    ac_rfl

/-- A text that joins known pieces can be read off the result, if there is a joint. -/
theorem intercalate_injective (hjoint : 2 ≤ pieces.length) :
    Function.Injective fun ref : List Char => ref.intercalate pieces := by
  intro a b hsame
  match pieces, hjoint with
  | first :: second :: others, _ =>
    dsimp only at hsame
    -- the two are as long as each other, and stand behind the same piece
    have hlength : a.length = b.length := by
      have hboth := congrArg List.length hsame
      rw [length_intercalate, length_intercalate] at hboth
      exact Nat.eq_of_mul_eq_mul_left (Nat.succ_pos _) (Nat.add_right_cancel hboth)
    rw [List.intercalate_cons_cons, List.intercalate_cons_cons, List.append_assoc, List.append_assoc] at hsame
    exact List.append_inj_left (List.append_cancel_left hsame) hlength

/-- The text in front of a joint and the one behind it. -/
theorem intercalate_joint {i : Nat} (hpositive : 0 < i) (hi : i < pieces.length) :
    ref.intercalate pieces = ref.intercalate (pieces.take i) ++ ref ++ ref.intercalate (pieces.drop i) := by
  induction pieces generalizing i with
  | nil => simp at hi
  | cons first others ih =>
    have hothers : others ≠ [] := by
      rintro rfl
      simp at hi
      omega
    rw [List.intercalate_cons_of_ne_nil hothers]
    match i, hpositive with
    | 1, _ => simp
    | i + 2, _ =>
      rw [List.length_cons] at hi
      have hi : i + 1 < others.length := Nat.lt_of_succ_lt_succ hi
      rw [ih (Nat.succ_pos i) hi, List.take_succ_cons, List.drop_succ_cons, List.intercalate_cons_of_ne_nil]
      · simp only [List.append_assoc]
      · rw [Ne, List.take_eq_nil_iff, not_or]
        exact ⟨Nat.succ_ne_zero i, hothers⟩

/-- The placeholder stands at the joints of pieces that are without it, and nowhere else. -/
theorem eq_joint_of_eq {front back : List Char} (hpieces : ∀ piece ∈ pieces, ¬ placeholder <:+: piece)
    (h : placeholder.intercalate pieces = front ++ placeholder ++ back) :
    ∃ i, 0 < i ∧ i < pieces.length ∧ front = placeholder.intercalate (pieces.take i) ∧
      back = placeholder.intercalate (pieces.drop i) := by
  induction pieces generalizing front with
  | nil => simp [placeholder] at h
  | cons first others ih =>
    obtain ⟨hfirst, hothers⟩ := List.forall_mem_cons.1 hpieces
    cases others with
    | nil =>
      rw [List.intercalate_singleton] at h
      exact absurd ⟨front, back, h.symm⟩ hfirst
    | cons second others =>
      rw [List.intercalate_cons_cons, List.append_assoc, List.append_assoc, List.append_eq_append_iff] at h
      -- the place at the end of the first piece
      have hone (hback : back = placeholder.intercalate (second :: others)) (hfront : front = first) :
          ∃ i, 0 < i ∧ i < (first :: second :: others).length ∧
            front = placeholder.intercalate ((first :: second :: others).take i) ∧
            back = placeholder.intercalate ((first :: second :: others).drop i) :=
        ⟨1, Nat.one_pos, by simp, by simpa using hfront, hback⟩
      rcases h with ⟨between, rfl, hrest⟩ | ⟨between, rfl, hrest⟩
      · rw [← List.append_assoc] at hrest
        rcases placeholder_append_eq hrest with ⟨rfl, hback⟩ | ⟨more, rfl, hmore⟩
        · exact hone hback.symm (List.append_nil first)
        · obtain ⟨i, hpositive, hi, hfront, hback⟩ := ih hothers hmore
          match i, hpositive with
          | i + 1, _ =>
            refine ⟨i + 2, Nat.succ_pos _, Nat.succ_lt_succ hi, ?_, hback⟩
            rw [List.take_succ_cons, List.intercalate_cons_of_ne_nil, ← hfront, List.append_assoc]
            simp
      · rw [← List.append_assoc] at hrest
        rcases placeholder_append_eq hrest with ⟨rfl, hback⟩ | ⟨more, rfl, -⟩
        · exact hone hback (List.append_nil front).symm
        · exact absurd ⟨front, more, List.append_assoc _ _ _⟩ hfirst

end

/-! ### Pieces -/

/-- The pieces of a template between its placeholders; `skip` characters belong to the last one. -/
def piecesFrom : (skip : Nat) → List Char → List (List Char)
  | _, [] => [[]]
  | skip + 1, _ :: rest => piecesFrom skip rest
  | 0, c :: rest =>
    if placeholder.isPrefixOf (c :: rest) then [] :: piecesFrom (placeholder.length - 1) rest
    else (piecesFrom 0 rest).modifyHead (c :: ·)

theorem piecesFrom_ne_nil (skip : Nat) (text : List Char) : piecesFrom skip text ≠ [] := by
  fun_induction piecesFrom skip text with
  | case1 | case3 => exact List.cons_ne_nil _ _
  | case2 _ _ _ ih => exact ih
  | case4 c rest _ ih =>
    obtain ⟨first, others, hpieces⟩ := List.exists_cons_of_ne_nil ih
    simp [hpieces]

/-- What fills the places of the placeholders joins the pieces. -/
theorem fillFrom_eq (ref : List Char) (skip : Nat) (text : List Char) :
    fillFrom ref skip text = ref.intercalate (piecesFrom skip text) := by
  fun_induction piecesFrom skip text with
  | case1 => rw [fillFrom, List.intercalate_singleton]
  | case2 _ _ _ ih => rw [fillFrom, ih]
  | case3 c rest hplace ih =>
    rw [fillFrom, if_pos hplace, ih, List.intercalate_cons_of_ne_nil (piecesFrom_ne_nil _ _)]
    rfl
  | case4 c rest hplace ih =>
    obtain ⟨first, others, hpieces⟩ := List.exists_cons_of_ne_nil (piecesFrom_ne_nil 0 rest)
    rw [fillFrom, if_neg hplace, ih, hpieces, List.modifyHead_cons, List.intercalate_cons_cons_left]

/-- A template that is filled with the placeholder stays as it is. -/
theorem fillFrom_placeholder (skip : Nat) (text : List Char) : fillFrom placeholder skip text = text.drop skip := by
  fun_induction fillFrom placeholder skip text with
  | case1 => rw [List.drop_nil]
  | case2 _ _ _ ih => rw [ih, List.drop_succ_cons]
  | case3 c rest hplace ih =>
    have hwhole := List.prefix_iff_eq_append.1 (List.isPrefixOf_iff_prefix.1 hplace)
    rw [ih]
    exact hwhole
  | case4 _ _ _ ih => rw [ih, List.drop_zero, List.drop_zero]

theorem intercalate_piecesFrom (skip : Nat) (text : List Char) :
    placeholder.intercalate (piecesFrom skip text) = text.drop skip := by
  rw [← fillFrom_eq, fillFrom_placeholder]

/-- The placeholder stands in no piece. -/
theorem not_infix_of_mem_piecesFrom {skip : Nat} {text piece : List Char} (h : piece ∈ piecesFrom skip text) :
    ¬ placeholder <:+: piece := by
  fun_induction piecesFrom skip text generalizing piece with
  | case1 =>
    rw [List.mem_singleton.1 h]
    simp [placeholder]
  | case2 _ _ _ ih => exact ih h
  | case3 _ _ _ ih =>
    rcases List.mem_cons.1 h with rfl | hmem
    · simp [placeholder]
    · exact ih hmem
  | case4 c rest hplace ih =>
    obtain ⟨first, others, hpieces⟩ := List.exists_cons_of_ne_nil (piecesFrom_ne_nil 0 rest)
    rw [hpieces] at h ih
    rcases List.mem_cons.1 h with rfl | hmem
    · -- the piece starts like the text, where there is no placeholder
      have hfirst : first <+: rest := by
        have hjoined := intercalate_piecesFrom 0 rest
        rw [hpieces, List.drop_zero] at hjoined
        rw [← hjoined]
        exact prefix_intercalate _ _ _
      rw [List.infix_cons_iff, not_or]
      refine ⟨fun hstarts => hplace ?_, ih List.mem_cons_self⟩
      exact List.isPrefixOf_iff_prefix.2 (hstarts.trans (List.cons_prefix_cons.2 ⟨rfl, hfirst⟩))
    · exact ih (List.mem_cons_of_mem _ hmem)

theorem two_le_length_piecesFrom {text : List Char} (h : placeholder <:+: text) :
    2 ≤ (piecesFrom 0 text).length := by
  obtain ⟨front, back, htext⟩ := h
  have hjoined := intercalate_piecesFrom 0 text
  rw [List.drop_zero, ← htext] at hjoined
  obtain ⟨i, hpositive, hi, -⟩ := eq_joint_of_eq (fun _ => not_infix_of_mem_piecesFrom) hjoined
  rw [← htext]
  omega

/-! ### Templates -/

namespace UrlTemplate

variable {template : String} {ttl? : Option Duration} {t : UrlTemplate} {now : Timestamp} {location : AccessLocation}

theorem create_eq_ok_iff :
    create template ttl? = .ok t ↔ t.template = template.toList ∧ t.ttl? = ttl? := by
  obtain ⟨text, ttl, hplace⟩ := t
  unfold create
  split
  · simp only [Except.ok.injEq, mk.injEq, eq_comm]
  · next hnone =>
    simp only [reduceCtorEq, false_iff, not_and]
    rintro rfl
    exact absurd hplace hnone

/-- A template locates everything at its URL, unless the location would expire after the last point in time. -/
theorem resolve_eq_ok_iff {ref : String} :
    t.resolve ref now = .ok location ↔
      location.url = t.url ref ∧ location.expiry? = t.ttl?.bind now.add? ∧
        ∀ ttl, t.ttl? = some ttl → now.add? ttl ≠ none := by
  obtain ⟨url, expiry?⟩ := location
  cases httl : t.ttl? with
  | none => simp [resolve, httl, eq_comm]
  | some ttl => cases hexpiry : now.add? ttl <;> simp [resolve, httl, hexpiry, eq_comm]

/-- A template is accepted exactly if the placeholder stands in it.  A URL puts the reference in all its places at once:
the template is made of fixed pieces joined by the placeholder, which stands in none of them, and the URL is made of the
same pieces joined by the reference.  So different references have different URLs, whatever is in them, at any two
times. -/
theorem url_fills (template : String) (ttl? : Option Duration) :
    ((∃ t, create template ttl? = .ok t) ↔ placeholder <:+: template.toList) ∧
    ∀ t, create template ttl? = .ok t →
      (∃ pieces : List (List Char),
        (∀ piece ∈ pieces, ¬ placeholder <:+: piece) ∧
        (∀ front back, template.toList = front ++ placeholder ++ back ↔
          ∃ i, 0 < i ∧ i < pieces.length ∧ front = placeholder.intercalate (pieces.take i) ∧
            back = placeholder.intercalate (pieces.drop i)) ∧
        placeholder.intercalate pieces = template.toList ∧
        ∀ ref : String, (t.url ref).toList = ref.toList.intercalate pieces) ∧
      (∀ ref now, (∃ location, t.resolve ref now = .ok location) ↔ ∀ ttl, ttl? = some ttl → now.add? ttl ≠ none) ∧
      (∀ ref now location, t.resolve ref now = .ok location → location.url = t.url ref) ∧
      ∀ ref ref' now now' location location', ref ≠ ref' → t.resolve ref now = .ok location →
        t.resolve ref' now' = .ok location' → location.url ≠ location'.url := by
  constructor
  · rw [← hasPlaceholder_iff]
    constructor
    · rintro ⟨t, hcreate⟩
      rw [← (create_eq_ok_iff.1 hcreate).1]
      exact t.hasPlaceholder_template
    · exact fun hplace => ⟨⟨template.toList, ttl?, hplace⟩, create_eq_ok_iff.2 ⟨rfl, rfl⟩⟩
  · intro t hcreate
    obtain ⟨htemplate, rfl⟩ := create_eq_ok_iff.1 hcreate
    have hurl (ref : String) : (t.url ref).toList = ref.toList.intercalate (piecesFrom 0 template.toList) := by
      rw [url, String.toList_ofList, htemplate, fillFrom_eq]
    have hjoined := intercalate_piecesFrom 0 template.toList
    rw [List.drop_zero] at hjoined
    refine ⟨⟨piecesFrom 0 template.toList, fun _ => not_infix_of_mem_piecesFrom, ?_, hjoined, hurl⟩, ?_, ?_, ?_⟩
    · intro front back
      constructor
      · intro hplace
        exact eq_joint_of_eq (fun _ => not_infix_of_mem_piecesFrom) (hjoined.trans hplace)
      · rintro ⟨i, hpositive, hi, rfl, rfl⟩
        rw [← intercalate_joint hpositive hi, hjoined]
    · intro ref now
      constructor
      · rintro ⟨location, hresolve⟩
        exact (resolve_eq_ok_iff.1 hresolve).2.2
      · exact fun hexpiry => ⟨⟨t.url ref, t.ttl?.bind now.add?⟩, resolve_eq_ok_iff.2 ⟨rfl, rfl, hexpiry⟩⟩
    · exact fun ref now location hresolve => (resolve_eq_ok_iff.1 hresolve).1
    · intro ref ref' now now' location location' hother hresolve hresolve' hsame
      rw [(resolve_eq_ok_iff.1 hresolve).1, (resolve_eq_ok_iff.1 hresolve').1, ← String.toList_inj, hurl, hurl] at hsame
      have hplace := (hasPlaceholder_iff _).1 t.hasPlaceholder_template
      rw [htemplate] at hplace
      exact hother (String.toList_inj.1 (intercalate_injective (two_le_length_piecesFrom hplace) hsame))

/-- The placeholder as a reference is put in both places, and is not filled again. -/
theorem url_fills_twice :
    ∃ t, create "\x7bref\x7d/\x7bref\x7d" none = .ok t ∧ t.url "\x7bref\x7d" = "\x7bref\x7d/\x7bref\x7d" ∧
      t.url "\x7bref\x7d" ≠ t.url "a" := by
  obtain ⟨haccepted, hurls⟩ := url_fills "\x7bref\x7d/\x7bref\x7d" none
  obtain ⟨t, hcreate⟩ := haccepted.2 ⟨[], ['/', '\x7b', 'r', 'e', 'f', '\x7d'], rfl⟩
  obtain ⟨-, hresolves, hurl, hapart⟩ := hurls t hcreate
  obtain ⟨location, hresolve⟩ := (hresolves "\x7bref\x7d" ⟨0⟩).2 (by simp)
  obtain ⟨location', hresolve'⟩ := (hresolves "a" ⟨0⟩).2 (by simp)
  refine ⟨t, hcreate, ?_, ?_⟩
  · obtain ⟨htemplate, -⟩ := create_eq_ok_iff.1 hcreate
    rw [url, htemplate]
    rfl
  · rw [← hurl _ _ _ hresolve, ← hurl _ _ _ hresolve']
    exact hapart _ _ _ _ _ _ (by decide) hresolve hresolve'

end UrlTemplate

end ChunkedStorage
