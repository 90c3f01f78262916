import ChunkedStorage.Proofs.Decimals
import ChunkedStorage.Text.Blank
import Mathlib.Data.List.Basic
import Mathlib.Data.List.TakeWhile

/-!
# Blanks around a text

What is left of a text without the blanks at its two ends (`Text.trim_append`, `Text.trim_eq_iff`).
-/

namespace ChunkedStorage.Text

variable {c : Char}

theorem isDigit_of_isBlank (hc : isBlank c = true) : isDigit c = false := by
  rw [Bool.eq_false_iff]
  intro hdigit
  have hall : ∀ c ∈ ['0', '1', '2', '3', '4', '5', '6', '7', '8', '9'], isBlank c = false := by
    simp [isBlank]
  rw [hall c (digit_cases hdigit)] at hc
  cases hc

theorem isBlank_of_isDigit (hc : isDigit c = true) : isBlank c = false := by
  by_contra hblank
  rw [isDigit_of_isBlank (by simpa using hblank)] at hc
  cases hc

/-- Nothing is taken from a text whose first character is not wanted. -/
theorem stops_at_head {p : Char → Bool} {s : List Char} (hs : ∀ c, s.head? = some c → p c = false) :
    s.takeWhile p = [] ∧ s.dropWhile p = s := by
  cases s with
  | nil => exact ⟨rfl, rfl⟩
  | cons c s =>
    have hc : ¬(p c = true) := by simp [hs c rfl]
    exact ⟨List.takeWhile_cons_of_neg hc, List.dropWhile_cons_of_neg hc⟩

/-- The wanted characters at the front are taken, up to the first one that is not wanted. -/
theorem span_append {p : Char → Bool} {front behind : List Char} (hfront : ∀ c ∈ front, p c = true)
    (hbehind : ∀ c, behind.head? = some c → p c = false) :
    (front ++ behind).takeWhile p = front ∧ (front ++ behind).dropWhile p = behind := by
  obtain ⟨htake, hdrop⟩ := stops_at_head hbehind
  rw [List.takeWhile_append_of_pos hfront, List.dropWhile_append_of_pos hfront, htake, hdrop, List.append_nil]
  exact ⟨rfl, rfl⟩

/-- Blanks at the two ends go away, and nothing else. -/
theorem trim_append {before body behind : List Char} (hbefore : ∀ c ∈ before, isBlank c = true)
    (hfirst : ∀ c, body.head? = some c → isBlank c = false) (hlast : ∀ c, body.getLast? = some c → isBlank c = false)
    (hbehind : ∀ c ∈ behind, isBlank c = true) : trim (before ++ (body ++ behind)) = body := by
  have hright : trimRight (body ++ behind) = body := by
    rw [trimRight, List.reverse_append, List.dropWhile_append_of_pos (by simpa using hbehind),
      (stops_at_head (by simpa using hlast)).2, List.reverse_reverse]
  rw [trim, trimLeft, List.dropWhile_append_of_pos hbefore]
  cases body with
  | nil =>
    have hnone : behind.dropWhile isBlank = [] := List.dropWhile_eq_nil_iff.2 hbehind
    rw [List.nil_append, hnone]
    rfl
  | cons c body => rwa [(stops_at_head (by simpa using hfirst)).2]

/-- The second text is the first one without the blanks at its two ends. -/
structure Trims (s t : List Char) : Prop where
  parts : ∃ before behind, s = before ++ (t ++ behind) ∧ (∀ c ∈ before, isBlank c = true) ∧
    ∀ c ∈ behind, isBlank c = true
  first : ∀ c, t.head? = some c → isBlank c = false
  last : ∀ c, t.getLast? = some c → isBlank c = false

theorem Trims.subset {s t : List Char} (h : Trims s t) : t ⊆ s := by
  obtain ⟨before, behind, rfl, -⟩ := h.parts
  intro c hc
  simp [hc]

theorem trims_self {s : List Char} (hs : ∀ c ∈ s, isBlank c = false) : Trims s s where
  parts := ⟨[], [], by simp⟩
  first c hc := hs c (List.mem_of_head? hc)
  last c hc := hs c (List.mem_of_getLast? hc)

theorem trims_trim (s : List Char) : Trims s (trim s) := by
  have hleft : s = s.takeWhile isBlank ++ trimLeft s := List.takeWhile_append_dropWhile.symm
  have hright : trimLeft s = trim s ++ ((trimLeft s).reverse.takeWhile isBlank).reverse := by
    have hsplit := List.takeWhile_append_dropWhile (p := isBlank) (l := (trimLeft s).reverse)
    have hback := congrArg List.reverse hsplit
    rwa [List.reverse_append, List.reverse_reverse, eq_comm] at hback
  refine ⟨⟨_, _, hright ▸ hleft, fun c => List.mem_takeWhile_imp, fun c hc => ?_⟩, fun c hc => ?_, fun c hc => ?_⟩
  · exact List.mem_takeWhile_imp (List.mem_reverse.1 hc)
  · have hhead : (trimLeft s).head? = some c := by
      rw [hright]
      simp [hc]
    have hstop := List.head?_dropWhile_not isBlank s
    rw [show s.dropWhile isBlank = trimLeft s from rfl, hhead] at hstop
    simpa using hstop
  · have hstop := List.head?_dropWhile_not isBlank (trimLeft s).reverse
    rw [trim, trimRight, List.getLast?_reverse] at hc
    rw [hc] at hstop
    simpa using hstop

theorem trim_eq_iff {s t : List Char} : trim s = t ↔ Trims s t := by
  constructor
  · rintro rfl
    exact trims_trim s
  · rintro ⟨⟨before, behind, rfl, hbefore, hbehind⟩, hfirst, hlast⟩
    exact trim_append hbefore hfirst hlast hbehind

end ChunkedStorage.Text
