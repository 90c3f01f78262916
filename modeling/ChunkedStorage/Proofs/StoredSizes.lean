import ChunkedStorage.Config
import ChunkedStorage.Proofs.Json.Records
import ChunkedStorage.Proofs.Sizes

/-!
# Stored sizes

A size is written as a whole number of the largest unit that divides it, and it is read back from this text, from every
other way to spell the unit, and from the JSON string or number that stands for it (`Size.written_reads_back`).
-/

namespace ChunkedStorage.Size

open Json (Reads)

variable {n : Nat}

theorem reads (hn : n < wordLimit) : Reads Size.read (Size.value n).document n := by
  intro s rest h
  generalize hs : Json.skipBlank s = behind at h
  cases h
  rw [Size.read, hs, Json.found_quote]
  simp only [Size.parse_render hn]

theorem reads_number (hn : n < wordLimit) : Reads Size.read (Json.Value.number n).document n := by
  intro s rest h
  generalize hs : Json.skipBlank s = behind at h
  cases h with
  | number hcs hrest =>
    rw [Size.read, hs, Json.found_toDigits hn hrest]
    simp

/-- A size is written with the largest unit that divides it, and read back as a whole number of this unit, whichever of
its names is written in whatever case, and wherever blanks stand.  So it is from a JSON string of its text, and from
the number alone. -/
theorem written_reads_back (hn : n < wordLimit) :
    ((unitOf n).bytes ∣ n ∧ (n = 0 → unitOf n = .byte) ∧
      (n ≠ 0 → ∀ u : SizeUnit, u.bytes ∣ n → u.bytes ≤ (unitOf n).bytes) ∧
      render n = toString (n / (unitOf n).bytes) ++ (unitOf n).name) ∧
    (Whole (render n) n ∧ parse (render n) = .ok n) ∧
    (∀ before between name behind : String, name ≠ "" → String.ofList (upper name.toList) ∈ (unitOf n).names →
      (∀ c ∈ before.toList ++ between.toList ++ behind.toList, Text.isBlank c = true) →
        let text := before ++ toString (n / (unitOf n).bytes) ++ between ++ name ++ behind
        Whole text n ∧ parse text = .ok n) ∧
    Json.readAll Size.read ((Size.value n).render.toList.map some) = .ok n ∧
    Json.readAll Size.read ((Json.Value.number n).render.toList.map some) = .ok n := by
  have hwhole : n / (unitOf n).bytes * (unitOf n).bytes = n := Nat.div_mul_cancel (unitOf_dvd n)
  refine ⟨⟨unitOf_dvd n, ?_, fun hne u => bytes_le_unitOf hne, render_eq n⟩,
    ⟨whole_render hn, parse_render hn⟩, ?_, (reads hn).readAll (Json.Value.isText_render _),
    (reads_number hn).readAll (Json.Value.isText_render _)⟩
  · rintro rfl
    rfl
  · intro before between name behind hne hname hblank text
    simp only [List.forall_mem_append] at hblank
    obtain ⟨⟨hbefore, hbetween⟩, hbehind⟩ := hblank
    have hunits := whole_units hname hne (hwhole.symm ▸ hn) hbefore hbetween hbehind
    rw [hwhole] at hunits
    exact ⟨hunits, hunits.parse_eq⟩

/-- The largest size that is a number of kibibytes. -/
theorem written_reads_back_kibi :
    18446744073709550592 < wordLimit ∧ render 18446744073709550592 = "18014398509481983KiB" ∧
      parse " 18014398509481983\u00a0kb\n" = .ok 18446744073709550592 := by
  have hn : 18446744073709550592 < wordLimit := by decide
  obtain ⟨⟨-, -, -, hrender⟩, -, hspelled, -⟩ := written_reads_back hn
  obtain ⟨-, hread⟩ := hspelled " " "\u00a0" "kb" "\n" (by decide) (by decide)
    (List.all_eq_true.1 (by decide))
  exact ⟨hn, hrender, hread⟩

end ChunkedStorage.Size
