import ChunkedStorage.Proofs.Disk.Entries
import ChunkedStorage.Proofs.Disk.Paths

/-!
# Directories that are made

A directory that was made can be opened (`leads_of_makeDirectories`), and no file is touched on the way
(`Extends.of_makeDirectories`).
-/

namespace ChunkedStorage.Disk

variable {d d' : Disk}

/-! ### Disks with more directories -/

/-- The second disk has some more directories, and is the same otherwise. -/
structure Extends (d d' : Disk) : Prop where
  contents : d'.contents = d.contents
  seekLimit : d'.seekLimit = d.seekLimit
  kept : ∀ p entry, d.entry? p = some entry → d'.entry? p = some entry
  files : ∀ p number, d'.entry? p = some (.file number) → d.entry? p = some (.file number)

namespace Extends

theorem refl (d : Disk) : d.Extends d := ⟨rfl, rfl, fun _ _ h => h, fun _ _ h => h⟩

theorem trans {d₁ d₂ d₃ : Disk} (h : d₁.Extends d₂) (h' : d₂.Extends d₃) : d₁.Extends d₃ where
  contents := h'.contents.trans h.contents
  seekLimit := h'.seekLimit.trans h.seekLimit
  kept := fun p entry hp => h'.kept p entry (h.kept p entry hp)
  files := fun p number hp => h.files p number (h'.files p number hp)

theorem sound (h : d.Extends d') (hd : d.Sound) : d'.Sound :=
  hd.of_files (Nat.le_of_eq (by rw [h.contents])) fun p _ hp => ⟨p, h.files p _ hp⟩

theorem preserves (h : d.Extends d') : d.Preserves d' where
  entries := h.kept
  contents := by
    intro p number _
    simp only [content, h.contents]
  seekLimit := h.seekLimit

theorem sameFiles (h : d.Extends d') : d.SameFiles d' where
  files := fun p number => ⟨h.files p number, h.kept p _⟩
  contents := h.preserves.contents

private theorem addDirectory {p : Path} (hp : p ≠ []) (hfree : d.entry? p = none) : d.Extends (d.addDirectory p) where
  contents := rfl
  seekLimit := rfl
  kept := by
    intro q entry hq
    rw [entry?_addDirectory d hp, if_neg]
    · exact hq
    · rintro rfl
      rw [hfree] at hq
      cases hq
  files := by
    intro q number hq
    rw [entry?_addDirectory d hp] at hq
    split at hq
    · cases hq
    · exact hq

end Extends

/-! ### One directory -/

theorem placeOf_mono (h : ∀ p, d.entry? p = some .directory → d'.entry? p = some .directory)
    {reversed : List String} {place : Place} (hplace : d.placeOf reversed = .ok place) :
    d'.placeOf reversed = .ok place := by
  unfold placeOf at hplace ⊢
  split
  · next hnil =>
    rw [hnil] at hplace
    exact hplace
  · next last above hcons =>
    rw [hcons] at hplace
    simp only at hplace
    cases henter : d.enter [] above.reverse with
    | error fault =>
      rw [henter] at hplace
      cases hplace
    | ok here =>
      rw [henter] at hplace
      rw [enter_mono h henter]
      exact hplace

private theorem makeDirectoryAt_ok {place : Place} (h : d.makeDirectoryAt place = .ok d') :
    d.Extends d' ∧ ∃ here, d'.directoryAt place = .ok here := by
  cases place with
  | directory path => cases h
  | name parent name slashed =>
    have hp : parent ++ [name] ≠ [] := by simp
    simp only [makeDirectoryAt, entryAt] at h
    by_cases hlong : nameLimit < name.utf8ByteSize
    · simp [hlong] at h
    · cases hentry : d.entry? (parent ++ [name]) with
      | some entry =>
        rw [hentry] at h
        simp [hlong] at h
      | none =>
        simp only [hlong, hentry, if_false, Except.ok.injEq] at h
        subst h
        refine ⟨.addDirectory hp hentry, parent ++ [name], ?_⟩
        simp [directoryAt, entryAt, hlong, entry?_addDirectory d hp]

private theorem makeDirectory_ok {reversed : List String} (h : d.makeDirectory reversed = (.ok (), d')) :
    d.Extends d' ∧ ∃ here, (d'.placeOf reversed).bind d'.directoryAt = .ok here := by
  unfold makeDirectory at h
  split at h
  · next made hmade =>
    cases h
    cases hplace : d.placeOf reversed with
    | error fault =>
      rw [hplace] at hmade
      cases hmade
    | ok place =>
      rw [hplace] at hmade
      obtain ⟨hextends, here, hhere⟩ := makeDirectoryAt_ok hmade
      refine ⟨hextends, here, ?_⟩
      rw [placeOf_mono (fun p hp => hextends.kept p _ hp) hplace]
      exact hhere
  · split at h
    · next here hhere =>
      cases h
      exact ⟨.refl d, here, hhere⟩
    · cases h

/-! ### Whole paths -/

private theorem extends_makeDirectory (d : Disk) (reversed : List String) :
    d.Extends (d.makeDirectory reversed).2 := by
  rcases hmake : d.makeDirectory reversed with ⟨fault | _, d'⟩
  · unfold makeDirectory at hmake
    split at hmake
    · cases hmake
    · split at hmake <;> cases hmake
      exact .refl d
  · exact (makeDirectory_ok hmake).1

private theorem extends_makeFirst (d : Disk) (paths : List (List String)) : d.Extends (d.makeFirst paths).2 := by
  induction paths generalizing d with
  | nil => exact .refl d
  | cons reversed above ih =>
    have hfirst := d.extends_makeDirectory reversed
    rcases hmake : d.makeDirectory reversed with ⟨fault | _, d₁⟩
    · rw [hmake] at hfirst
      by_cases hmissing : fault.isNotFound = true
      · have habove := ih d₁
        rcases hmade : d₁.makeFirst above with ⟨fault' | _, d₂⟩
        · rw [hmade] at habove
          simpa [makeFirst, hmake, hmissing, hmade] using hfirst.trans habove
        · rw [hmade] at habove
          simpa [makeFirst, hmake, hmissing, hmade] using
            (hfirst.trans habove).trans (d₂.extends_makeDirectory reversed)
      · simpa [makeFirst, hmake, hmissing] using hfirst
    · rw [hmake] at hfirst
      simpa [makeFirst, hmake] using hfirst

/-- No file is touched where directories are made. -/
theorem Extends.of_makeDirectories (d : Disk) (text : String) : d.Extends (d.makeDirectories text).2 := by
  unfold makeDirectories
  split
  · exact .refl d
  · split
    · exact .refl d
    · exact d.extends_makeFirst _

private theorem makeFirst_ok {reversed : List String} {above : List (List String)}
    (h : d.makeFirst (reversed :: above) = (.ok (), d')) :
    ∃ here, (d'.placeOf reversed).bind d'.directoryAt = .ok here := by
  unfold makeFirst at h
  rcases hmake : d.makeDirectory reversed with ⟨fault | _, d₁⟩
  · simp only [hmake] at h
    split at h
    · rcases habove : d₁.makeFirst above with ⟨fault' | _, d₂⟩
      · simp [habove] at h
      · simp only [habove] at h
        exact (makeDirectory_ok h).2
    · cases h
  · simp only [hmake, Prod.mk.injEq, true_and] at h
    subst h
    exact (makeDirectory_ok hmake).2

/-- A directory that was made can be opened. -/
theorem leads_of_makeDirectories {text : String} (h : d.makeDirectories text = (.ok (), d')) :
    ∃ here, d'.Leads text here := by
  unfold makeDirectories at h
  split at h
  · next hempty =>
    subst hempty
    exact ⟨[], leads_empty d'⟩
  · next hempty =>
    split at h
    · cases h
    · next names hnames =>
      obtain ⟨here, hhere⟩ := makeFirst_ok h
      rw [placeOf_directory_iff, List.reverse_reverse] at hhere
      exact ⟨here, by rw [Leads, if_neg hempty]; exact openDirectory_iff.2 ⟨names, hnames, hhere⟩⟩

end ChunkedStorage.Disk
