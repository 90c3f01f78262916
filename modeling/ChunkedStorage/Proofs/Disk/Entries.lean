import ChunkedStorage.Disk
import ChunkedStorage.Proofs.Tables

/-!
# Entries and contents after a change

What stands under a path after an entry is added, removed or moved, and what an open file holds after something is
written to a file.  On a sound disk (`Sound`) a new file shares its content with no other.
-/

namespace ChunkedStorage.Disk

variable {d : Disk} {p q : Path}

/-! ### Entries -/

theorem entry?_of_ne_nil (d : Disk) (hp : p ≠ []) : d.entry? p = d.entries.lookup p := if_neg hp

private theorem entry?_cons (d : Disk) (contents : List Bytes) (entry : Entry) (hp : p ≠ []) (q : Path) :
    entry? { d with entries := (p, entry) :: d.entries, contents } q = if q = p then some entry else d.entry? q := by
  by_cases hq : q = []
  · subst hq
    simp [Disk.entry?, hp.symm]
  · simp only [entry?_of_ne_nil _ hq, Tables.lookup_cons_eq]

theorem entry?_addFile (d : Disk) (hp : p ≠ []) (q : Path) :
    entry? (d.addFile p).2 q = if q = p then some (.file d.contents.length) else d.entry? q :=
  entry?_cons d _ _ hp q

theorem entry?_addEntry (d : Disk) (entry : Entry) (hp : p ≠ []) (q : Path) :
    entry? { d with entries := (p, entry) :: d.entries } q = if q = p then some entry else d.entry? q :=
  entry?_cons d d.contents entry hp q

theorem entry?_addDirectory (d : Disk) (hp : p ≠ []) (q : Path) :
    entry? (d.addDirectory p) q = if q = p then some .directory else d.entry? q :=
  entry?_addEntry d .directory hp q

theorem entry?_unlink (d : Disk) (hp : p ≠ []) (q : Path) :
    entry? (d.unlink p) q = if q = p then none else d.entry? q := by
  by_cases hq : q = []
  · subst hq
    simp [Disk.entry?, hp.symm]
  · simp only [entry?_of_ne_nil _ hq]
    exact Tables.lookup_filter_ne d.entries p q

/-! ### Contents -/

theorem content_setContent (d : Disk) {number : Nat} (h : number < d.contents.length) (bytes : Bytes) (n : Nat) :
    (d.setContent number bytes).content n = if n = number then bytes else d.content n := by
  simp only [content, setContent, List.getD_eq_getElem?_getD, List.getElem?_set]
  by_cases hn : number = n
  · subst hn
    simp [h]
  · simp [hn, Ne.symm hn]

@[simp] theorem length_contents_setContent (d : Disk) (number : Nat) (bytes : Bytes) :
    (d.setContent number bytes).contents.length = d.contents.length := by
  simp [setContent]

@[simp] theorem length_contents_addFile (d : Disk) (p : Path) :
    (d.addFile p).2.contents.length = d.contents.length + 1 := by
  simp [addFile]

theorem content_addFile (d : Disk) (p : Path) (n : Nat) : (d.addFile p).2.content n = d.content n := by
  simp only [content, addFile, List.getD_eq_getElem?_getD]
  by_cases hn : n < d.contents.length
  · rw [List.getElem?_append_left hn]
  · rw [List.getElem?_append_right (Nat.le_of_not_lt hn), List.getElem?_eq_none (Nat.le_of_not_lt hn)]
    cases n - d.contents.length <;> rfl

/-! ### Sound disks -/

/-- Every file that is entered has a content of its own. -/
def Sound (d : Disk) : Prop := ∀ p number, d.entry? p = some (.file number) → number < d.contents.length

theorem sound_of_entries (h : ∀ e ∈ d.entries, e.2 = .directory ∨ ∃ number < d.contents.length, e.2 = .file number) :
    d.Sound := by
  intro p number hp
  by_cases hroot : p = []
  · simp [Disk.entry?, hroot] at hp
  · rw [entry?_of_ne_nil d hroot, List.lookup_eq_some_iff] at hp
    obtain ⟨front, back, hentries, -⟩ := hp
    rcases h (p, .file number) (by simp [hentries]) with hdirectory | ⟨n, hn, hfile⟩
    · cases hdirectory
    · cases hfile
      exact hn

theorem sound_empty : empty.Sound := sound_of_entries (by decide)

namespace Sound

theorem addFile (h : d.Sound) (hp : p ≠ []) : (d.addFile p).2.Sound := by
  intro q number hq
  rw [entry?_addFile d hp] at hq
  rw [length_contents_addFile]
  split at hq
  · cases hq
    exact Nat.lt_succ_self _
  · exact Nat.lt_succ_of_lt (h q number hq)

theorem setContent (h : d.Sound) (number : Nat) (bytes : Bytes) : (d.setContent number bytes).Sound := by
  intro q n hq
  rw [length_contents_setContent]
  exact h q n hq

/-- Fewer files leave a disk sound. -/
theorem of_files {d' : Disk} (h : d.Sound) (hlength : d.contents.length ≤ d'.contents.length)
    (hfiles : ∀ p number, d'.entry? p = some (.file number) → ∃ q, d.entry? q = some (.file number)) : d'.Sound := by
  intro p number hp
  obtain ⟨q, hq⟩ := hfiles p number hp
  exact Nat.lt_of_lt_of_le (h q number hq) hlength

end Sound

/-! ### Disks that lose nothing -/

/-- Every entry of the first disk is one of the second, and what is in its files stays in them. -/
structure Preserves (d d' : Disk) : Prop where
  entries : ∀ p entry, d.entry? p = some entry → d'.entry? p = some entry
  contents : ∀ p number, d.entry? p = some (.file number) → d'.content number = d.content number
  seekLimit : d'.seekLimit = d.seekLimit

namespace Preserves

theorem refl (d : Disk) : d.Preserves d := ⟨fun _ _ h => h, fun _ _ _ => rfl, rfl⟩

theorem trans {d₁ d₂ d₃ : Disk} (h : d₁.Preserves d₂) (h' : d₂.Preserves d₃) : d₁.Preserves d₃ where
  entries := fun p entry hp => h'.entries p entry (h.entries p entry hp)
  contents := by
    intro p number hp
    rw [h'.contents p number (h.entries p _ hp), h.contents p number hp]
  seekLimit := h'.seekLimit.trans h.seekLimit

theorem lastPosition {d d' : Disk} (h : d.Preserves d') : d'.lastPosition = d.lastPosition :=
  lastPosition_congr h.seekLimit

end Preserves

/-! ### New files -/

/-- The disk with a file under a free path that holds the given bytes. -/
def withFile (d : Disk) (p : Path) (bytes : Bytes) : Disk := (d.addFile p).2.append d.contents.length bytes

theorem entry?_withFile (d : Disk) (hp : p ≠ []) (bytes : Bytes) (q : Path) :
    entry? (d.withFile p bytes) q = if q = p then some (.file d.contents.length) else d.entry? q :=
  entry?_addFile d hp q

theorem content_withFile (d : Disk) (p : Path) (bytes : Bytes) (n : Nat) :
    (d.withFile p bytes).content n = if n = d.contents.length then bytes else d.content n := by
  have hnew : d.content d.contents.length = [] := by
    simp [content]
  have hnumber : d.contents.length < (d.addFile p).2.contents.length := by
    rw [length_contents_addFile]
    exact Nat.lt_succ_self _
  rw [withFile, append, content_setContent _ hnumber, content_addFile, content_addFile, hnew, List.nil_append]

theorem length_contents_withFile (d : Disk) (p : Path) (bytes : Bytes) :
    (d.withFile p bytes).contents.length = d.contents.length + 1 := by
  rw [withFile, append, length_contents_setContent, length_contents_addFile]

theorem Sound.withFile (h : d.Sound) (hp : p ≠ []) (bytes : Bytes) : (d.withFile p bytes).Sound :=
  (h.addFile hp).setContent _ _

/-- A file is new, so that no other one changes. -/
theorem Sound.content_withFile (h : d.Sound) (p : Path) (bytes : Bytes) {q : Path} {number : Nat}
    (hq : d.entry? q = some (.file number)) : (d.withFile p bytes).content number = d.content number := by
  rw [Disk.content_withFile, if_neg (Nat.ne_of_lt (h q number hq))]

theorem Preserves.withFile (h : d.Sound) (hp : p ≠ []) (hfree : d.entry? p = none) (bytes : Bytes) :
    d.Preserves (d.withFile p bytes) where
  entries := by
    intro q entry hq
    rw [entry?_withFile d hp, if_neg]
    · exact hq
    · rintro rfl
      rw [hfree] at hq
      cases hq
  contents := fun _ _ hq => h.content_withFile p bytes hq
  seekLimit := rfl

/-! ### Disks with the same files -/

/-- The same paths lead to files, and every file has the bytes that it had. -/
structure SameFiles (d d' : Disk) : Prop where
  files : ∀ p number, d'.entry? p = some (.file number) ↔ d.entry? p = some (.file number)
  contents : ∀ p number, d.entry? p = some (.file number) → d'.content number = d.content number

theorem SameFiles.trans {d₁ d₂ d₃ : Disk} (h : d₁.SameFiles d₂) (h' : d₂.SameFiles d₃) : d₁.SameFiles d₃ where
  files := fun p number => (h'.files p number).trans (h.files p number)
  contents := by
    intro p number hp
    rw [h'.contents p number ((h.files p number).2 hp), h.contents p number hp]

/-- Nothing is entered anew, nothing is missing, and every file has the bytes that it had. -/
structure Same (d d' : Disk) : Prop where
  entries : ∀ p, d'.entry? p = d.entry? p
  contents : ∀ p number, d.entry? p = some (.file number) → d'.content number = d.content number
  length : d.contents.length ≤ d'.contents.length
  seekLimit : d'.seekLimit = d.seekLimit

namespace Same

variable {d' : Disk}

theorem refl (d : Disk) : d.Same d := ⟨fun _ => rfl, fun _ _ _ => rfl, Nat.le_refl _, rfl⟩

theorem preserves (h : d.Same d') : d.Preserves d' where
  entries := fun p _ hp => (h.entries p).trans hp
  contents := h.contents
  seekLimit := h.seekLimit

theorem sameFiles (h : d.Same d') : d.SameFiles d' where
  files := fun p _ => by rw [h.entries p]
  contents := h.contents

theorem sound (h : d.Same d') (hd : d.Sound) : d'.Sound :=
  hd.of_files h.length fun p _ hp => ⟨p, (h.entries p).symm.trans hp⟩

/-- A file that is removed as soon as it was written leaves no trace. -/
theorem unlink_withFile (hd : d.Sound) (hp : p ≠ []) (hfree : d.entry? p = none) (bytes : Bytes) :
    d.Same ((d.withFile p bytes).unlink p) where
  entries := by
    intro q
    rw [entry?_unlink _ hp, entry?_withFile d hp]
    by_cases hq : q = p
    · rw [if_pos hq, hq, hfree]
    · rw [if_neg hq, if_neg hq]
  contents := fun _ _ hq => hd.content_withFile p bytes hq
  length := Nat.le_of_lt (Nat.lt_of_lt_of_eq (Nat.lt_succ_self _) (d.length_contents_withFile p bytes).symm)
  seekLimit := rfl

end Same

/-- One file is entered anew, with the given bytes; everything else is as it was. -/
structure Gains (d d' : Disk) (p : Path) (bytes : Bytes) : Prop where
  free : d.entry? p = none
  gained : ∃ number < d'.contents.length, d'.content number = bytes ∧
    ∀ q, d'.entry? q = if q = p then some (.file number) else d.entry? q
  contents : ∀ q number, d.entry? q = some (.file number) → d'.content number = d.content number
  length : d.contents.length ≤ d'.contents.length
  seekLimit : d'.seekLimit = d.seekLimit

namespace Gains

variable {d' : Disk} {bytes : Bytes}

/-- What is entered is the new file, or was so before. -/
theorem entry?_cases (h : d.Gains d' p bytes) {entry : Entry} (hq : d'.entry? q = some entry) :
    (q = p ∧ ∃ number < d'.contents.length, entry = .file number ∧ d'.content number = bytes) ∨
      d.entry? q = some entry := by
  obtain ⟨number, hnumber, hcontent, hentries⟩ := h.gained
  rw [hentries] at hq
  split at hq
  · next htarget =>
    cases hq
    exact .inl ⟨htarget, number, hnumber, rfl, hcontent⟩
  · exact .inr hq

theorem preserves (h : d.Gains d' p bytes) : d.Preserves d' where
  entries := by
    intro q entry hq
    obtain ⟨number, -, -, hentries⟩ := h.gained
    rw [hentries, if_neg]
    · exact hq
    · rintro rfl
      rw [h.free] at hq
      cases hq
  contents := h.contents
  seekLimit := h.seekLimit

theorem sound (h : d.Gains d' p bytes) (hd : d.Sound) : d'.Sound := by
  intro q n hq
  rcases h.entry?_cases hq with ⟨-, number, hnumber, hfile, -⟩ | hold
  · cases hfile
    exact hnumber
  · exact Nat.lt_of_lt_of_le (hd q n hold) h.length

end Gains

end ChunkedStorage.Disk
