import ChunkedStorage.Proofs.Disk.Files

/-!
# Files that are written

A file that is created is found under its path and has no bytes (`Creates`), and what is then written to it is read
back (`contentAt_writeFile`).  Other files are found as before, with the bytes that they had
(`Creates.openEntry_distinct`).
-/

namespace ChunkedStorage.Disk

variable {d d' : Disk} {text other name : String} {parent : Path} {number : Nat}

/-! ### Places of paths -/

/-- A path leads to a place as long as no directory is removed. -/
theorem locate_mono (h : ∀ p, d.entry? p = some .directory → d'.entry? p = some .directory) {place : Place}
    (hplace : d.locate text = .ok place) : d'.locate text = .ok place := by
  unfold locate at hplace ⊢
  cases hnames : namesOf text with
  | error fault =>
    rw [hnames] at hplace
    cases hplace
  | ok names =>
    rw [hnames] at hplace
    exact placeOf_mono h hplace

/-- The two paths do not name the same entry. -/
def NamesApart (d : Disk) (text other : String) : Prop :=
  ∀ parent name slashed slashed', d.locate text = .ok (.name parent name slashed) →
    d.locate other ≠ .ok (.name parent name slashed')

/-- The two paths stand for different files: they do not name the same entry, nor one file by two names. -/
structure Distinct (d : Disk) (text other : String) : Prop where
  names : d.NamesApart text other
  files : ∀ number, d.openEntry text = .ok (.file number) → d.openEntry other ≠ .ok (.file number)

/-! ### Disks with the same entries -/

section

variable (h : ∀ p, d'.entry? p = d.entry? p)
include h

private theorem enter_congr (here : Path) (names : List String) : d'.enter here names = d.enter here names := by
  induction names generalizing here with
  | nil => rfl
  | cons name rest ih => simp only [enter, h, ih]

private theorem entryAt_congr (place : Place) : d'.entryAt place = d.entryAt place := by
  cases place with
  | directory => rfl
  | name parent name slashed => simp only [entryAt, h]

theorem openEntry_congr (text : String) : d'.openEntry text = d.openEntry text := by
  have hplaceOf (reversed : List String) : d'.placeOf reversed = d.placeOf reversed := by
    simp only [placeOf, enter_congr h]
  have hentryAt : d'.entryAt = d.entryAt := funext (entryAt_congr h)
  simp only [openEntry, locate, hplaceOf, hentryAt]

end

theorem openEntry_setContent (d : Disk) (number : Nat) (bytes : Bytes) (text : String) :
    (d.setContent number bytes).openEntry text = d.openEntry text := by
  refine openEntry_congr ?_ text
  exact fun _ => rfl

/-- What is found under a path is the entry of its place. -/
theorem openEntry_name {entry : Entry} {slashed : Bool} (h : d.openEntry text = .ok entry)
    (hplace : d.locate text = .ok (.name parent name slashed)) : d.entry? (parent ++ [name]) = some entry := by
  simp only [openEntry, hplace, Except.bind, entryAt] at h
  by_cases hlong : nameLimit < name.utf8ByteSize
  · simp [hlong] at h
  · cases hentry : d.entry? (parent ++ [name]) with
    | none => simp [hlong, hentry] at h
    | some found =>
      cases found with
      | directory => simpa [hlong, hentry] using h
      | file number =>
        cases slashed with
        | false => simpa [hlong, hentry] using h
        | true => simp [hlong, hentry] at h

/-- A place without an entry is free. -/
theorem entry?_of_entryAt {slashed : Bool} (h : d.entryAt (.name parent name slashed) = .ok none) :
    d.entry? (parent ++ [name]) = none := by
  by_cases hlong : nameLimit < name.utf8ByteSize
  · simp [entryAt, hlong] at h
  · rcases hentry : d.entry? (parent ++ [name]) with _ | _ | number
    · rfl
    · simp [entryAt, hlong, hentry] at h
    · cases slashed <;> simp [entryAt, hlong, hentry] at h

/-! ### Creating -/

/-- The file under a path is created: it is there afterwards and has no bytes, whether or not it was there before.
Everything else is as it was. -/
structure Creates (d : Disk) (parent : Path) (name : String) (number : Nat) (d' : Disk) : Prop where
  short : name.utf8ByteSize ≤ nameLimit
  before : d.entry? (parent ++ [name]) = none ∧ number = d.contents.length ∨
    d.entry? (parent ++ [name]) = some (.file number)
  entries : ∀ q, d'.entry? q = if q = parent ++ [name] then some (.file number) else d.entry? q
  contents : ∀ n, d'.content n = if n = number then [] else d.content n
  number_lt : number < d'.contents.length
  length : d.contents.length ≤ d'.contents.length
  seekLimit : d'.seekLimit = d.seekLimit

theorem creates_of_create (hsound : d.Sound) (h : d.create text = .ok (number, d')) :
    ∃ parent name, d.locate text = .ok (.name parent name false) ∧ d.Creates parent name number d' := by
  unfold create openForWriting at h
  split at h
  · cases h
  · cases h
  · cases h
  · next parent name hplace =>
    refine ⟨parent, name, hplace, ?_⟩
    have hnil : parent ++ [name] ≠ [] := by simp
    by_cases hlong : nameLimit < name.utf8ByteSize
    · simp [entryAt, hlong, Except.map] at h
    · rcases hentry : d.entry? (parent ++ [name]) with _ | _ | n
      · simp only [entryAt, hlong, hentry, if_false, Except.map, Except.ok.injEq, Prod.mk.injEq] at h
        obtain ⟨rfl, rfl⟩ := h
        have hlt : (d.addFile (parent ++ [name])).1 < (d.addFile (parent ++ [name])).2.contents.length := by
          rw [length_contents_addFile]
          exact Nat.lt_succ_self _
        refine ⟨Nat.le_of_not_lt hlong, .inl ⟨hentry, rfl⟩, d.entry?_addFile hnil, ?_, ?_, ?_, rfl⟩
        · intro n
          rw [content_setContent _ hlt, content_addFile]
        · rwa [length_contents_setContent]
        · rw [length_contents_setContent, length_contents_addFile]
          exact Nat.le_succ _
      · simp [entryAt, hlong, hentry, Except.map] at h
      · simp only [entryAt, hlong, hentry, if_false, Except.map, Except.ok.injEq, Prod.mk.injEq] at h
        obtain ⟨rfl, rfl⟩ := h
        have hlt := hsound _ _ hentry
        refine ⟨Nat.le_of_not_lt hlong, .inr hentry, ?_, d.content_setContent hlt [], ?_, ?_, rfl⟩
        · intro q
          split
          · next hq => rwa [hq]
          · rfl
        · rwa [length_contents_setContent]
        · rw [length_contents_setContent]

namespace Creates

variable {place : Place} (h : d.Creates parent name number d')
include h

theorem sound (hsound : d.Sound) : d'.Sound := by
  intro q n hq
  rw [h.entries] at hq
  split at hq
  · cases hq
    exact h.number_lt
  · exact Nat.lt_of_lt_of_le (hsound q n hq) h.length

theorem directory_iff (p : Path) : d'.entry? p = some .directory ↔ d.entry? p = some .directory := by
  rw [h.entries]
  split
  · next hp =>
    rcases h.before with ⟨hnone, -⟩ | hfile
    · simp [hp, hnone]
    · simp [hp, hfile]
  · rfl

theorem locate_iff : d'.locate text = .ok place ↔ d.locate text = .ok place :=
  ⟨locate_mono fun p => (h.directory_iff p).1, locate_mono fun p => (h.directory_iff p).2⟩

/-- The file is found under its path. -/
theorem openEntry (hplace : d.locate text = .ok (.name parent name false)) :
    d'.openEntry text = .ok (.file number) := by
  have hentry : d'.entry? (parent ++ [name]) = some (.file number) := by rw [h.entries, if_pos rfl]
  simp only [Disk.openEntry, h.locate_iff.2 hplace, Except.bind, entryAt, Nat.not_lt.2 h.short, if_false, hentry]

end Creates

/-! ### Moving -/

/-- A file that is moved stands under the name of the place that the path leads to. -/
theorem move_ok {source : Path} {entry : Entry} (hnil : source ≠ []) (hsource : d.entry? source = some entry)
    (h : d.move source text = .ok d') :
    ∃ parent name slashed, d.locate text = .ok (.name parent name slashed) ∧
      (∃ found, d.entryAt (.name parent name slashed) = .ok found) ∧ d'.contents = d.contents ∧
      d'.seekLimit = d.seekLimit ∧
      ∀ q, d'.entry? q = if q = parent ++ [name] then some entry else if q = source then none else d.entry? q := by
  unfold move at h
  rw [hsource] at h
  cases hplace : d.locate text with
  | error fault => simp [hplace] at h
  | ok place =>
    cases place with
    | directory path => simp [hplace] at h
    | name parent name slashed =>
      have hp : parent ++ [name] ≠ [] := by simp
      refine ⟨parent, name, slashed, rfl, ?_⟩
      simp only [hplace] at h
      cases hfound : d.entryAt (.name parent name slashed) with
      | error fault => simp [hfound] at h
      | ok found =>
        have hmoved : d' = { (d.unlink (parent ++ [name])).unlink source with
            entries := (parent ++ [name], entry) :: ((d.unlink (parent ++ [name])).unlink source).entries } := by
          rcases found with _ | _ | number <;> simp [hfound] at h
          all_goals exact h.symm
        refine ⟨⟨found, rfl⟩, by rw [hmoved]; rfl, by rw [hmoved]; rfl, ?_⟩
        intro q
        rw [hmoved, entry?_addEntry _ entry hp, entry?_unlink _ hnil, entry?_unlink d hp]
        by_cases hq : q = parent ++ [name] <;> simp [hq]

/-! ### Reading back -/

theorem contentAt_of_openEntry (h : d.openEntry text = .ok (.file number)) :
    d.contentAt text = .ok (d.content number) := by
  rw [contentAt, h]

section

variable (hsound : d.Sound) (h : d.create text = .ok (number, d'))
include hsound h

theorem contentAt_setContent (bytes : Bytes) : (d'.setContent number bytes).contentAt text = .ok bytes := by
  obtain ⟨parent, name, hplace, hcreates⟩ := creates_of_create hsound h
  have hopen := hcreates.openEntry hplace
  rw [← openEntry_setContent d' number bytes] at hopen
  rw [contentAt_of_openEntry hopen, content_setContent _ hcreates.number_lt, if_pos rfl]

end

/-- What is written to a file is read back. -/
theorem contentAt_writeFile (hsound : d.Sound) {bytes : Bytes} (h : d.writeFile text bytes = .ok d') :
    d'.contentAt text = .ok bytes := by
  unfold writeFile at h
  rcases hcreate : d.create text with fault | ⟨number, d₁⟩
  · rw [hcreate] at h
    cases h
  · rw [hcreate] at h
    cases h
    exact contentAt_setContent hsound hcreate bytes

/-- A file that is there is read alike as long as nothing is lost. -/
theorem Preserves.contentAt (h : d.Preserves d') {bytes : Bytes} (hcontent : d.contentAt text = .ok bytes) :
    d'.contentAt text = .ok bytes := by
  unfold Disk.contentAt at hcontent
  split at hcontent
  · cases hcontent
  · cases hcontent
  · next number hopen =>
    cases hcontent
    cases hplace : d.locate text with
    | error fault => simp [Disk.openEntry, hplace, Except.bind] at hopen
    | ok place =>
      have hplace' := locate_mono (fun p hp => h.entries p _ hp) hplace
      cases place with
      | directory => simp [Disk.openEntry, hplace, Except.bind, entryAt] at hopen
      | name parent name slashed =>
        have hentry := openEntry_name hopen hplace
        have hentry' := h.entries _ _ hentry
        have hopen' : d'.openEntry text = .ok (.file number) := by
          simp only [Disk.openEntry, hplace, Except.bind, entryAt, hentry] at hopen
          simp only [Disk.openEntry, hplace', Except.bind, entryAt, hentry']
          exact hopen
        rw [contentAt_of_openEntry hopen', h.contents _ _ hentry]

end ChunkedStorage.Disk
