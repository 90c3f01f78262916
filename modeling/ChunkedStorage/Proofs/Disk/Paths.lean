import ChunkedStorage.Disk

/-!
# Written paths

A written path leads to a directory when its names can be entered one after the other (`openDirectory_iff`).  A plain
name behind such a path is a place in that directory (`Leads.locate_join`), and stays one as long as no directory is
removed (`Leads.mono`).
-/

namespace ChunkedStorage.Disk

/-! ### Names behind a directory -/

/-- A name of an entry, with nothing in it that a written path gives a meaning to. -/
structure IsPlain (name : String) : Prop where
  ne_empty : name ≠ ""
  ne_dot : name ≠ "."
  ne_dots : name ≠ ".."
  slash : '/' ∉ name.toList
  nul : '\x00' ∉ name.toList

theorem parts_of_not_mem {name : String} (h : '/' ∉ name.toList) : parts name = [name] := by
  simp [parts, List.splitOn_eq_singleton h]

theorem IsPlain.not_isAbsolute {name : String} (h : IsPlain name) : isAbsolute name = false := by
  unfold isAbsolute
  cases hchars : name.toList with
  | nil => rfl
  | cons c rest =>
    have hc : c ≠ '/' := by
      rintro rfl
      exact h.slash (by simp [hchars])
    simpa using hc

theorem join_empty {name : String} (h : IsPlain name) : join "" name = name := by
  simp [join, h.not_isAbsolute]

private theorem toList_join {directory name : String} (hname : IsPlain name) (hdirectory : directory ≠ "") :
    ∃ front, (join directory name).toList = front ++ '/' :: name.toList ∧
      (directory.toList = front ∨ directory.toList = front ++ ['/']) := by
  simp only [join, hname.not_isAbsolute, Bool.false_eq_true, if_false, hdirectory, false_or]
  split
  · next hlast =>
    obtain ⟨front, hfront⟩ := List.getLast?_eq_some_iff.1 hlast
    exact ⟨front, by simp [hfront], .inr hfront⟩
  · exact ⟨directory.toList, by simp, .inl rfl⟩

/-- The names of a path that is put together are those of its directory, up to a slash at the end, and the last one. -/
theorem parts_join {directory name : String} (hname : IsPlain name) (hdirectory : directory ≠ "") :
    ∃ front, parts (join directory name) = front ++ [name] ∧
      (parts directory = front ∨ parts directory = front ++ [""]) := by
  obtain ⟨front, hjoin, hfront⟩ := toList_join hname hdirectory
  refine ⟨(front.splitOn '/').map String.ofList, ?_, ?_⟩
  · rw [parts, hjoin, List.splitOn_append_cons_self, List.splitOn_eq_singleton hname.slash]
    simp
  · rcases hfront with hfront | hfront
    · exact .inl (by rw [parts, hfront])
    · refine .inr ?_
      rw [parts, hfront, List.splitOn_append_cons_self]
      simp

theorem utf8ByteSize_join_le {directory name : String} (hname : IsPlain name) :
    (join directory name).utf8ByteSize ≤ directory.utf8ByteSize + 1 + name.utf8ByteSize := by
  simp only [join, hname.not_isAbsolute, Bool.false_eq_true, if_false]
  have hslash : "/".utf8ByteSize = 1 := rfl
  split <;> simp only [String.utf8ByteSize_append] <;> omega

theorem namesOf_ok {text : String} {names : List String} (h : namesOf text = .ok names) :
    '\x00' ∉ text.toList ∧ text ≠ "" ∧ text.utf8ByteSize < pathLimit ∧ names = parts text := by
  unfold namesOf at h
  split at h
  · cases h
  · next hnul =>
    split at h
    · cases h
    · next hempty =>
      split at h
      · cases h
      · next hlong =>
        cases h
        exact ⟨hnul, hempty, Nat.lt_of_not_le hlong, rfl⟩

theorem namesOf_of_short {text : String} (hnul : '\x00' ∉ text.toList) (hempty : text ≠ "")
    (hshort : text.utf8ByteSize < pathLimit) : namesOf text = .ok (parts text) := by
  simp [namesOf, hnul, hempty, Nat.not_le.2 hshort]

/-! ### Entering directories -/

variable {d d' : Disk}

theorem enter_append (d : Disk) (here : Path) (front back : List String) :
    d.enter here (front ++ back) = (d.enter here front).bind fun there => d.enter there back := by
  induction front generalizing here with
  | nil => rfl
  | cons name rest ih =>
    simp only [List.cons_append, enter]
    split
    · exact ih here
    · split
      · exact ih here.dropLast
      · split
        · rfl
        · split
          · exact ih _
          · rfl
          · rfl

theorem enter_of_blank {blanks : List String} (h : ∀ name ∈ blanks, name = "") (here : Path) :
    d.enter here blanks = .ok here := by
  induction blanks with
  | nil => rfl
  | cons name rest ih =>
    obtain ⟨rfl, hrest⟩ := List.forall_mem_cons.1 h
    simpa [enter, isIdle] using ih hrest

/-- Directories lead on as long as none of them is removed. -/
theorem enter_mono (h : ∀ p, d.entry? p = some .directory → d'.entry? p = some .directory) {here there : Path}
    {names : List String} (henter : d.enter here names = .ok there) : d'.enter here names = .ok there := by
  induction names generalizing here with
  | nil => exact henter
  | cons name rest ih =>
    simp only [enter] at henter ⊢
    split
    · next hidle =>
      rw [if_pos hidle] at henter
      exact ih henter
    · next hidle =>
      rw [if_neg hidle] at henter
      split
      · next hdots =>
        rw [if_pos hdots] at henter
        exact ih henter
      · next hdots =>
        rw [if_neg hdots] at henter
        split
        · next hlong =>
          rw [if_pos hlong] at henter
          cases henter
        · next hlong =>
          rw [if_neg hlong] at henter
          cases hentry : d.entry? (here ++ [name]) with
          | none =>
            rw [hentry] at henter
            cases henter
          | some entry =>
            rw [hentry] at henter
            cases entry with
            | file number => cases henter
            | directory =>
              rw [h _ hentry]
              exact ih henter

/-! ### Opening directories -/

/-- Opening the place of one more name is entering it. -/
private theorem directoryAt_iff {above here : Path} {last : String} {slashed : Bool} (hlast : last ≠ "") :
    d.directoryAt (if last = "." then .directory above else if last = ".." then .directory above.dropLast
      else .name above last slashed) = .ok here ↔ d.enter above [last] = .ok here := by
  by_cases hdot : last = "."
  · simp [hdot, directoryAt, enter, isIdle]
  · by_cases hdots : last = ".."
    · simp [hdots, directoryAt, enter, isIdle]
    · have hidle : isIdle last = false := by simp [isIdle, hlast, hdot]
      simp only [if_neg hdot, if_neg hdots, enter, hidle, Bool.false_eq_true, if_false, directoryAt, entryAt]
      by_cases hlong : nameLimit < last.utf8ByteSize
      · simp [hlong]
      · rcases d.entry? (above ++ [last]) with _ | _ | number
        · simp [hlong]
        · simp [hlong]
        · cases slashed <;> simp [hlong]

theorem placeOf_directory_iff {reversed : List String} {here : Path} :
    (d.placeOf reversed).bind d.directoryAt = .ok here ↔ d.enter [] reversed.reverse = .ok here := by
  -- slashes at the end lead nowhere
  have hblank (here : Path) : d.enter here (reversed.takeWhile (· == "")).reverse = .ok here := by
    refine enter_of_blank ?_ here
    intro name hname
    simpa using List.all_eq_true.1 List.all_takeWhile name (List.mem_reverse.1 hname)
  have hnames : d.enter [] reversed.reverse = d.enter [] (reversed.dropWhile (· == "")).reverse := by
    conv => lhs; rw [← List.takeWhile_append_dropWhile (p := (· == "")) (l := reversed)]
    rw [List.reverse_append, enter_append]
    cases d.enter [] (reversed.dropWhile (· == "")).reverse with
    | error fault => rfl
    | ok there => exact hblank there
  rw [hnames]
  cases hdrop : reversed.dropWhile (· == "") with
  | nil => simp [placeOf, hdrop, Except.bind, directoryAt, enter]
  | cons last above =>
    have hlast : last ≠ "" := by
      have := List.head?_dropWhile_not (· == "") reversed
      rw [hdrop] at this
      simpa using this
    rw [List.reverse_cons, enter_append]
    simp only [placeOf, hdrop]
    cases d.enter [] above.reverse with
    | error fault => simp [Except.map, Except.bind]
    | ok there => exact directoryAt_iff hlast

theorem openDirectory_iff {text : String} {here : Path} :
    d.openDirectory text = .ok here ↔ ∃ names, namesOf text = .ok names ∧ d.enter [] names = .ok here := by
  unfold openDirectory locate
  cases namesOf text with
  | error fault => simp [Except.bind]
  | ok names =>
    simp only [Except.bind, Except.ok.injEq, exists_eq_left']
    show (d.placeOf names.reverse).bind d.directoryAt = .ok here ↔ _
    rw [placeOf_directory_iff, List.reverse_reverse]

/-- A written path leads to a directory; an empty one leads to where names without a directory belong. -/
def Leads (d : Disk) (text : String) (here : Path) : Prop :=
  d.openDirectory (if text = "" then "." else text) = .ok here

theorem leads_empty (d : Disk) : d.Leads "" [] := by
  rw [Leads, if_pos rfl, openDirectory_iff]
  refine ⟨parts ".", namesOf_of_short (by decide) (by decide) (by decide), ?_⟩
  rw [parts_of_not_mem (by decide)]
  rfl

namespace Leads

variable {text : String} {here : Path}

theorem unique {here' : Path} (h : d.Leads text here) (h' : d.Leads text here') : here = here' :=
  Except.ok.inj (h.symm.trans h')

theorem mono (hkept : ∀ p, d.entry? p = some .directory → d'.entry? p = some .directory) (h : d.Leads text here) :
    d'.Leads text here := by
  obtain ⟨names, hnames, henter⟩ := openDirectory_iff.1 h
  exact openDirectory_iff.2 ⟨names, hnames, enter_mono hkept henter⟩

private theorem placeOf_plain {name : String} (hname : IsPlain name) {front : List String}
    (henter : d.enter [] front = .ok here) : d.placeOf (front ++ [name]).reverse = .ok (.name here name false) := by
  have hdrop : ((front ++ [name]).reverse).dropWhile (· == "") = name :: front.reverse := by
    rw [List.reverse_append, List.reverse_singleton, List.singleton_append, List.dropWhile_cons_of_neg]
    simpa using hname.ne_empty
  unfold placeOf
  rw [hdrop]
  simp [henter, Except.map, hname.ne_empty, hname.ne_dot, hname.ne_dots]

/-- A plain name behind a path to a directory is a place in that directory. -/
theorem locate_join {name : String} (h : d.Leads text here) (hname : IsPlain name)
    (hshort : text.utf8ByteSize + 1 + name.utf8ByteSize < pathLimit) :
    d.locate (join text name) = .ok (.name here name false) := by
  by_cases hempty : text = ""
  · subst hempty
    obtain rfl := h.unique (leads_empty d)
    rw [join_empty hname, locate, namesOf_of_short hname.nul hname.ne_empty (by omega), parts_of_not_mem hname.slash]
    have henter : d.enter [] [] = .ok [] := rfl
    exact placeOf_plain hname henter
  · rw [Leads, if_neg hempty] at h
    obtain ⟨names, hnames, henter⟩ := openDirectory_iff.1 h
    obtain ⟨hnul, -, -, rfl⟩ := namesOf_ok hnames
    obtain ⟨front, hjoin, hfront⟩ := parts_join hname hempty
    obtain ⟨chars, hchars, hdirectory⟩ := toList_join hname hempty
    have hsize : (join text name).utf8ByteSize ≤ text.utf8ByteSize + 1 + name.utf8ByteSize := utf8ByteSize_join_le hname
    have hjoin_nul : '\x00' ∉ (join text name).toList := by
      have hchars_nul : '\x00' ∉ chars := by
        rcases hdirectory with hsame | hslash
        · rwa [← hsame]
        · intro hmem
          exact hnul (by simp [hslash, hmem])
      simp [hchars, hchars_nul, hname.nul]
    have hjoin_empty : join text name ≠ "" := by
      intro hnone
      simp [hnone] at hchars
    -- before the name stands the path itself, perhaps without the slash at its end
    have henter' : d.enter [] front = .ok here := by
      rcases hfront with hsame | hblank
      · rwa [hsame] at henter
      · rw [hblank, enter_append] at henter
        cases hthere : d.enter [] front with
        | error fault =>
          rw [hthere] at henter
          cases henter
        | ok there =>
          rw [hthere] at henter
          rwa [Except.bind, enter_of_blank (by simp)] at henter
    rw [locate, namesOf_of_short hjoin_nul hjoin_empty (by omega), hjoin]
    exact placeOf_plain hname henter'

/-! ### Making directories -/

private theorem directoryAt_name {parent : Path} {name : String} {slashed : Bool}
    (h : d.directoryAt (.name parent name slashed) = .ok here) :
    ¬ nameLimit < name.utf8ByteSize ∧ d.entry? (parent ++ [name]) = some .directory := by
  simp only [directoryAt, entryAt] at h
  by_cases hlong : nameLimit < name.utf8ByteSize
  · simp [hlong] at h
  · rcases hentry : d.entry? (parent ++ [name]) with _ | _ | number
    · simp [hlong, hentry] at h
    · exact ⟨hlong, rfl⟩
    · cases slashed <;> simp [hlong, hentry] at h

/-- A directory that exists is not made again. -/
theorem makeDirectories (h : d.Leads text here) : d.makeDirectories text = (.ok (), d) := by
  unfold Disk.makeDirectories
  split
  · rfl
  · next hempty =>
    rw [Leads, if_neg hempty] at h
    obtain ⟨names, hnames, henter⟩ := openDirectory_iff.1 h
    rw [hnames]
    have hplace : (d.placeOf names.reverse).bind d.directoryAt = .ok here := by
      rw [placeOf_directory_iff, List.reverse_reverse]
      exact henter
    -- it cannot be made once more, and is then found to be there
    have hmake : ∃ fault, (d.placeOf names.reverse).bind d.makeDirectoryAt = .error fault := by
      cases hfound : d.placeOf names.reverse with
      | error fault =>
        rw [hfound] at hplace
        cases hplace
      | ok place =>
        rw [hfound] at hplace
        cases place with
        | directory path => exact ⟨_, rfl⟩
        | name parent name slashed =>
          obtain ⟨hshort, hentry⟩ := directoryAt_name hplace
          exact ⟨_, by simp [Except.bind, makeDirectoryAt, entryAt, hshort, hentry]; rfl⟩
    obtain ⟨fault, hfault⟩ := hmake
    simp [makeFirst, makeDirectory, hfault, hplace]

end Leads

end ChunkedStorage.Disk
