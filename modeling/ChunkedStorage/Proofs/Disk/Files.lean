import ChunkedStorage.Proofs.Disk.Directories
import ChunkedStorage.Proofs.Disk.Names
import Mathlib.Data.List.Nodup
import Mathlib.Data.List.Perm.Subperm

/-!
# Files in directories

A plain name behind the path of a directory stands for the entry of that name (`Leads.exists_join`,
`Leads.openEntry_join`).  A temporary file gets a name that is free (`entry?_freeName`), and a file can be moved to any
other free name (`Leads.move_join`).
-/

namespace ChunkedStorage.Disk

variable {d : Disk} {text : String} {here : Path}

/-! ### Entries by name -/

/-- There is room for a name behind a written path, as an entry and within the path. -/
structure HasRoom (text name : String) : Prop where
  short : name.utf8ByteSize ≤ nameLimit
  path : text.utf8ByteSize + 1 + name.utf8ByteSize < pathLimit

/-- There is something under a written path exactly if it can be opened. -/
theorem exists_iff : d.exists? text = .ok true ↔ ∃ entry, d.openEntry text = .ok entry := by
  unfold exists? openEntry
  rcases (d.locate text).bind d.entryAt with fault | _ | entry
  · cases hmissing : fault.isNotFound <;> simp [hmissing]
  · simp
  · simp

namespace Leads

variable {name : String}

private theorem entryAt_join (h : d.Leads text here) (hname : IsPlain name) (hroom : HasRoom text name) :
    (d.locate (join text name)).bind d.entryAt = .ok (d.entry? (here ++ [name])) := by
  rw [h.locate_join hname hroom.path]
  simp only [Except.bind, entryAt, Nat.not_lt.2 hroom.short, if_false]
  rcases d.entry? (here ++ [name]) with _ | _ | number <;> rfl

theorem exists_join (h : d.Leads text here) (hname : IsPlain name) (hroom : HasRoom text name) :
    d.exists? (join text name) = .ok (d.entry? (here ++ [name])).isSome := by
  simp only [exists?, h.entryAt_join hname hroom]

theorem openEntry_join (h : d.Leads text here) (hname : IsPlain name) (hroom : HasRoom text name) {entry : Entry}
    (hentry : d.entry? (here ++ [name]) = some entry) : d.openEntry (join text name) = .ok entry := by
  simp only [openEntry, h.entryAt_join hname hroom, hentry]

/-- A file that is moved to a free name has that name afterwards, and its old one is free. -/
theorem move_join (h : d.Leads text here) (hname : IsPlain name) (hroom : HasRoom text name) {source : Path}
    {number : Nat} (hnil : source ≠ []) (hsource : d.entry? source = some (.file number))
    (hfree : d.entry? (here ++ [name]) = none) :
    ∃ d', d.move source (join text name) = .ok d' ∧ d'.contents = d.contents ∧ d'.seekLimit = d.seekLimit ∧
      ∀ q, d'.entry? q =
        if q = here ++ [name] then some (.file number) else if q = source then none else d.entry? q := by
  have hp : here ++ [name] ≠ [] := by simp
  have hentry : d.entryAt (.name here name false) = .ok none := by
    have := h.entryAt_join hname hroom
    rwa [h.locate_join hname hroom.path, hfree] at this
  let cleared := (d.unlink (here ++ [name])).unlink source
  have hmove : d.move source (join text name) =
      .ok { cleared with entries := (here ++ [name], .file number) :: cleared.entries } := by
    simp only [move, h.locate_join hname hroom.path, hsource, hentry, cleared]
  refine ⟨_, hmove, rfl, rfl, ?_⟩
  intro q
  have hcleared := entry?_unlink (d.unlink (here ++ [name])) hnil q
  rw [entry?_unlink d hp] at hcleared
  have hmoved := entry?_addEntry ((d.unlink (here ++ [name])).unlink source) (.file number) hp q
  rw [hmoved, hcleared]
  by_cases hq : q = here ++ [name] <;> simp [hq]

end Leads

/-! ### Temporary files -/

theorem freeName_eq (d : Disk) (here : Path) (start : String) :
    ∃ n ≤ d.entries.length, d.freeName here start = start ++ toString n ∧
      d.entry? (here ++ [start ++ toString n]) = none := by
  let names := (List.range (d.entries.length + 1)).map fun n => start ++ toString n
  let free (name : String) : Bool := (d.entry? (here ++ [name])).isNone
  have hfree : ∃ name ∈ names, free name = true := by
    by_contra hnone
    -- more names than entries, all of them taken
    have htaken : names.map (here ++ [·]) ⊆ d.entries.map Prod.fst := by
      intro p hp
      obtain ⟨name, hname, rfl⟩ := List.mem_map.1 hp
      have hsome : d.entries.lookup (here ++ [name]) ≠ none := by
        intro hlookup
        refine hnone ⟨name, hname, ?_⟩
        simp only [free, entry?_of_ne_nil d (show here ++ [name] ≠ [] by simp), hlookup, Option.isNone_none]
      rw [ne_eq, List.lookup_eq_none_iff] at hsome
      push Not at hsome
      obtain ⟨e, he, heq⟩ := hsome
      exact List.mem_map.2 ⟨e, he, (by simpa using heq : here ++ [name] = e.1).symm⟩
    have hnodup : (names.map (here ++ [·])).Nodup := by
      refine List.Nodup.map ?_ (List.Nodup.map ?_ List.nodup_range)
      · intro a b hab
        simpa using hab
      · intro n m hnm
        exact numbered_injective start hnm
    have := (List.subperm_of_subset hnodup htaken).length_le
    simp only [names, List.length_map, List.length_range] at this
    omega
  obtain ⟨name, hfind⟩ : ∃ name, names.find? free = some name :=
    Option.isSome_iff_exists.1 (List.find?_isSome.2 hfree)
  obtain ⟨n, hn, rfl⟩ := List.mem_map.1 (List.mem_of_find?_eq_some hfind)
  have hnone := List.find?_some hfind
  refine ⟨n, Nat.le_of_lt_succ (List.mem_range.1 hn), ?_, by simpa [free] using hnone⟩
  show (names.find? free).getD start = _
  rw [hfind]
  rfl

theorem entry?_freeName (d : Disk) (here : Path) (start : String) :
    d.entry? (here ++ [d.freeName here start]) = none := by
  obtain ⟨n, -, hname, hfree⟩ := d.freeName_eq here start
  rwa [hname]

theorem Leads.createTemporary (h : d.Leads text here) (start : String) :
    d.createTemporary text start =
      .ok (here ++ [d.freeName here start], d.addFile (here ++ [d.freeName here start])) := by
  unfold Disk.createTemporary
  rw [show d.openDirectory (if text = "" then "." else text) = .ok here from h]
  rfl

end ChunkedStorage.Disk
