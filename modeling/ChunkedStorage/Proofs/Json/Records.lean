import ChunkedStorage.Json.Reader
import ChunkedStorage.Proofs.Json.Documents
import Mathlib.Data.List.Nodup

/-!
# Values that are read back

What a reader gives for a document does not depend on how the document is written (`Reads`).  A record is read back from
an object that gives its fields in any order, each of them once, leaves out fields that are as usual, and holds members
of other names besides (`Shape.reads_record`).
-/

namespace ChunkedStorage.Json

variable {α ρ : Type} {d : Document} {s rest : Source} {first : Bool}

/-- The reader gives `a` for every text of the document. -/
def Reads (read : Reader α) (d : Document) (a : α) : Prop :=
  ∀ s rest, Written (.value d) (skipBlank s) rest → read s = .ok (a, rest)

/-! ### Single values -/

theorem found_quote (t : String) (rest : Source) : found ((quote t).map some ++ rest) = .ok (.text t, rest) := by
  have hread := string_quote t rest
  simp only [quote, List.map_cons, List.map_append, List.map_nil, List.cons_append, List.append_assoc, List.nil_append,
    found, hread]
  rfl

private theorem found_number {c : Char} (hc : startsNumber c = true) (s : Source) :
    found (some c :: s) = match number (some c :: s) with
      | .error fault => .error fault
      | .ok (.integer i, rest) => .ok (.integer i, rest)
      | .ok (.decimal x, rest) => .ok (.decimal (Decimal.ofFloat x), rest) := by
  have hcases := startsNumber_cases hc
  simp only [List.mem_cons, List.not_mem_nil, or_false] at hcases
  rcases hcases with rfl | rfl | rfl | rfl | rfl | rfl | rfl | rfl | rfl | rfl | rfl <;> rfl

theorem found_toDigits {n : Nat} (hn : n < wordLimit) (hrest : Stops rest) :
    found ((Nat.toDigits 10 n).map some ++ rest) = .ok (.integer n, rest) := by
  have hread := number_toDigits hn hrest
  obtain ⟨c, cs, hcs, hc⟩ := (isNumber_toDigits n).starts
  rw [hcs, List.map_cons, List.cons_append] at hread ⊢
  rw [found_number hc, hread]

theorem reads_text (expected t : String) : Reads (text expected) (.text t) t := by
  intro s rest h
  have hread := string_quote t rest
  generalize hs : skipBlank s = behind at h
  cases h
  rw [text, hs]
  simpa [quote] using hread

theorem reads_word (expected : String) {n : Nat} (hn : n < wordLimit) :
    Reads (word expected) (.number (Nat.toDigits 10 n)) n := by
  intro s rest h
  generalize hs : skipBlank s = behind at h
  cases h with
  | number hcs hrest =>
    rw [word, hs, found_toDigits hn hrest]
    simp

theorem reads_boolean (b : Bool) : Reads boolean (.boolean b) b := by
  intro s rest h
  generalize hs : skipBlank s = behind at h
  cases h
  rw [boolean, hs]
  cases b <;> rfl

theorem reads_null (read : Reader α) : Reads (nullable read) .null none := by
  intro s rest h
  generalize hs : skipBlank s = behind at h
  cases h
  rw [nullable, hs]
  rfl

theorem reads_nullable_text (expected t : String) : Reads (nullable (text expected)) (.text t) (some t) := by
  intro s rest h
  have hread := reads_text expected t (skipBlank s) rest (by rwa [skipBlank_skipBlank])
  generalize hs : skipBlank s = behind at h hread
  cases h
  rw [nullable, hs]
  change Except.map _ (text expected ((quote t).map some ++ rest)) = _
  rw [hread]
  rfl

/-- A text that may be missing. -/
theorem reads_text? (expected : String) (t? : Option String) :
    Reads (nullable (text expected)) (t?.elim Value.null .text).document t? := by
  cases t? with
  | none => exact reads_null _
  | some t => exact reads_nullable_text expected t

/-! ### Lists -/

theorem nextElement_of_comes {s' : Source} (hd : Written (.value d) s' rest) (h : Comes first s s') :
    nextElement first s = .ok (.item s') := by
  obtain ⟨c, s', rfl, hc⟩ := hd.starts
  have hopen : c ≠ ']' := hc.plain.2.2.1
  cases first with
  | true =>
    have hs : skipBlank s = some c :: s' := h
    rw [nextElement, hs]
    simp [hopen]
  | false =>
    obtain ⟨behind, hs, hbehind⟩ := h
    rw [nextElement, hs]
    simp [hbehind, hopen]

theorem nextElement_of_closed (hs : skipBlank s = some ']' :: rest) : nextElement first s = .ok (.closed rest) := by
  rw [nextElement, hs]
  rfl

private theorem elements_eq {read : Reader α} {ds : List Document} {as : List α} (h : List.Forall₂ (Reads read) ds as)
    (hds : Written (.elements first ds) s rest) (fuel : Nat) (hfuel : s.length < fuel) :
    elements read fuel first s = .ok (as, rest) := by
  induction h generalizing first s fuel with
  | nil =>
    cases hds with
    | noElement hs =>
      obtain ⟨fuel, rfl⟩ := Nat.exists_eq_succ_of_ne_zero (Nat.ne_zero_of_lt hfuel)
      rw [elements, nextElement_of_closed hs]
  | @cons d a ds as hread _ ih =>
    cases hds with
    | @element _ _ _ _ s₁ s₂ _ hcomes hd hmore =>
      obtain ⟨fuel, rfl⟩ := Nat.exists_eq_succ_of_ne_zero (Nat.ne_zero_of_lt hfuel)
      have hvalue := hread s₁ s₂ (hd.skipBlank_eq.symm ▸ hd)
      have hlength := hcomes.length_le
      have htaken := hd.length_lt
      have helements := ih hmore fuel (by omega)
      rw [elements, nextElement_of_comes hd hcomes]
      simp only [hvalue, helements]
      rfl

/-- A list is read back if its elements are. -/
theorem reads_list {read : Reader α} {ds : List Document} {as : List α} (h : List.Forall₂ (Reads read) ds as) :
    Reads (list read) (.list ds) as := by
  intro s rest hwritten
  generalize hs : skipBlank s = behind at hwritten
  cases hwritten with
  | list hds =>
    rw [list, hs]
    exact elements_eq h hds _ (Nat.lt_succ_self _)

/-! ### Members -/

theorem nextKey_of_comes {key : String} {s₁ : Source} (h : Comes first s ((quote key).map some ++ s₁)) :
    nextKey first s = .ok (.item ((key.toList.flatMap escaped).map some ++ some '"' :: s₁)) := by
  have hquote : (quote key).map some ++ s₁ = some '"' :: ((key.toList.flatMap escaped).map some ++ some '"' :: s₁) := by
    simp [quote]
  rw [hquote] at h
  cases first with
  | true =>
    have hs : skipBlank s = some '"' :: ((key.toList.flatMap escaped).map some ++ some '"' :: s₁) := h
    rw [nextKey, hs]
    rfl
  | false =>
    obtain ⟨behind, hs, hbehind⟩ := h
    rw [nextKey, hs]
    simp [hbehind]

theorem nextKey_of_closed (hs : skipBlank s = some '\x7d' :: rest) : nextKey first s = .ok (.closed rest) := by
  rw [nextKey, hs]
  rfl

theorem colon_of_skipBlank {s' : Source} (hs : skipBlank s = some ':' :: s') : colon s = .ok s' := by
  rw [colon, hs]
  rfl

/-- A member is read as its key, a colon and its value. -/
private theorem Written.member_read {key : String} {ms : List (String × Document)}
    (h : Written (.members first ((key, d) :: ms)) s rest) :
    ∃ quoted s₁ s₂ s₃, nextKey first s = .ok (.item quoted) ∧ string quoted = .ok (key, s₁) ∧ colon s₁ = .ok s₂ ∧
      Written (.value d) (skipBlank s₂) s₃ ∧ Written (.members false ms) s₃ rest ∧ s₃.length < s.length := by
  cases h with
  | @member _ _ _ _ _ s₁ s₂ s₃ _ hcomes hcolon hd hms =>
    have hlength := hcomes.length_value_lt hcolon
    have hvalue := hd.length_lt
    exact ⟨_, s₁, s₂, s₃, nextKey_of_comes hcomes, string_quote key s₁, colon_of_skipBlank hcolon, hd, hms, by omega⟩

/-! ### Maps -/

/-- A map without its last key. -/
theorem put_concat {key value : String} {known : List (String × String)} (h : key ∉ known.map Prod.fst) :
    put key value known = known ++ [(key, value)] := by
  induction known with
  | nil => rfl
  | cons entry known ih =>
    obtain ⟨k, v⟩ := entry
    simp only [List.map_cons, List.mem_cons, not_or] at h
    rw [put, if_neg fun hk => h.1 hk.symm, ih h.2, List.cons_append]

/-- The members of a map. -/
def textMembers (texts : List (String × String)) : List (String × Document) :=
  texts.map fun (key, value) => (key, .text value)

private theorem members_eq {texts : List (String × String)} (known : List (String × String))
    (hkeys : ((known ++ texts).map Prod.fst).Nodup) (h : Written (.members first (textMembers texts)) s rest)
    (fuel : Nat) (hfuel : s.length < fuel) :
    members fuel first known s = .ok (known ++ texts, rest) := by
  induction texts generalizing first known s fuel with
  | nil =>
    cases h with
    | noMember hs =>
      obtain ⟨fuel, rfl⟩ := Nat.exists_eq_succ_of_ne_zero (Nat.ne_zero_of_lt hfuel)
      rw [members, nextKey_of_closed hs, List.append_nil]
  | cons entry texts ih =>
    obtain ⟨key, value⟩ := entry
    obtain ⟨quoted, s₁, s₂, s₃, hnext, hkey, hcolon, hvalue, hmore, hlength⟩ := h.member_read
    obtain ⟨fuel, rfl⟩ := Nat.exists_eq_succ_of_ne_zero (Nat.ne_zero_of_lt hfuel)
    have hread := reads_text "a string" value s₂ s₃ hvalue
    have hnew : key ∉ known.map Prod.fst := by
      rw [List.map_append, List.map_cons] at hkeys
      exact fun hmem => (List.nodup_append.1 hkeys).2.2 key hmem key List.mem_cons_self rfl
    have hmembers := ih (known ++ [(key, value)]) (by rwa [List.append_assoc]) hmore fuel (by omega)
    rw [members, hnext]
    simp only [hkey, hcolon, hread, put_concat hnew, hmembers, List.append_assoc, List.cons_append, List.nil_append]

theorem reads_textMap {texts : List (String × String)} (hkeys : (texts.map Prod.fst).Nodup) :
    Reads textMap (.object (textMembers texts)) texts := by
  intro s rest h
  generalize hs : skipBlank s = behind at h
  cases h with
  | object hms =>
    rw [textMap, hs]
    exact members_eq [] hkeys hms _ (Nat.lt_succ_self _)

/-! ### Records -/

/-- What an object and a record hold for one field of a given record. -/
structure Entry (ρ : Type) where
  name : String
  /-- Whether the document is one of the field's value. -/
  writes : Document → Prop
  /-- Whether a record has the field's value. -/
  holds : ρ → Prop

/-- Members that give a record.  They have each field once at most, and leave out only fields that are as they are at
the start; members of other names may be anything. -/
structure Describes (entries : List (Entry ρ)) (start : ρ) (ms : List (String × Document)) : Prop where
  once : ((ms.map Prod.fst).filter (· ∈ entries.map Entry.name)).Nodup
  written : ∀ e ∈ entries, ∀ d, (e.name, d) ∈ ms → e.writes d
  complete : ∀ e ∈ entries, e.name ∉ ms.map Prod.fst → e.holds start

/-- An object whose members give a record. -/
def IsRecord (entries : List (Entry ρ)) (start : ρ) (d : Document) : Prop :=
  ∃ ms, d = .object ms ∧ Describes entries start ms

/-- Reading the field sets its value and leaves the values of the other fields as they are. -/
structure Field.Sets (entries : List (Entry ρ)) (f : Field ρ) (e : Entry ρ) : Prop where
  name_eq : f.name = e.name
  reads : ∀ d, e.writes d → ∀ r, ∃ r', Reads (f.read r) d r' ∧ e.holds r' ∧
    ∀ e' ∈ entries, e'.name ≠ e.name → e'.holds r → e'.holds r'

variable {entries : List (Entry ρ)} {shape : Shape ρ} {ms : List (String × Document)}

/-- Reading the field comes to reading a value and storing it. -/
theorem Field.sets {f : Field ρ} {e : Entry ρ} {read : Reader α} {set : ρ → α → ρ} (hname : f.name = e.name)
    (hf : ∀ r s, f.read r s = (read s).map fun (a, rest) => (set r a, rest))
    (hread : ∀ d, e.writes d → ∃ a, Reads read d a ∧ ∀ r, e.holds (set r a))
    (hothers : ∀ e' ∈ entries, e'.name ≠ e.name → ∀ r a, e'.holds r → e'.holds (set r a)) : f.Sets entries e := by
  refine ⟨hname, fun d hd r => ?_⟩
  obtain ⟨a, hreads, hholds⟩ := hread d hd
  refine ⟨set r a, fun s rest h => ?_, hholds r, fun e' he' hne => hothers e' he' hne r a⟩
  rw [hf, hreads s rest h]
  rfl

theorem Field.sets_optional {name : String} {writes : Document → Prop} {holds : ρ → Prop} {read : Reader α}
    {set : ρ → α → ρ} (hread : ∀ d, writes d → ∃ a, Reads read d a ∧ ∀ r, holds (set r a))
    (hothers : ∀ e' ∈ entries, e'.name ≠ name → ∀ r a, e'.holds r → e'.holds (set r a)) :
    (Field.optional name read set).Sets entries ⟨name, writes, holds⟩ :=
  Field.sets rfl (fun _ _ => rfl) hread hothers

/-- The value of the field has one document. -/
theorem Field.sets_document {name : String} {holds : ρ → Prop} {read : Reader α} {set : ρ → α → ρ} {a : α}
    (hread : Reads read d a) (hholds : ∀ r, holds (set r a))
    (hothers : ∀ e' ∈ entries, e'.name ≠ name → ∀ r a, e'.holds r → e'.holds (set r a)) :
    (Field.optional name read set).Sets entries ⟨name, (· = d), holds⟩ := by
  refine Field.sets_optional ?_ hothers
  rintro d rfl
  exact ⟨a, hread, hholds⟩

/-- What a field does to a record does not depend on where it may be left out. -/
theorem Field.sets_required {name : String} {e : Entry ρ} {read : Reader α} {set : ρ → α → ρ}
    (h : (Field.optional name read set).Sets entries e) : (Field.required name read set).Sets entries e :=
  ⟨h.name_eq, h.reads⟩

theorem Field.sets_nullable {name : String} {e : Entry ρ} {read : Reader α} {set : ρ → α → ρ}
    (h : (Field.optional name read set).Sets entries e) : (Field.nullable name read set).Sets entries e :=
  ⟨h.name_eq, h.reads⟩

/-- A key is the name of a field and of its entry, or of none. -/
private theorem find?_fields {fs : List (Field ρ)} {es : List (Entry ρ)}
    (hsets : List.Forall₂ (Field.Sets entries) fs es) (key : String) :
    (∃ f e, fs.find? (·.name == key) = some f ∧ e ∈ es ∧ e.name = key ∧ f.Sets entries e) ∨
      (fs.find? (·.name == key) = none ∧ key ∉ es.map Entry.name) := by
  induction hsets with
  | nil => exact .inr ⟨rfl, List.not_mem_nil⟩
  | @cons f e fs es hf hfs ih =>
    by_cases hkey : f.name = key
    · exact .inl ⟨f, e, by simp [hkey], List.mem_cons_self, hf.name_eq ▸ hkey, hf⟩
    · have hkey' : ¬(key = e.name) := fun heq => hkey (hf.name_eq.trans heq.symm)
      rcases ih with ⟨f', e', hfind, hmem, hname, hf'⟩ | ⟨hfind, hmem⟩
      · exact .inl ⟨f', e', by simp [hkey, hfind], List.mem_cons_of_mem _ hmem, hname, hf'⟩
      · refine .inr ⟨by simp [hkey, hfind], ?_⟩
        rw [List.map_cons, List.mem_cons, not_or]
        exact ⟨hkey', hmem⟩

/-- Behind a member that is read, the others give the rest of the record. -/
private theorem Describes.of_known {e : Entry ρ} {r r' : ρ} (hms : Describes entries r ((e.name, d) :: ms))
    (hnames : (entries.map Entry.name).Nodup) (he : e ∈ entries) (hholds : e.holds r')
    (hothers : ∀ e' ∈ entries, e'.name ≠ e.name → e'.holds r → e'.holds r') :
    Describes entries r' ms ∧ e.name ∉ ms.map Prod.fst := by
  have honce := hms.once
  rw [List.map_cons, List.filter_cons_of_pos (by simpa using List.mem_map_of_mem he), List.nodup_cons] at honce
  have hknown : decide (e.name ∈ entries.map Entry.name) = true := decide_eq_true (List.mem_map_of_mem he)
  refine ⟨⟨honce.2, fun e' he' d hd => hms.written e' he' d (List.mem_cons_of_mem _ hd), ?_⟩,
    fun hmem => honce.1 (List.mem_filter.2 ⟨hmem, hknown⟩)⟩
  intro e' he' hmem
  by_cases hname : e'.name = e.name
  · rwa [List.inj_on_of_nodup_map hnames he' he hname]
  · refine hothers e' he' hname (hms.complete e' he' ?_)
    rw [List.map_cons, List.mem_cons, not_or]
    exact ⟨hname, hmem⟩

private theorem Describes.of_unknown {key : String} {r : ρ} (hms : Describes entries r ((key, d) :: ms))
    (hkey : key ∉ entries.map Entry.name) : Describes entries r ms := by
  have honce := hms.once
  rw [List.map_cons, List.filter_cons_of_neg (by simpa using hkey)] at honce
  refine ⟨honce, fun e he d hd => hms.written e he d (List.mem_cons_of_mem _ hd), ?_⟩
  intro e he hmem
  have hne : e.name ≠ key := fun heq => hkey (heq ▸ List.mem_map_of_mem he)
  refine hms.complete e he ?_
  rw [List.map_cons, List.mem_cons, not_or]
  exact ⟨hne, hmem⟩

/-- A member of a field is read into the record. -/
private theorem ofObject_known {key : String} {f : Field ρ} {seen : List String} {r r' : ρ} {fuel : Nat}
    (hfind : shape.fields.find? (·.name == key) = some f) (hunseen : key ∉ seen) (hread : Reads (f.read r) d r')
    (h : Written (.members first ((key, d) :: ms)) s rest) :
    ∃ s', Written (.members false ms) s' rest ∧ s'.length < s.length ∧
      shape.ofObject (fuel + 1) seen first r s = shape.ofObject fuel (key :: seen) false r' s' := by
  obtain ⟨quoted, s₁, s₂, s₃, hnext, hkey, hcolon, hvalue, hmembers, hlength⟩ := h.member_read
  refine ⟨s₃, hmembers, hlength, ?_⟩
  rw [Shape.ofObject, hnext]
  simp only [hkey, hfind, if_neg hunseen, hcolon, hread s₂ s₃ hvalue]

/-- A member of another name is passed over. -/
private theorem ofObject_unknown {key : String} {seen : List String} {r : ρ} {fuel : Nat}
    (hfind : shape.fields.find? (·.name == key) = none) (h : Written (.members first ((key, d) :: ms)) s rest) :
    ∃ s', Written (.members false ms) s' rest ∧ s'.length < s.length ∧
      shape.ofObject (fuel + 1) seen first r s = shape.ofObject fuel seen false r s' := by
  obtain ⟨quoted, s₁, s₂, s₃, hnext, hkey, hcolon, hvalue, hmembers, hlength⟩ := h.member_read
  refine ⟨s₃, hmembers, hlength, ?_⟩
  rw [Shape.ofObject, hnext]
  simp only [hkey, hfind, hcolon, Except.bind, hvalue.skip_eq]

/-- The members are read one by one.  At each of them, what lies ahead gives the rest of the record: a field that is not
ahead has its value already. -/
private theorem ofObject_eq (hsets : List.Forall₂ (Field.Sets entries) shape.fields entries)
    (hnames : (entries.map Entry.name).Nodup) (seen : List String) (r : ρ) (hms : Describes entries r ms)
    (hseen : ∀ key ∈ seen, key ∉ ms.map Prod.fst)
    (hrequired : ∀ f ∈ shape.fields, f.absentFromObject = false → f.name ∈ seen ∨ f.name ∈ ms.map Prod.fst) :
    ∃ r', (∀ e ∈ entries, e.holds r') ∧ ∀ first s rest fuel, Written (.members first ms) s rest → s.length < fuel →
      shape.ofObject fuel seen first r s = .ok (r', rest) := by
  induction ms generalizing seen r with
  | nil =>
    refine ⟨r, fun e he => hms.complete e he List.not_mem_nil, ?_⟩
    intro first s rest fuel h hfuel
    cases h with
    | noMember hs =>
      obtain ⟨fuel, rfl⟩ := Nat.exists_eq_succ_of_ne_zero (Nat.ne_zero_of_lt hfuel)
      have hmissing : shape.missing? seen = none := by
        refine List.find?_eq_none.2 fun f hf => ?_
        have hf := hrequired f hf
        simp only [List.map_nil, List.not_mem_nil, or_false] at hf
        simpa using hf
      rw [Shape.ofObject, nextKey_of_closed hs]
      simp only [hmissing]
  | cons m ms ih =>
    obtain ⟨key, d⟩ := m
    rcases find?_fields hsets key with ⟨f, e, hfind, he, rfl, hf⟩ | ⟨hfind, hunknown⟩
    · obtain ⟨r₁, hread, hholds, hothers⟩ := hf.reads d (hms.written e he d List.mem_cons_self) r
      obtain ⟨hmore, hnew⟩ := hms.of_known hnames he hholds hothers
      have hunseen : e.name ∉ seen := fun hmem => hseen _ hmem List.mem_cons_self
      have hseen' : ∀ key ∈ e.name :: seen, key ∉ ms.map Prod.fst := by
        rintro key (_ | ⟨_, hkey⟩)
        · exact hnew
        · exact fun hmem => hseen key hkey (List.mem_cons_of_mem _ hmem)
      obtain ⟨r', hall, hreads⟩ := ih (e.name :: seen) r₁ hmore hseen' fun f hf habsent => by
        have hwhere := hrequired f hf habsent
        simp only [List.map_cons, List.mem_cons] at hwhere ⊢
        tauto
      refine ⟨r', hall, fun first s rest fuel h hfuel => ?_⟩
      obtain ⟨fuel, rfl⟩ := Nat.exists_eq_succ_of_ne_zero (Nat.ne_zero_of_lt hfuel)
      obtain ⟨s', hmembers, hlength, hstep⟩ := ofObject_known hfind hunseen hread h
      rw [hstep, hreads false s' rest fuel hmembers (by omega)]
    · have hnew : ∀ f ∈ shape.fields, f.name ≠ key := by simpa using hfind
      have hseen' : ∀ key ∈ seen, key ∉ ms.map Prod.fst := fun key hkey hmem =>
        hseen key hkey (List.mem_cons_of_mem _ hmem)
      obtain ⟨r', hall, hreads⟩ := ih seen r (hms.of_unknown hunknown) hseen' fun f hf habsent => by
        have hwhere := hrequired f hf habsent
        rwa [List.map_cons, List.mem_cons, or_iff_right (hnew f hf)] at hwhere
      refine ⟨r', hall, fun first s rest fuel h hfuel => ?_⟩
      obtain ⟨fuel, rfl⟩ := Nat.exists_eq_succ_of_ne_zero (Nat.ne_zero_of_lt hfuel)
      obtain ⟨s', hmembers, hlength, hstep⟩ := ofObject_unknown hfind h
      rw [hstep, hreads false s' rest fuel hmembers (by omega)]

/-- A record is read back from an object that gives it. -/
theorem Shape.reads_record (hsets : List.Forall₂ (Field.Sets entries) shape.fields entries)
    (hnames : (entries.map Entry.name).Nodup) {start : ρ} (hms : Describes entries start ms)
    (hrequired : ∀ f ∈ shape.fields, f.absentFromObject = false → f.name ∈ ms.map Prod.fst) :
    ∃ r, Reads (shape.read start) (.object ms) r ∧ ∀ e ∈ entries, e.holds r := by
  obtain ⟨r, hholds, hread⟩ := ofObject_eq hsets hnames [] start hms (by simp) fun f hf habsent =>
    .inr (hrequired f hf habsent)
  refine ⟨r, ?_, hholds⟩
  intro s rest h
  generalize hs : skipBlank s = behind at h
  cases h with
  | @object _ s rest hmembers =>
    rw [Shape.read, hs]
    exact hread true s rest _ hmembers (Nat.lt_succ_self _)

/-- An object whose members give a record and have the keys that must not be missing. -/
def IsRecordWith (required : List String) (entries : List (Entry ρ)) (start : ρ) (d : Document) : Prop :=
  ∃ ms, d = .object ms ∧ required ⊆ ms.map Prod.fst ∧ Describes entries start ms

theorem IsRecordWith.reads {required : List String} {start : ρ} (hd : IsRecordWith required entries start d)
    (hsets : List.Forall₂ (Field.Sets entries) shape.fields entries) (hnames : (entries.map Entry.name).Nodup)
    (hrequired : ∀ f ∈ shape.fields, f.absentFromObject = false → f.name ∈ required) :
    ∃ r, Reads (shape.read start) d r ∧ ∀ e ∈ entries, e.holds r := by
  obtain ⟨ms, rfl, hkeys, hms⟩ := hd
  exact Shape.reads_record hsets hnames hms fun f hf habsent => hkeys (hrequired f hf habsent)

/-- A record all of whose fields may be left out is read back. -/
theorem IsRecord.reads {start : ρ} (hd : IsRecord entries start d)
    (hsets : List.Forall₂ (Field.Sets entries) shape.fields entries) (hnames : (entries.map Entry.name).Nodup)
    (hoptional : ∀ f ∈ shape.fields, f.absentFromObject = true) :
    ∃ r, Reads (shape.read start) d r ∧ ∀ e ∈ entries, e.holds r := by
  obtain ⟨ms, rfl, hms⟩ := hd
  refine IsRecordWith.reads ⟨ms, rfl, List.nil_subset _, hms⟩ hsets hnames fun f hf habsent => ?_
  rw [hoptional f hf] at habsent
  cases habsent

/-- The members that give every field in its place give the record. -/
theorem describes_of_forall₂ (h : List.Forall₂ (fun m e => m.1 = e.name ∧ e.writes m.2) ms entries)
    (hnames : (entries.map Entry.name).Nodup) (start : ρ) : Describes entries start ms := by
  have hkeys : ms.map Prod.fst = entries.map Entry.name := by
    clear hnames
    induction h with
    | nil => rfl
    | cons hm _ ih => rw [List.map_cons, List.map_cons, hm.1, ih]
  have hall : ∀ m ∈ ms, ∃ e ∈ entries, m.1 = e.name ∧ e.writes m.2 := by
    clear hnames hkeys
    induction h with
    | nil => simp
    | cons hm _ ih =>
      intro m hmem
      rcases List.mem_cons.1 hmem with rfl | hmem
      · exact ⟨_, List.mem_cons_self, hm⟩
      · obtain ⟨e, he, hwrites⟩ := ih m hmem
        exact ⟨e, List.mem_cons_of_mem _ he, hwrites⟩
  have hnodup : (ms.map Prod.fst).Nodup := hkeys ▸ hnames
  refine ⟨hnodup.filter _, fun e he d hd => ?_, fun e he hmem => ?_⟩
  · obtain ⟨e', he', hname, hwrites⟩ := hall _ hd
    rwa [List.inj_on_of_nodup_map hnames he he' hname]
  · rw [hkeys] at hmem
    exact absurd (List.mem_map_of_mem he) hmem

/-! ### Whole texts -/

theorem Reads.readAll {read : Reader α} {a : α} (h : Reads read d a) (hs : IsText d s) : readAll read s = .ok a := by
  obtain ⟨rest, hwritten, hrest⟩ := hs
  rw [Json.readAll, h s rest hwritten]
  exact if_pos hrest

end ChunkedStorage.Json
