import ChunkedStorage.Proofs.ObjectDirectory
import Mathlib.Data.List.Induction

/-!
# Honest directories

A directory is honest if its objects hash to their names.  It stays so whatever is stored in it, by calls that succeed
or fail (`ObjectDirectory.Usable.honest_after`), and what each call of a run comes to depends on nothing but what its
body delivers (`ObjectDirectory.next_intact`).  A directory that has the name of an object is taken for the object
(`ObjectDirectory.next_not_intact`).
-/

namespace ChunkedStorage

/-- A call to store an object.  The system hands over at most `grant` bytes of a file at once. -/
structure StoreRequest where
  grant : Nat
  upload : ChunkUpload

namespace StoreRequest

/-- The body is read up to its end, and makes the given bytes. -/
def Delivers (request : StoreRequest) (d : Disk) (bytes : Bytes) : Prop :=
  request.upload.body.Delivers d request.grant ObjectDirectory.copySize bytes

/-- A read of the body fails. -/
def Breaks (request : StoreRequest) (d : Disk) (fault : TransferFault) : Prop :=
  request.upload.body.Breaks d request.grant ObjectDirectory.copySize fault

/-- The body makes the given bytes, as many as were announced. -/
structure Accepts (request : StoreRequest) (d : Disk) (bytes : Bytes) : Prop where
  delivers : request.Delivers d bytes
  length : bytes.length = request.upload.length

end StoreRequest

namespace ObjectDirectory

variable {o : ObjectDirectory} {d d' : Disk} {here : Path} {bytes : Bytes} {requests : List StoreRequest}
variable {request : StoreRequest}

def answer (o : ObjectDirectory) (d : Disk) (request : StoreRequest) : Except ObjectFault StoredObject :=
  (o.store d request.grant request.upload).1

def next (o : ObjectDirectory) (d : Disk) (request : StoreRequest) : Disk :=
  (o.store d request.grant request.upload).2.2

/-- The disk after some calls. -/
def after (o : ObjectDirectory) (d : Disk) (requests : List StoreRequest) : Disk := requests.foldl o.next d

theorem after_append (front back : List StoreRequest) : o.after d (front ++ back) = o.after (o.after d front) back :=
  List.foldl_append ..

theorem after_concat (front : List StoreRequest) :
    o.after d (front ++ [request]) = o.next (o.after d front) request := after_append front [request]

/-! ### Honesty -/

/-- Every file of the directory that is named by a digest has bytes of that digest. -/
def Honest (d : Disk) (here : Path) : Prop :=
  ∀ name number, Sha256.IsDigest name → d.entry? (here ++ [name]) = some (.file number) →
    Sha256.hex (d.content number) = name

theorem Honest.of_sameFiles (h : Honest d here) (hsame : d.SameFiles d') : Honest d' here := by
  intro name number hname hentry
  rw [hsame.files] at hentry
  rw [hsame.contents _ _ hentry]
  exact h name number hname hentry

theorem Honest.gains (h : Honest d here) (hgains : d.Gains d' (here ++ [Sha256.hex bytes]) bytes) : Honest d' here := by
  intro name number hname hentry
  rcases hgains.entry?_cases hentry with ⟨htarget, _, -, hfile, hcontent⟩ | hold
  · cases hfile
    rw [hcontent]
    simpa using htarget.symm
  · rw [hgains.contents _ _ hold]
    exact h name number hname hold

/-! ### One call -/

namespace Stores

variable {grant : Nat} {upload : ChunkUpload} {stored : Except ObjectFault StoredObject}

theorem preserves (h : o.Stores d here grant upload stored d') : d.Preserves d' := by
  cases h with
  | unread _ hsame | short _ _ hsame | found _ _ _ hsame => exact hsame.preserves
  | added _ _ hgains => exact hgains.preserves

theorem sound (h : o.Stores d here grant upload stored d') (hd : d.Sound) : d'.Sound := by
  cases h with
  | unread _ hsame | short _ _ hsame | found _ _ _ hsame => exact hsame.sound hd
  | added _ _ hgains => exact hgains.sound hd

theorem honest (h : o.Stores d here grant upload stored d') (hd : Honest d here) : Honest d' here := by
  cases h with
  | unread _ hsame | short _ _ hsame | found _ _ _ hsame => exact hd.of_sameFiles hsame.sameFiles
  | added _ _ hgains => exact hd.gains hgains

/-- No directory is made but the one of the objects and those above it. -/
theorem directories (h : o.Stores d here grant upload stored d') {p : Path} (hentry : d'.entry? p = some .directory) :
    d.entry? p = some .directory := by
  cases h with
  | unread _ hsame | short _ _ hsame | found _ _ _ hsame => rwa [hsame.entries] at hentry
  | added _ _ hgains =>
    rcases hgains.entry?_cases hentry with ⟨-, _, -, hfile, -⟩ | hold
    · cases hfile
    · exact hold

end Stores

/-- The disk with the directory, which every call makes first. -/
def opened (o : ObjectDirectory) (d : Disk) : Disk := (d.makeDirectories o.root).2

theorem extends_opened (o : ObjectDirectory) (d : Disk) : d.Extends (o.opened d) := .of_makeDirectories d o.root

theorem content_opened (o : ObjectDirectory) (d : Disk) (number : Nat) :
    (o.opened d).content number = d.content number := by
  rw [Disk.content, Disk.content, (o.extends_opened d).contents]

/-- The operations on files work: the directory can be made, and there is room for the names in it. -/
structure Usable (o : ObjectDirectory) (d : Disk) (here : Path) : Prop where
  room : o.HasRoom
  sound : d.Sound
  made : (d.makeDirectories o.root).1 = .ok ()
  leads : (o.opened d).Leads o.root here

namespace Usable

theorem stores (h : o.Usable d here) (request : StoreRequest) :
    o.Stores (o.opened d) here request.grant request.upload (o.answer d request) (o.next d request) :=
  stores_store h.room (Prod.ext h.made rfl) ((o.extends_opened d).sound h.sound) h.leads request.grant request.upload

/-- After a call the directory is there. -/
theorem leads_next (h : o.Usable d here) (request : StoreRequest) : (o.next d request).Leads o.root here :=
  h.leads.mono fun p hp => (h.stores request).preserves.entries p _ hp

theorem opened_next (h : o.Usable d here) (request : StoreRequest) :
    o.opened (o.next d request) = o.next d request := by
  rw [opened, (h.leads_next request).makeDirectories]

theorem next (h : o.Usable d here) (request : StoreRequest) : o.Usable (o.next d request) here where
  room := h.room
  sound := (h.stores request).sound ((o.extends_opened d).sound h.sound)
  made := by rw [(h.leads_next request).makeDirectories]
  leads := by
    rw [h.opened_next]
    exact h.leads_next request

theorem preserves_next (h : o.Usable d here) (request : StoreRequest) : d.Preserves (o.next d request) :=
  (o.extends_opened d).preserves.trans (h.stores request).preserves

theorem honest_next (h : o.Usable d here) (hd : Honest d here) (request : StoreRequest) :
    Honest (o.next d request) here := (h.stores request).honest (hd.of_sameFiles (o.extends_opened d).sameFiles)

/-! ### Runs -/

theorem after (h : o.Usable d here) (requests : List StoreRequest) : o.Usable (o.after d requests) here := by
  induction requests generalizing d with
  | nil => exact h
  | cons request rest ih => exact ih (h.next request)

theorem honest_after (h : o.Usable d here) (hd : Honest d here) (requests : List StoreRequest) :
    Honest (o.after d requests) here := by
  induction requests generalizing d with
  | nil => exact hd
  | cons request rest ih => exact ih (h.next request) (h.honest_next hd request)

theorem preserves_after (h : o.Usable d here) (requests : List StoreRequest) : d.Preserves (o.after d requests) := by
  induction requests generalizing d with
  | nil => exact .refl d
  | cons request rest ih => exact (h.preserves_next request).trans (ih (h.next request))

/-- A call makes no directory but its own. -/
theorem directory_next_iff (h : o.Usable d here) {p : Path} :
    Disk.entry? (o.next d request) p = some .directory ↔ Disk.entry? (o.opened d) p = some .directory :=
  ⟨(h.stores request).directories, (h.stores request).preserves.entries p _⟩

theorem directory_after_iff (h : o.Usable d here) {p : Path} :
    Disk.entry? (o.opened (o.after d requests)) p = some .directory ↔
      Disk.entry? (o.opened d) p = some .directory := by
  induction requests generalizing d with
  | nil => rfl
  | cons request rest ih =>
    refine (ih (h.next request)).trans ?_
    rw [h.opened_next, h.directory_next_iff]

end Usable

/-- The contents that a run is about: those of the objects that are there before it, and those that it stores. -/
inductive Involved (o : ObjectDirectory) (d : Disk) (here : Path) (requests : List StoreRequest) : Bytes → Prop where
  | initial {name : String} {number : Nat} (hname : Sha256.IsDigest name)
      (hentry : d.entry? (here ++ [name]) = some (.file number)) : Involved o d here requests (d.content number)
  | accepted {front back : List StoreRequest} {request : StoreRequest} {bytes : Bytes}
      (hsplit : requests = front ++ request :: back) (haccepts : request.Accepts (o.after d front) bytes) :
      Involved o d here requests bytes

theorem Involved.append (h : o.Involved d here requests bytes) (more : List StoreRequest) :
    o.Involved d here (requests ++ more) bytes := by
  cases h with
  | initial hname hentry => exact .initial hname hentry
  | accepted hsplit haccepts => exact .accepted (by rw [hsplit, List.append_assoc, List.cons_append]) haccepts

namespace Usable

/-- Whatever stands in a file under the name of a digest, the run is about it. -/
theorem involved (h : o.Usable d here) {name : String} {number : Nat} (hname : Sha256.IsDigest name)
    (hentry : Disk.entry? (o.after d requests) (here ++ [name]) = some (.file number)) :
    o.Involved d here requests ((o.after d requests).content number) := by
  induction requests using List.reverseRecOn generalizing name number with
  | nil => exact .initial hname hentry
  | append_singleton front request ih =>
    rw [after_concat] at hentry ⊢
    have hopened := (o.extends_opened (o.after d front)).sameFiles
    have hstores := (h.after front).stores request
    -- a file that was there before the last call has the bytes that it had
    have hold : Disk.entry? (o.opened (o.after d front)) (here ++ [name]) = some (.file number) →
        o.Involved d here (front ++ [request]) ((o.next (o.after d front) request).content number) := by
      intro hbefore
      rw [hstores.preserves.contents _ _ hbefore]
      rw [hopened.files] at hbefore
      rw [hopened.contents _ _ hbefore]
      exact (ih hname hbefore).append [request]
    generalize o.answer (o.after d front) request = answer at hstores
    cases hstores with
    | unread _ hsame | short _ _ hsame | found _ _ _ hsame =>
      rw [hsame.entries] at hentry
      exact hold hentry
    | added hdelivers hlength hgains =>
      rcases hgains.entry?_cases hentry with ⟨-, _, -, hfile, hcontent⟩ | hbefore
      · cases hfile
        rw [hcontent]
        exact .accepted rfl ⟨hdelivers.of_contents fun number => (o.content_opened _ number).symm, hlength⟩
      · exact hold hbefore

/-! ### What a call comes to -/

/-- What is accepted is there afterwards, under its digest, and is new unless there was something of that name. -/
theorem stored (h : o.Usable d here) (haccepts : request.Accepts d bytes) :
    o.answer d request = .ok ⟨Sha256.hex bytes, Sha256.hex bytes⟩ ∧
      (Disk.entry? (o.opened d) (here ++ [Sha256.hex bytes]) ≠ none ∧ (o.opened d).Same (o.next d request) ∨
        (o.opened d).Gains (o.next d request) (here ++ [Sha256.hex bytes]) bytes) := by
  have hdelivers := haccepts.delivers.of_contents (o.content_opened d)
  have hstores := h.stores request
  generalize o.answer d request = answer at hstores ⊢
  cases hstores with
  | unread hbreaks => exact absurd hdelivers hbreaks.not_delivers
  | short hdelivers' hlength =>
    rw [← hdelivers.unique hdelivers'] at hlength
    exact absurd haccepts.length hlength
  | found hdelivers' _ htaken hsame =>
    obtain rfl := hdelivers.unique hdelivers'
    exact ⟨rfl, .inl ⟨htaken, hsame⟩⟩
  | added hdelivers' _ hgains =>
    obtain rfl := hdelivers.unique hdelivers'
    exact ⟨rfl, .inr hgains⟩

theorem broken (h : o.Usable d here) {fault : TransferFault} (hbreaks : request.Breaks d fault) :
    o.answer d request = .error (.readBody request.upload.index fault) := by
  have hbreaks := hbreaks.of_contents (o.content_opened d)
  have hstores := h.stores request
  generalize o.answer d request = answer at hstores ⊢
  cases hstores with
  | unread hbreaks' => rw [hbreaks.unique hbreaks']
  | short hdelivers | found hdelivers | added hdelivers => exact absurd hdelivers hbreaks.not_delivers

theorem short (h : o.Usable d here) (hdelivers : request.Delivers d bytes)
    (hlength : bytes.length ≠ request.upload.length) :
    o.answer d request = .error (.shortBody request.upload.index request.upload.length bytes.length) := by
  have hdelivers := hdelivers.of_contents (o.content_opened d)
  have hstores := h.stores request
  generalize o.answer d request = answer at hstores ⊢
  cases hstores with
  | unread hbreaks => exact absurd hdelivers hbreaks.not_delivers
  | short hdelivers' => rw [hdelivers.unique hdelivers']
  | found hdelivers' hlength' | added hdelivers' hlength' =>
    rw [← hdelivers.unique hdelivers'] at hlength'
    exact absurd hlength' hlength

theorem failed (h : o.Usable d here) {fault : ObjectFault} (hanswer : o.answer d request = .error fault) :
    d.SameFiles (o.next d request) := by
  have hstores := h.stores request
  rw [hanswer] at hstores
  cases hstores with
  | unread _ hsame | short _ _ hsame => exact (o.extends_opened d).sameFiles.trans hsame.sameFiles

theorem accepted (h : o.Usable d here) {stored : StoredObject} (hanswer : o.answer d request = .ok stored) :
    ∃ bytes, request.Accepts d bytes := by
  have hstores := h.stores request
  rw [hanswer] at hstores
  cases hstores with
  | found hdelivers hlength | added hdelivers hlength =>
    exact ⟨_, hdelivers.of_contents fun number => (o.content_opened d number).symm, hlength⟩

/-- Something stands under the digest of what was accepted. -/
theorem taken (h : o.Usable d here) (haccepts : request.Accepts d bytes) :
    ∃ entry, Disk.entry? (o.next d request) (here ++ [Sha256.hex bytes]) = some entry := by
  obtain ⟨-, ⟨htaken, hsame⟩ | hgains⟩ := h.stored haccepts
  · rw [hsame.entries]
    exact Option.ne_none_iff_exists'.1 htaken
  · obtain ⟨number, -, -, hentries⟩ := hgains.gained
    exact ⟨_, by rw [hentries, if_pos rfl]⟩

/-- Nothing is added for bytes whose digest names something already. -/
theorem sameFiles_of_entry (h : o.Usable d here) (haccepts : request.Accepts d bytes)
    (htaken : d.entry? (here ++ [Sha256.hex bytes]) ≠ none) : d.SameFiles (o.next d request) := by
  obtain ⟨entry, hentry⟩ := Option.ne_none_iff_exists'.1 htaken
  obtain ⟨-, ⟨-, hsame⟩ | hgains⟩ := h.stored haccepts
  · exact (o.extends_opened d).sameFiles.trans hsame.sameFiles
  · have hfree := hgains.free
    rw [(o.extends_opened d).kept _ _ hentry] at hfree
    cases hfree

theorem files_next (h : o.Usable d here) (haccepts : request.Accepts d bytes) (p : Path) (number : Nat)
    (hfile : Disk.entry? (o.next d request) p = some (.file number)) :
    d.entry? p = some (.file number) ∨ p = here ++ [Sha256.hex bytes] := by
  obtain ⟨-, ⟨-, hsame⟩ | hgains⟩ := h.stored haccepts
  · rw [hsame.entries] at hfile
    exact .inl ((o.extends_opened d).files p number hfile)
  · rcases hgains.entry?_cases hfile with ⟨htarget, -⟩ | hbefore
    · exact .inr htarget
    · exact .inl ((o.extends_opened d).files p number hbefore)

/-- What is accepted can be read back under its digest, unless a directory was there. -/
private theorem contentAt_next (h : o.Usable d here) (hhonest : Honest d here)
    (haccepts : request.Accepts (o.after d requests) bytes)
    (hdistinct : ∀ a b, o.Involved d here (requests ++ [request]) a → o.Involved d here (requests ++ [request]) b →
      Sha256.hex a = Sha256.hex b → a = b) :
    (o.next (o.after d requests) request).contentAt (o.objectPath (Sha256.hex bytes)) =
      if Disk.entry? (o.opened d) (here ++ [Sha256.hex bytes]) = some .directory then
        .error (.os IoFault.isDirectoryCode)
      else .ok bytes := by
  have hdigest := Sha256.isDigest_hex bytes
  have hafter := h.after requests
  obtain ⟨entry, hentry⟩ := hafter.taken haccepts
  have hopen := (hafter.leads_next request).openEntry_join hdigest.isPlain (h.room.hex bytes) hentry
  unfold Disk.contentAt objectPath
  rw [hopen]
  -- a directory of that name was there from the first
  have hdirectory : Disk.entry? (o.opened d) (here ++ [Sha256.hex bytes]) = some .directory ↔ entry = .directory := by
    rw [← h.directory_after_iff, ← hafter.directory_next_iff, hentry, Option.some.injEq]
  cases entry with
  | directory => rw [if_pos (hdirectory.2 rfl)]
  | file number =>
    rw [if_neg (mt hdirectory.1 (by simp))]
    have hhex := hafter.honest_next (h.honest_after hhonest requests) request _ number hdigest hentry
    rw [← after_concat] at hentry
    have hinvolved := h.involved hdigest hentry
    rw [after_concat] at hinvolved
    have hbytes := hdistinct _ bytes hinvolved (.accepted rfl haccepts) hhex
    simp only [hbytes]

end Usable

/-! ### Whole runs -/

/-- What a call comes to that stores an object, and what the directory `here` is like afterwards. -/
structure Intact (o : ObjectDirectory) (here : Path) (request : StoreRequest) (before : Disk)
    (answer : Except ObjectFault StoredObject) (after : Disk) : Prop where
  honest : Honest before here ∧ Honest after here
  /-- What is there is neither changed nor removed. -/
  preserves : before.Preserves after
  succeeds_iff : (∃ stored, answer = .ok stored) ↔ ∃ bytes, request.Accepts before bytes
  stored : ∀ bytes, request.Accepts before bytes → answer = .ok ⟨Sha256.hex bytes, Sha256.hex bytes⟩
  broken : ∀ fault, request.Breaks before fault → answer = .error (.readBody request.upload.index fault)
  short : ∀ bytes, request.Delivers before bytes → bytes.length ≠ request.upload.length →
    answer = .error (.shortBody request.upload.index request.upload.length bytes.length)
  /-- A call that fails leaves no file behind. -/
  failed : ∀ fault, answer = .error fault → before.SameFiles after
  /-- A call that succeeds leaves no file behind but the object, and not even that if its name is taken. -/
  added : ∀ bytes, request.Accepts before bytes →
    (before.entry? (here ++ [Sha256.hex bytes]) ≠ none → before.SameFiles after) ∧
      ∀ p number, after.entry? p = some (.file number) →
        before.entry? p = some (.file number) ∨ p = here ++ [Sha256.hex bytes]
  /-- An object is located if something stands under its path, be it a file or a directory. -/
  located : ∀ ref location, o.resolve before ref = .ok (some location) ↔
    location = .ofFile (o.objectPath ref) ∧ ∃ entry, before.openEntry (o.objectPath ref) = .ok entry
  /-- As soon as the directory is there, an object is located if its name is taken. -/
  resolved : ∀ ref, Sha256.IsDigest ref → o.resolve after ref =
    .ok (if after.entry? (here ++ [ref]) = none then none else some (.ofFile (o.objectPath ref)))

private theorem Usable.intact (h : o.Usable d here) (hhonest : Honest d here) (request : StoreRequest) :
    o.Intact here request d (o.answer d request) (o.next d request) where
  honest := ⟨hhonest, h.honest_next hhonest request⟩
  preserves := h.preserves_next request
  succeeds_iff := by
    constructor
    · rintro ⟨stored, hanswer⟩
      exact h.accepted hanswer
    · rintro ⟨bytes, haccepts⟩
      exact ⟨_, (h.stored haccepts).1⟩
  stored := fun _ haccepts => (h.stored haccepts).1
  broken := fun _ hbreaks => h.broken hbreaks
  short := fun _ hdelivers hlength => h.short hdelivers hlength
  failed := fun _ hanswer => h.failed hanswer
  added := fun _ haccepts => ⟨h.sameFiles_of_entry haccepts, h.files_next haccepts⟩
  located := fun _ _ => resolve_eq_some_iff
  resolved := by
    intro ref href
    have hexists := (h.leads_next request).exists_join href.isPlain (h.room.digest href)
    unfold resolve objectPath
    rw [hexists]
    cases Disk.entry? (o.next d request) (here ++ [ref]) <;> rfl

/-- Calls keep a directory honest that is so at first, whatever they bring.  What is stored is found under its digest
from then on, if no two contents involved have the same digest, and is not stored again.  A directory that had the name
before is left in its place, and then there is no object to read. -/
theorem next_intact (h : o.Usable d here) (hhonest : Honest d here) (requests : List StoreRequest)
    (request : StoreRequest) :
    let before := o.after d requests
    let after := o.next before request
    o.Intact here request before (o.answer before request) after ∧
      (∀ bytes, request.Accepts before bytes →
        (∀ a b, o.Involved d here (requests ++ [request]) a → o.Involved d here (requests ++ [request]) b →
          Sha256.hex a = Sha256.hex b → a = b) →
        after.contentAt (o.objectPath (Sha256.hex bytes)) =
          if Disk.entry? (o.opened d) (here ++ [Sha256.hex bytes]) = some .directory then
            .error (.os IoFault.isDirectoryCode)
          else .ok bytes) ∧
      ∀ front earlier back bytes, requests = front ++ earlier :: back → earlier.Accepts (o.after d front) bytes →
        request.Accepts before bytes → before.SameFiles after := by
  intro before after
  refine ⟨(h.after requests).intact (h.honest_after hhonest requests) request, ?_, ?_⟩
  · intro bytes haccepts hdistinct
    exact h.contentAt_next hhonest haccepts hdistinct
  · rintro front earlier back bytes rfl hearlier haccepts
    obtain ⟨entry, hentry⟩ := (h.after front).taken hearlier
    have hback := ((h.after front).next earlier).preserves_after back
    have hbefore : before = o.after (o.next (o.after d front) earlier) back := after_append front (earlier :: back)
    refine (h.after _).sameFiles_of_entry haccepts ?_
    rw [← show before = o.after d (front ++ earlier :: back) from rfl, hbefore, hback.entries _ _ hentry]
    exact Option.some_ne_none entry

/-- A call to store two bytes. -/
def twoSevens : StoreRequest := ⟨1, ⟨0, "f", 2, .memory ⟨[7, 7]⟩, ⟨0, 1⟩⟩⟩

theorem accepts_twoSevens (d : Disk) : twoSevens.Accepts d [7, 7] := ⟨⟨[[7, 7]], .piece rfl (.ended rfl), rfl⟩, rfl⟩

/-- The bytes are stored in an empty directory, and then once more. -/
theorem next_intact_twice :
    let o : ObjectDirectory := ⟨""⟩
    let request := twoSevens
    let before := o.after .empty [request]
    let after := o.next before request
    o.Usable .empty [] ∧ Honest .empty [] ∧
      o.answer before request = .ok ⟨Sha256.hex [7, 7], Sha256.hex [7, 7]⟩ ∧ before.SameFiles after ∧
      after.contentAt (o.objectPath (Sha256.hex [7, 7])) = .ok [7, 7] := by
  intro o request before after
  have husable : o.Usable .empty [] := ⟨show 0 + 1 + 64 < Disk.pathLimit by decide, Disk.sound_empty, rfl,
    Disk.leads_empty _⟩
  have hnone (name : String) : Disk.empty.entry? [name] = none := rfl
  have hhonest : Honest .empty [] := by
    intro name number _ hentry
    simp [hnone] at hentry
  have haccepts (d : Disk) : request.Accepts d [7, 7] := accepts_twoSevens d
  have hsame : ∀ bytes, o.Involved .empty [] ([request] ++ [request]) bytes → bytes = [7, 7] := by
    rintro bytes (⟨-, hentry⟩ | ⟨hsplit, haccepted⟩)
    · simp [hnone] at hentry
    · next front back other =>
      obtain rfl : other = request := by
        have hmem : other ∈ [request] ++ [request] := by simp [hsplit]
        simpa using hmem
      exact haccepted.delivers.unique (haccepts _).delivers
  obtain ⟨hintact, hcontent, hagain⟩ := next_intact husable hhonest [request] request
  refine ⟨husable, hhonest, hintact.stored _ (haccepts before), ?_, ?_⟩
  · exact hagain [] request [] _ rfl (haccepts _) (haccepts before)
  · refine (hcontent _ (haccepts before) ?_).trans (if_neg ?_)
    · intro a b ha hb _
      rw [hsame a ha, hsame b hb]
    · show Disk.empty.entry? [Sha256.hex [7, 7]] ≠ _
      simp [hnone]

/-- A directory stands under the digest of the bytes.  The call succeeds, but there is no object afterwards, and the
directory is located instead of it. -/
theorem next_not_intact :
    let o : ObjectDirectory := ⟨""⟩
    let ref := Sha256.hex [7, 7]
    let d := Disk.empty.addDirectory [ref]
    let request := twoSevens
    let after := o.next d request
    o.Usable d [] ∧ Honest d [] ∧ (∀ bytes, o.Involved d [] [request] bytes → bytes = [7, 7]) ∧
      request.Accepts d [7, 7] ∧ o.answer d request = .ok ⟨ref, ref⟩ ∧
      after.contentAt (o.objectPath ref) = .error (.os IoFault.isDirectoryCode) ∧
      o.resolve after ref = .ok (some (.ofFile (o.objectPath ref))) ∧
      ∀ number, after.openEntry (o.objectPath ref) ≠ .ok (.file number) := by
  intro o ref d request after
  have hentry (p : Path) : d.entry? p = if p = [ref] then some .directory else Disk.empty.entry? p :=
    Disk.entry?_addDirectory _ (by simp) p
  have hfiles (p : Path) (number : Nat) : d.entry? p ≠ some (.file number) := by
    rw [hentry]
    split
    · simp
    · by_cases hp : p = [] <;> simp [Disk.entry?, Disk.empty, hp]
  have husable : o.Usable d [] := ⟨show 0 + 1 + 64 < Disk.pathLimit by decide,
    fun p number hp => absurd hp (hfiles p number), rfl, Disk.leads_empty d⟩
  have haccepts : request.Accepts d [7, 7] := accepts_twoSevens d
  have hdirectory : Disk.entry? after [ref] = some .directory := by
    rw [husable.directory_next_iff, show o.opened d = d from rfl, hentry, if_pos rfl]
  have hopen : after.openEntry (o.objectPath ref) = .ok .directory :=
    (husable.leads_next request).openEntry_join (Sha256.isDigest_hex _).isPlain (husable.room.hex _) hdirectory
  refine ⟨husable, fun name number _ hname => absurd hname (hfiles _ _), ?_, haccepts, (husable.stored haccepts).1,
    by rw [Disk.contentAt, hopen], resolve_eq_some_iff.2 ⟨rfl, _, hopen⟩, by simp [hopen]⟩
  rintro bytes (⟨-, hinitial⟩ | ⟨hsplit, haccepted⟩)
  · exact absurd hinitial (hfiles _ _)
  · next front back other =>
    cases front with
    | nil =>
      obtain rfl : request = other := (List.cons.inj hsplit).1
      exact haccepted.delivers.unique haccepts.delivers
    | cons first front => simp at hsplit

end ObjectDirectory

end ChunkedStorage
