import Mathlib.Data.ENat.Lattice
import ChunkedStorage.Proofs.Rehearsal

/-!
# Attempts to open a chunk

A chunk is tried until an attempt opens it or finds no object, but not more often than the policy allows.  What each
attempt does is listed by `Backend.Attempted`; how many there are, what they wait for and what the last one settles is
`Backend.openChunk_attempts`.
-/

namespace ChunkedStorage

variable {σ β : Type}

/-! ### Pauses -/

/-- As long as a backoff lasts it gives the pauses of its policy in order. -/
theorem Backoff.take_eq (p : RetryPolicy) {given limit : Nat} (h : given + limit ≤ p.retries) :
    (take limit ⟨p, given⟩).1 = (List.range' (given + 1) limit).map p.delay := by
  induction limit generalizing given with
  | zero => rfl
  | succ limit ih =>
    have hgoing : given < p.retries := by omega
    have hnext : (⟨p, given⟩ : Backoff).next? = some (p.delay (given + 1), ⟨p, given + 1⟩) := if_pos hgoing
    simp only [take, hnext, List.range'_succ, List.map_cons, ih (show given + 1 + limit ≤ p.retries by omega)]

namespace Backend

/-- Whether an attempt leaves it open if the chunk can be opened: it fails, but not for want of an object. -/
def unsettled : Reply (Except AttemptFault β) → Bool
  | .done (.error (.resolution _)) | .done (.error (.opening _)) => true
  | _ => false

/-- What the opening of a chunk comes to with its last attempt. -/
def verdict (c : Chunk) (s : Span) (attempts : Nat) (answer : Reply (Except AttemptFault β)) :
    Reply (Except Failure β) :=
  answer.map fun opened => opened.mapError fun fault => fault.failure c.index attempts s

section

variable (b : Backend σ β) (ref : String) (s : Span)

/-! ### Single attempts -/

/-- What an attempt does, what it notes and what it comes to.  Each one asks for a location of its own, and opens the
span there, if at all, as long as the location has not expired. -/
inductive Attempted (world : σ) : List Exchange → Reply (Except AttemptFault β) × σ → Prop where
  | unresolved {cause : Cause} {world' : σ} (hresolve : b.resolve ref world = (.done (.error cause), world')) :
      Attempted world [.resolved ref (.done (.error cause))] (.done (.error (.resolution cause)), world')
  | missing {world' : σ} (hresolve : b.resolve ref world = (.done (.ok none), world')) :
      Attempted world [.resolved ref (.done (.ok none))] (.done (.error .missing), world')
  | expired {location : AccessLocation} {world' : σ}
      (hresolve : b.resolve ref world = (.done (.ok (some location)), world'))
      (hexpired : location.isExpiredAt (b.now world') = true) :
      Attempted world [.resolved ref (.done (.ok (some location)))]
        (.done (.error (.resolution (.stated s!"location for {ref} already expired"))), world')
  | refused {location : AccessLocation} {fault : TransferFault} {world₁ world' : σ}
      (hresolve : b.resolve ref world = (.done (.ok (some location)), world₁))
      (hvalid : location.isExpiredAt (b.now world₁) = false)
      (hopen : b.openBody location s world₁ = (.done (.error fault), world')) :
      Attempted world [.resolved ref (.done (.ok (some location))), .opened location s (.done (.error fault))]
        (.done (.error (.opening fault)), world')
  | opened {location : AccessLocation} {body : β} {world₁ world' : σ}
      (hresolve : b.resolve ref world = (.done (.ok (some location)), world₁))
      (hvalid : location.isExpiredAt (b.now world₁) = false)
      (hopen : b.openBody location s world₁ = (.done (.ok body), world')) :
      Attempted world [.resolved ref (.done (.ok (some location))), .opened location s (.done (.ok ()))]
        (.done (.ok body), world')
  /-- The object is closed while its location is resolved. -/
  | resolveAbandoned {world' : σ} (hresolve : b.resolve ref world = (.abandoned, world')) :
      Attempted world [.resolved ref .abandoned] (.abandoned, world')
  /-- The object is closed while it is opened. -/
  | openAbandoned {location : AccessLocation} {world₁ world' : σ}
      (hresolve : b.resolve ref world = (.done (.ok (some location)), world₁))
      (hvalid : location.isExpiredAt (b.now world₁) = false)
      (hopen : b.openBody location s world₁ = (.abandoned, world')) :
      Attempted world [.resolved ref (.done (.ok (some location))), .opened location s .abandoned] (.abandoned, world')

/-- What an attempt notes. -/
def attemptNotes (world : σ) : List Exchange := (b.noting.attempt ref s (world, [])).2.2

theorem attempted (world : σ) : Attempted b ref s world (b.attemptNotes ref s world) (b.attempt ref s world) := by
  unfold attemptNotes
  rcases hresolve : b.resolve ref world with ⟨(cause | (_ | location)) | _, world₁⟩
  · simpa [attempt, noting, hresolve] using .unresolved hresolve
  · simpa [attempt, noting, hresolve] using .missing hresolve
  · cases hexpired : location.isExpiredAt (b.now world₁) with
    | true => simpa [attempt, noting, hresolve, hexpired] using .expired hresolve hexpired
    | false =>
      rcases hopen : b.openBody location s world₁ with ⟨(fault | body) | _, world₂⟩
      · simpa [attempt, noting, hresolve, hexpired, hopen] using .refused hresolve hexpired hopen
      · simpa [attempt, noting, hresolve, hexpired, hopen] using .opened hresolve hexpired hopen
      · simpa [attempt, noting, hresolve, hexpired, hopen] using .openAbandoned hresolve hexpired hopen
  · simpa [attempt, noting, hresolve] using .resolveAbandoned hresolve

/-- Noting changes nothing about an attempt, and adds to the notes what the attempt notes by itself. -/
private theorem attempt_notes (world : σ) (notes : List Exchange) :
    b.noting.attempt ref s (world, notes) =
      ((b.attempt ref s world).1, (b.attempt ref s world).2, notes ++ b.attemptNotes ref s world) := by
  unfold attemptNotes
  rcases hresolve : b.resolve ref world with ⟨(cause | (_ | location)) | _, world₁⟩
  · simp [attempt, noting, hresolve]
  · simp [attempt, noting, hresolve]
  · cases hexpired : location.isExpiredAt (b.now world₁) with
    | true => simp [attempt, noting, hresolve, hexpired]
    | false =>
      rcases hopen : b.openBody location s world₁ with ⟨(fault | body) | _, world₂⟩ <;>
        simp [attempt, noting, hresolve, hexpired, hopen]
  · simp [attempt, noting, hresolve]

/-! ### Rows of attempts -/

/-- The world after the pause that follows an attempt; `made` attempts were made before it. -/
def rested (made : Nat) : Reply (Except AttemptFault β) × σ → σ
  | (.done (.error fault), world) => b.pause (b.policy.delay (made + 1)) (b.count fault.counter 1 world)
  | (_, world) => b.pause (b.policy.delay (made + 1)) world

/-- The world of attempt `i`, counted from zero, if the attempts before it leave the matter unsettled. -/
def worldOf : (made i : Nat) → σ → σ
  | _, 0, world => world
  | made, i + 1, world => worldOf (made + 1) i (b.rested made (b.attempt ref s world))

/-- What attempt `i` comes to. -/
def trial (world : σ) (i : Nat) : Reply (Except AttemptFault β) × σ := b.attempt ref s (b.worldOf ref s 0 i world)

/-- What attempt `i` notes. -/
def trialNotes (world : σ) (i : Nat) : List Exchange := b.attemptNotes ref s (b.worldOf ref s 0 i world)

/-- The number of the first attempt that settles the matter, if there is one. -/
noncomputable def settledBy (world : σ) : ℕ∞ := ⨅ (i : ℕ) (_ : unsettled (b.trial ref s world i).1 = false), (i + 1 : ℕ)

/-- An attempt that settles the matter, or that no other may follow, is the last one. -/
private theorem openFrom_last {c : Chunk} {retries : Nat} {world : σ}
    (h : retries = 0 ∨ unsettled (b.attempt c.remoteRef s world).1 = false) (made : Nat) (notes : List Exchange) :
    b.noting.openFrom c s retries made (world, notes) =
      (verdict c s (made + 1) (b.attempt c.remoteRef s world).1, (b.attempt c.remoteRef s world).2,
        notes ++ b.attemptNotes c.remoteRef s world) := by
  unfold openFrom
  rw [attempt_notes]
  rcases hattempt : b.attempt c.remoteRef s world with ⟨((cause | _ | fault) | body) | _, world₁⟩
  case done.error.missing | done.ok | abandoned => rfl
  all_goals
    rcases h with rfl | h
    · rfl
    · simp [hattempt, unsettled] at h

/-- After any other attempt there is a pause, and then the next one. -/
private theorem openFrom_again {c : Chunk} {world : σ} (h : unsettled (b.attempt c.remoteRef s world).1 = true)
    (retries made : Nat) (notes : List Exchange) :
    b.noting.openFrom c s (retries + 1) made (world, notes) =
      b.noting.openFrom c s retries (made + 1) (b.rested made (b.attempt c.remoteRef s world),
        notes ++ b.attemptNotes c.remoteRef s world ++ [.paused (b.policy.delay (made + 1))]) := by
  conv => lhs; unfold openFrom
  rw [attempt_notes]
  rcases hattempt : b.attempt c.remoteRef s world with ⟨((cause | _ | fault) | body) | _, world₁⟩
  case done.error.resolution | done.error.opening => rfl
  all_goals simp [hattempt, unsettled] at h

/-- The opening of a chunk is a row of attempts, all but the last of which leave the matter unsettled. -/
private theorem openFrom_attempts (c : Chunk) (retries made : Nat) (world : σ) (notes : List Exchange) :
    ∃ last ≤ retries,
      (∀ i < last, unsettled (b.attempt c.remoteRef s (b.worldOf c.remoteRef s made i world)).1 = true) ∧
      (last < retries → unsettled (b.attempt c.remoteRef s (b.worldOf c.remoteRef s made last world)).1 = false) ∧
      b.noting.openFrom c s retries made (world, notes) =
        (verdict c s (made + last + 1) (b.attempt c.remoteRef s (b.worldOf c.remoteRef s made last world)).1,
          (b.attempt c.remoteRef s (b.worldOf c.remoteRef s made last world)).2,
          notes ++ b.attemptNotes c.remoteRef s world ++ (List.range last).flatMap fun i =>
            .paused (b.policy.delay (made + i + 1)) ::
              b.attemptNotes c.remoteRef s (b.worldOf c.remoteRef s made (i + 1) world)) := by
  induction retries generalizing made world notes with
  | zero =>
    refine ⟨0, Nat.le_refl _, by simp, by simp, ?_⟩
    rw [openFrom_last b s (.inl rfl)]
    simp [worldOf]
  | succ retries ih =>
    cases hunsettled : unsettled (b.attempt c.remoteRef s world).1 with
    | false =>
      refine ⟨0, Nat.zero_le _, by simp, fun _ => hunsettled, ?_⟩
      rw [openFrom_last b s (.inr hunsettled)]
      simp [worldOf]
    | true =>
      obtain ⟨last, hlast, hbefore, hsettled, hopen⟩ := ih (made + 1) (b.rested made (b.attempt c.remoteRef s world))
        (notes ++ b.attemptNotes c.remoteRef s world ++ [.paused (b.policy.delay (made + 1))])
      refine ⟨last + 1, Nat.succ_le_succ hlast, ?_, ?_, ?_⟩
      · intro i hi
        cases i with
        | zero => exact hunsettled
        | succ i => exact hbefore i (by omega)
      · intro hretries
        exact hsettled (by omega)
      · have hcount (i : Nat) : made + 1 + i + 1 = made + (i + 1) + 1 := by omega
        rw [openFrom_again b s hunsettled, hopen, List.range_succ_eq_map, List.flatMap_cons, List.flatMap_map]
        simp only [worldOf, hcount, List.append_assoc, List.cons_append, List.nil_append, Nat.add_zero]

/-! ### Whole openings -/

private theorem coe_eq_min_settledBy {ref : String} {world : σ} {last limit : Nat} (hlast : last < limit)
    (hbefore : ∀ i < last, unsettled (b.trial ref s world i).1 = true)
    (hsettled : last + 1 < limit → unsettled (b.trial ref s world last).1 = false) :
    ((last + 1 : ℕ) : ℕ∞) = min (b.settledBy ref s world) limit := by
  have hle : ((last + 1 : ℕ) : ℕ∞) ≤ b.settledBy ref s world := by
    refine le_iInf₂ ?_
    intro i hi
    have : ¬ i < last := fun hlt => by simp [hbefore i hlt] at hi
    exact Nat.cast_le.2 (by omega)
  by_cases hend : last + 1 < limit
  · have heq : b.settledBy ref s world = (last + 1 : ℕ) := le_antisymm (iInf₂_le last (hsettled hend)) hle
    rw [heq, min_eq_left (Nat.cast_le.2 (Nat.le_of_lt hend))]
  · have hsame : last + 1 = limit := by omega
    rw [hsame] at hle ⊢
    exact (min_eq_right hle).symm

end

/-- A chunk is tried until an attempt settles whether it can be opened, but only as often as the policy allows; the
pauses between the attempts are those of the policy, one after the other.  It is opened, or has no object, if the last
attempt says so; otherwise the failure is that of the last attempt, which is then the last one that is allowed. -/
theorem openChunk_attempts (b : Backend σ β) (c : Chunk) (s : Span) (world : σ) :
    ∃ made : Nat, 0 < made ∧
      (made : ℕ∞) = min (b.settledBy c.remoteRef s world) (max b.policy.maxAttempts 1 : ℕ) ∧
      (∀ i < made, Attempted b c.remoteRef s (b.worldOf c.remoteRef s 0 i world) (b.trialNotes c.remoteRef s world i)
        (b.trial c.remoteRef s world i)) ∧
      (b.noting.openChunk c s (world, [])).2.2 = b.trialNotes c.remoteRef s world 0 ++
        (List.range (made - 1)).flatMap (fun i =>
          .paused (b.policy.delay (i + 1)) :: b.trialNotes c.remoteRef s world (i + 1)) ∧
      (Backoff.take (made - 1) (.ofPolicy b.policy)).1 = (List.range' 1 (made - 1)).map b.policy.delay ∧
      (∀ i, (b.policy.delay i).nanos = min (b.policy.baseDelay.nanos * min i (2 ^ 32 - 1)) Duration.longest.nanos) ∧
      b.openChunk c s world =
        (match (b.trial c.remoteRef s world (made - 1)).1 with
          | .done (.ok body) => .done (.ok body)
          | .done (.error .missing) => .done (.error (.missingObject c.index))
          | .done (.error (.resolution cause)) =>
            .done (.error (.resolution c.index (max b.policy.maxAttempts 1) cause))
          | .done (.error (.opening fault)) =>
            .done (.error (.opening c.index (max b.policy.maxAttempts 1) s.start s.stop fault))
          | .abandoned => .abandoned, (b.trial c.remoteRef s world (made - 1)).2) := by
  have hlimit : max b.policy.maxAttempts 1 = b.policy.retries + 1 := by
    simp only [RetryPolicy.retries]
    omega
  obtain ⟨last, hlast, hbefore, hsettled, hopen⟩ := b.openFrom_attempts s c b.policy.retries 0 world []
  obtain ⟨_, _, hnoting, -⟩ := b.openChunk_noting c s world []
  have hsame : b.openChunk c s world =
      (verdict c s (last + 1) (b.trial c.remoteRef s world last).1, (b.trial c.remoteRef s world last).2) := by
    have hanswer := congrArg (fun out => (out.1, out.2.1)) (hnoting.symm.trans hopen)
    simpa [trial] using hanswer
  refine ⟨last + 1, Nat.succ_pos last, ?_, fun i _ => b.attempted c.remoteRef s _, ?_, ?_, fun _ => rfl, ?_⟩
  · rw [hlimit]
    exact b.coe_eq_min_settledBy s (by omega) hbefore fun hlt => hsettled (by omega)
  · rw [openChunk, show b.noting.policy = b.policy from rfl, hopen]
    simp [trialNotes, worldOf]
  · rw [Nat.add_sub_cancel]
    exact Backoff.take_eq b.policy (by omega)
  · rw [hsame, Nat.add_sub_cancel, hlimit]
    -- only the last attempt that is allowed leaves the matter unsettled
    have hend (h : unsettled (b.trial c.remoteRef s world last).1 = true) : last = b.policy.retries := by
      by_contra hne
      have := hsettled (by omega)
      rw [trial] at h
      rw [h] at this
      cases this
    rcases hanswer : (b.trial c.remoteRef s world last).1 with ((cause | _ | fault) | body) | _
    case done.error.resolution | done.error.opening => rw [← hend (by rw [hanswer]; rfl)]; rfl
    all_goals rfl

theorem openChunk_attempts_noneAllowed :
    let b := Rehearsal.backend 0 ⟨0, .ofSeconds 1, 3⟩
    let c : Chunk := ⟨4, 0, 16, "front", "", false⟩
    let world : Rehearsal := { resolveFaults := [("front", [some (.stated "down"), none])] }
    (b.noting.openChunk c ⟨2, 9⟩ (world, [])).2.2 = [.resolved "front" (.done (.error (.stated "down")))] ∧
      (b.openChunk c ⟨2, 9⟩ world).1 = .done (.error (.resolution 4 1 (.stated "down"))) := by
  intro b c world
  obtain ⟨made, hpositive, hmade, -, hnotes, -, -, hopen⟩ := openChunk_attempts b c ⟨2, 9⟩ world
  obtain rfl : made = 1 := by
    have : (made : ℕ∞) ≤ (1 : ℕ) := hmade.trans_le (min_le_right _ _)
    have := Nat.cast_le.1 this
    omega
  rw [hnotes, hopen]
  exact ⟨rfl, rfl⟩

end Backend

end ChunkedStorage
