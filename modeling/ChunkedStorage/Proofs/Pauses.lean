import Mathlib.Order.MinMax
import ChunkedStorage.Retry

/-!
# The pauses of a backoff

A backoff gives the pauses of its policy one by one, and nothing from then on (`Backoff.calls_eq`).  The machine holds a
duration in two words, whole seconds and the nanoseconds beyond them, and counts in words as well.  Computed in words,
with the seconds of the nanoseconds carried, the pauses are the same (`Duration.Words.toDuration_times`), so that
none of them overflows and none is shorter than the one before it (`Backoff.calls_exact`).
-/

namespace ChunkedStorage

/-! ### Calls -/

/-- What the first `count` calls of an iterator give; a call that gives nothing leaves it as it is. -/
def calls {α β : Type} (next? : α → Option (β × α)) : (count : Nat) → α → List (Option β)
  | 0, _ => []
  | count + 1, state =>
    match next? state with
    | some (value, state) => some value :: calls next? count state
    | none => none :: calls next? count state

theorem calls_of_none {α β : Type} {next? : α → Option (β × α)} {state : α} (h : next? state = none) (count : Nat) :
    calls next? count state = List.replicate count none := by
  induction count with
  | zero => rfl
  | succ count ih => simp only [calls, h, ih, List.replicate_succ]

/-! ### Durations in words -/

/-- The product of two words, if it is one. -/
def mulWord? (a b : UInt64) : Option UInt64 := if a.toNat * b.toNat < wordLimit then some (a * b) else none

/-- The sum of two words, if it is one. -/
def addWord? (a b : UInt64) : Option UInt64 := if a.toNat + b.toNat < wordLimit then some (a + b) else none

theorem mulWord?_cases (a b : UInt64) :
    mulWord? a b = none ∧ wordLimit ≤ a.toNat * b.toNat ∨
      ∃ c, mulWord? a b = some c ∧ c.toNat = a.toNat * b.toNat := by
  by_cases hword : a.toNat * b.toNat < wordLimit
  · refine .inr ⟨a * b, if_pos hword, ?_⟩
    rw [UInt64.toNat_mul]
    exact Nat.mod_eq_of_lt hword
  · exact .inl ⟨if_neg hword, Nat.le_of_not_lt hword⟩

theorem addWord?_cases (a b : UInt64) :
    addWord? a b = none ∧ wordLimit ≤ a.toNat + b.toNat ∨
      ∃ c, addWord? a b = some c ∧ c.toNat = a.toNat + b.toNat := by
  by_cases hword : a.toNat + b.toNat < wordLimit
  · refine .inr ⟨a + b, if_pos hword, ?_⟩
    rw [UInt64.toNat_add]
    exact Nat.mod_eq_of_lt hword
  · exact .inl ⟨if_neg hword, Nat.le_of_not_lt hword⟩

namespace Duration

/-- A duration as the machine holds it. -/
structure Words where
  seconds : UInt64
  /-- The nanoseconds beyond the whole seconds. -/
  subseconds : UInt32
  subseconds_lt : subseconds.toNat < perSecond

namespace Words

def toDuration (w : Words) : Duration := ofParts w.seconds.toNat w.subseconds.toNat

def longest : Words := ⟨.ofNat (wordLimit - 1), .ofNat (perSecond - 1), by decide⟩

theorem toDuration_longest : longest.toDuration = Duration.longest := rfl

/-- The product of the subseconds with a factor; it fits into a word. -/
def product (w : Words) (factor : UInt32) : UInt64 := w.subseconds.toUInt64 * factor.toUInt64

theorem toNat_product (w : Words) (factor : UInt32) :
    (w.product factor).toNat = w.subseconds.toNat * factor.toNat := by
  have hsubseconds := w.subseconds_lt
  have hfactor := factor.toNat_lt
  have hle : w.subseconds.toNat * factor.toNat ≤ perSecond * 2 ^ 32 :=
    Nat.mul_le_mul (Nat.le_of_lt hsubseconds) (Nat.le_of_lt hfactor)
  rw [product, UInt64.toNat_mul, UInt32.toNat_toUInt64, UInt32.toNat_toUInt64]
  exact Nat.mod_eq_of_lt (Nat.lt_of_le_of_lt hle (by decide))

/-- The subseconds of the duration `factor` times over. -/
def remainder (w : Words) (factor : UInt32) : UInt32 := (w.product factor % .ofNat perSecond).toUInt32

theorem toNat_remainder (w : Words) (factor : UInt32) :
    (w.remainder factor).toNat = w.subseconds.toNat * factor.toNat % perSecond := by
  have hword : (UInt64.ofNat perSecond).toNat = perSecond := rfl
  have hless : w.subseconds.toNat * factor.toNat % perSecond < 2 ^ 32 :=
    Nat.lt_trans (Nat.mod_lt _ (by decide)) (by decide)
  rw [remainder, UInt64.toNat_toUInt32, UInt64.toNat_mod, toNat_product, hword, Nat.mod_eq_of_lt hless]

/-- The duration `factor` times over.  The whole seconds of the product of the subseconds are carried, and it is the
longest duration if the seconds are more than a word. -/
def times (w : Words) (factor : UInt32) : Words :=
  match mulWord? w.seconds factor.toUInt64 with
  | none => longest
  | some seconds =>
    match addWord? seconds (w.product factor / .ofNat perSecond) with
    | none => longest
    | some seconds =>
      ⟨seconds, w.remainder factor, by rw [toNat_remainder]; exact Nat.mod_lt _ (by decide)⟩

/-- The product in words is the exact one, stopping at the longest duration. -/
theorem toDuration_times (w : Words) (factor : UInt32) :
    (w.times factor).toDuration = w.toDuration.times factor.toNat := by
  have hlongest : Duration.longest.nanos + 1 = wordLimit * perSecond := rfl
  have hless : w.subseconds.toNat * factor.toNat % perSecond < perSecond := Nat.mod_lt _ (by decide)
  have hsplit := Nat.div_add_mod' (w.subseconds.toNat * factor.toNat) perSecond
  have hcarried : (w.product factor / .ofNat perSecond).toNat = w.subseconds.toNat * factor.toNat / perSecond := by
    rw [UInt64.toNat_div, toNat_product]
    rfl
  -- the seconds of the exact product, and what is left of it
  generalize hseconds : w.seconds.toNat * factor.toNat + w.subseconds.toNat * factor.toNat / perSecond = seconds
  have hexact : w.toDuration.nanos * factor.toNat =
      seconds * perSecond + w.subseconds.toNat * factor.toNat % perSecond := by
    rw [← hseconds, Nat.add_mul, Nat.add_assoc, hsplit, Nat.mul_right_comm, ← Nat.add_mul]
    rfl
  have hbeyond (hword : wordLimit ≤ seconds) : longest.toDuration = w.toDuration.times factor.toNat := by
    have := Nat.mul_le_mul_right perSecond hword
    rw [toDuration_longest, Duration.times, hexact, Nat.min_eq_right (by omega)]
  unfold times
  rcases mulWord?_cases w.seconds factor.toUInt64 with ⟨hmul, hover⟩ | ⟨product, hmul, hproduct⟩
  · rw [UInt32.toNat_toUInt64] at hover
    simp only [hmul]
    exact hbeyond (by omega)
  · rw [UInt32.toNat_toUInt64] at hproduct
    rcases addWord?_cases product (w.product factor / .ofNat perSecond) with ⟨hadd, hover⟩ | ⟨sum, hadd, hsum⟩
    · simp only [hmul, hadd]
      exact hbeyond (by omega)
    · have hsum' : sum.toNat = seconds := by omega
      have hword : seconds + 1 ≤ wordLimit := by
        rw [← hsum']
        exact sum.toNat_lt
      have hinside := Nat.mul_le_mul_right perSecond hword
      rw [Nat.succ_mul] at hinside
      rw [Duration.times, hexact, Nat.min_eq_left (by omega)]
      simp only [hmul, hadd, toDuration, ofParts, toNat_remainder, hsum']

end Words

end Duration

/-! ### Backoffs in words -/

namespace Backoff

/-- A backoff as the machine holds it: the base delay, the number of the pauses given and that of all. -/
structure Words where
  base : Duration.Words
  given : UInt64
  retries : UInt64

namespace Words

/-- The backoff for a number of attempts, each but the last followed by a pause. -/
def ofAttempts (base : Duration.Words) (maxAttempts : UInt64) : Words :=
  ⟨base, 0, if maxAttempts = 0 then 0 else maxAttempts - 1⟩

/-- A count as a factor of 32 bits, stopping at the largest one. -/
def factor (count : UInt64) : UInt32 := if count.toNat < UInt32.size then count.toUInt32 else .ofNat (UInt32.size - 1)

theorem toNat_factor (count : UInt64) : (factor count).toNat = min count.toNat (UInt32.size - 1) := by
  unfold factor
  split
  · next hsmall =>
    rw [UInt64.toNat_toUInt32, Nat.mod_eq_of_lt hsmall, Nat.min_eq_left (Nat.le_sub_one_of_lt hsmall)]
  · next hlarge =>
    rw [Nat.min_eq_right (by omega)]
    rfl

def next? (w : Words) : Option (Duration.Words × Words) :=
  if w.given < w.retries then some (w.base.times (factor (w.given + 1)), { w with given := w.given + 1 })
  else none

end Words

/-- The words hold the backoff. -/
structure HeldIn (b : Backoff) (w : Words) : Prop where
  base : w.base.toDuration = b.policy.baseDelay
  given : w.given.toNat = b.given
  retries : w.retries.toNat = b.policy.retries

variable {b : Backoff} {w : Words}

theorem HeldIn.ofAttempts (base : Duration.Words) (maxAttempts : UInt64) (maxTransferFailures : Nat) :
    (ofPolicy ⟨maxAttempts.toNat, base.toDuration, maxTransferFailures⟩).HeldIn (.ofAttempts base maxAttempts) := by
  refine ⟨rfl, rfl, ?_⟩
  simp only [Words.ofAttempts, ofPolicy, RetryPolicy.retries]
  split
  · next hnone =>
    rw [hnone]
    rfl
  · next hsome =>
    have hpositive : (1 : UInt64).toNat ≤ maxAttempts.toNat :=
      Nat.one_le_iff_ne_zero.2 fun hzero => hsome (UInt64.toNat_inj.1 hzero)
    rw [UInt64.toNat_sub_of_le _ _ (UInt64.le_iff_toNat_le.2 hpositive)]
    rfl

/-- A call in words gives the pause that the backoff gives, and to count it does not overflow. -/
theorem HeldIn.next? (h : b.HeldIn w) :
    w.next? = none ∧ b.next? = none ∨
      ∃ pause w' b', w.next? = some (pause, w') ∧ b.next? = some (pause.toDuration, b') ∧ b'.HeldIn w' := by
  have hless : w.given < w.retries ↔ b.given < b.policy.retries := by
    rw [UInt64.lt_iff_toNat_lt, h.given, h.retries]
  by_cases hgoing : b.given < b.policy.retries
  · have hcount : (w.given + 1).toNat = b.given + 1 := by
      have hword := w.retries.toNat_lt
      rw [h.retries] at hword
      rw [UInt64.toNat_add, h.given]
      exact Nat.mod_eq_of_lt (show b.given + 1 < 2 ^ 64 by omega)
    have hpause : (w.base.times (Words.factor (w.given + 1))).toDuration = b.policy.delay (b.given + 1) := by
      rw [Duration.Words.toDuration_times, Words.toNat_factor, hcount, h.base]
      rfl
    refine .inr ⟨_, _, ⟨b.policy, b.given + 1⟩, if_pos (hless.2 hgoing), ?_, h.base, hcount, h.retries⟩
    rw [Backoff.next?, if_pos hgoing, hpause]
  · exact .inl ⟨if_neg (mt hless.1 hgoing), if_neg hgoing⟩

theorem HeldIn.calls (h : b.HeldIn w) (count : Nat) :
    (calls Words.next? count w).map (Option.map Duration.Words.toDuration) = calls Backoff.next? count b := by
  induction count generalizing b w with
  | zero => rfl
  | succ count ih =>
    rcases h.next? with ⟨hw, hb⟩ | ⟨pause, w', b', hw, hb, hheld⟩
    · simp only [ChunkedStorage.calls, hw, hb, List.map_cons, Option.map_none, ih h]
    · simp only [ChunkedStorage.calls, hw, hb, List.map_cons, Option.map_some, ih hheld]

/-! ### All calls -/

/-- A backoff gives the pauses of its policy that are still to come, and nothing from then on. -/
theorem calls_eq (p : RetryPolicy) (given count : Nat) :
    calls Backoff.next? count ⟨p, given⟩ =
      (List.range' given count).map fun i => if i < p.retries then some (p.delay (i + 1)) else none := by
  induction count generalizing given with
  | zero => rfl
  | succ count ih =>
    by_cases hgoing : given < p.retries
    · have hnext : (⟨p, given⟩ : Backoff).next? = some (p.delay (given + 1), ⟨p, given + 1⟩) := if_pos hgoing
      rw [List.range'_succ, List.map_cons, if_pos hgoing, ← ih]
      simp only [calls, hnext]
    · have hnext : (⟨p, given⟩ : Backoff).next? = none := if_neg hgoing
      rw [calls_of_none hnext, eq_comm, List.map_eq_replicate_iff.2]
      · rw [List.length_range']
      · intro i hi
        have := (List.mem_range'_1.1 hi).1
        exact if_neg (by omega)

end Backoff

/-- No pause is shorter than the one before it. -/
theorem RetryPolicy.monotone_delay (p : RetryPolicy) : Monotone fun n => (p.delay n).nanos := by
  intro m n hle
  have hfactor : min m (Nat.pow 2 32 - 1) ≤ min n (Nat.pow 2 32 - 1) := min_le_min_right _ hle
  exact min_le_min_right _ (Nat.mul_le_mul_left _ hfactor)

/-- A backoff for a number of attempts gives one pause less than there are attempts, or none if there are none, and
nothing from then on.  The `n`-th pause is exactly `n` times the base delay, where `n` stops at the largest number of 32
bits and the product at the longest duration; computed in words it comes to the same.  The limits of a configured policy
are at least one. -/
theorem Backoff.calls_exact (base : Duration.Words) (maxAttempts : UInt64) (maxTransferFailures : Nat) :
    let p : RetryPolicy := ⟨maxAttempts.toNat, base.toDuration, maxTransferFailures⟩
    (∀ count, calls next? count (ofPolicy p) = (List.range count).map fun i =>
      if i < maxAttempts.toNat - 1 then some (p.delay (i + 1)) else none) ∧
    (∀ count, (calls Words.next? count (.ofAttempts base maxAttempts)).map (Option.map Duration.Words.toDuration) =
      calls next? count (ofPolicy p)) ∧
    (∀ n, (p.delay n).nanos = min (base.toDuration.nanos * min n (UInt32.size - 1)) (UInt64.size * 1000000000 - 1)) ∧
    (Monotone fun n => (p.delay n).nanos) ∧
    ∀ c : RetryConfig, 1 ≤ (RetryPolicy.ofConfig c).maxAttempts ∧ 1 ≤ (RetryPolicy.ofConfig c).maxTransferFailures := by
  intro p
  refine ⟨?_, ?_, fun _ => rfl, p.monotone_delay, ?_⟩
  · intro count
    rw [ofPolicy, calls_eq, List.range_eq_range']
    rfl
  · exact (HeldIn.ofAttempts base maxAttempts maxTransferFailures).calls
  · exact fun c => ⟨Nat.le_max_right .., Nat.le_max_right ..⟩

end ChunkedStorage
