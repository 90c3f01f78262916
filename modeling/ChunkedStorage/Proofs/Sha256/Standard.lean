import Mathlib.Data.Fin.VecNotation
import Mathlib.Data.Nat.Find
import Mathlib.Data.Nat.NthRoot.Defs
import Mathlib.Data.Nat.Prime.Defs
import ChunkedStorage.Span

/-!
# SHA-256 as the standard has it

FIPS 180-4 describes the hash function on messages of bits, with indexed words and without a hasher.  Its section 5 pads
a message and cuts it into blocks, section 4.1.2 gives the functions on words, 4.2.2 and 5.3.3 the constants, and 6.2.2
the computation.  The highest bit of a word or byte comes first.
-/

namespace ChunkedStorage.Sha256.Standard

abbrev Word := BitVec 32

/-! ### Bits -/

def bitsOf {w : Nat} (x : BitVec w) : List Bool := (List.range w).map x.getMsbD

def bitsOfBytes (bytes : Bytes) : List Bool := bytes.flatMap fun b => bitsOf b.toBitVec

/-- The word that is made of bits. -/
def ofBits (w : Nat) (bits : List Bool) : BitVec w := (BitVec.ofBoolListBE bits).setWidth w

/-- One hexadecimal digit for every four bits. -/
def digitsOf : List Bool → List Char
  | b₀ :: b₁ :: b₂ :: b₃ :: rest => Nat.digitChar (BitVec.ofBoolListBE [b₀, b₁, b₂, b₃]).toNat :: digitsOf rest
  | _ => []

/-! ### Functions on words -/

def ch (x y z : Word) : Word := (x &&& y) ^^^ (~~~x &&& z)

def maj (x y z : Word) : Word := (x &&& y) ^^^ (x &&& z) ^^^ (y &&& z)

def bigSigma0 (x : Word) : Word := x.rotateRight 2 ^^^ x.rotateRight 13 ^^^ x.rotateRight 22

def bigSigma1 (x : Word) : Word := x.rotateRight 6 ^^^ x.rotateRight 11 ^^^ x.rotateRight 25

def smallSigma0 (x : Word) : Word := x.rotateRight 7 ^^^ x.rotateRight 18 ^^^ (x >>> 3)

def smallSigma1 (x : Word) : Word := x.rotateRight 17 ^^^ x.rotateRight 19 ^^^ (x >>> 10)

/-! ### Constants -/

/-- The first sixty-four primes. -/
def primes : List Nat := (List.range 312).filter Nat.Prime

/-- Below the square of eighteen it is enough to divide by the numbers below eighteen. -/
private theorem prime_iff {n : Nat} (hn : n < 18 * 18) :
    n.Prime ↔ 2 ≤ n ∧ ∀ d < 18, 2 ≤ d → d < n → ¬ d ∣ n := by
  constructor
  · intro hprime
    exact ⟨hprime.two_le, fun d _ htwo hless => (Nat.prime_def_lt'.1 hprime).2 d htwo hless⟩
  · rintro ⟨htwo, hnone⟩
    have hroot : n.sqrt < 18 := Nat.sqrt_lt.2 hn
    exact Nat.prime_def_le_sqrt.2 ⟨htwo, fun d hd hle =>
      hnone d (hle.trans_lt hroot) hd (hle.trans_lt (Nat.sqrt_lt_self htwo))⟩

theorem primes_eq : primes =
    [2, 3, 5, 7, 11, 13, 17, 19, 23, 29, 31, 37, 41, 43, 47, 53, 59, 61, 67, 71, 73, 79, 83, 89, 97,
      101, 103, 107, 109, 113, 127, 131, 137, 139, 149, 151, 157, 163, 167, 173, 179, 181, 191, 193, 197,
      199, 211, 223, 227, 229, 233, 239, 241, 251, 257, 263, 269, 271, 277, 281, 283, 293, 307, 311] := by
  have hfilter : primes = (List.range 312).filter fun n => 2 ≤ n ∧ ∀ d < 18, 2 ≤ d → d < n → ¬ d ∣ n := by
    apply List.filter_congr
    intro n hn
    rw [decide_eq_decide]
    exact prime_iff (Nat.lt_of_lt_of_le (List.mem_range.1 hn) (by decide))
  rw [hfilter]
  decide +kernel

/-- The first thirty-two bits of the fractional part of a root of `n`.  They stand in front of the point once it is
moved by as many places, and what is above them is cut off. -/
def rootFraction (degree n : Nat) : Word := BitVec.ofNat 32 (Nat.nthRoot degree (2 ^ (32 * degree) * n))

/-- The constant of round `t`, from the cube root of a prime. -/
def constant (t : Nat) : Word := rootFraction 3 (primes.getD t 0)

/-- The initial hash value, from the square roots of the first primes. -/
def initial (j : Fin 8) : Word := rootFraction 2 (primes.getD j 0)

/-! ### The computation -/

/-- Word `t` of the message schedule of a block. -/
def schedule (block : Nat → Word) (t : Nat) : Word :=
  if t < 16 then block t
  else
    smallSigma1 (schedule block (t - 2)) + schedule block (t - 7) + smallSigma0 (schedule block (t - 15)) +
      schedule block (t - 16)

/-- One round on the working variables, from `a` to `h`. -/
def step (k w : Word) (v : Fin 8 → Word) : Fin 8 → Word :=
  let t₁ := v 7 + bigSigma1 (v 4) + ch (v 4) (v 5) (v 6) + k + w
  let t₂ := bigSigma0 (v 0) + maj (v 0) (v 1) (v 2)
  ![t₁ + t₂, v 0, v 1, v 2, v 3 + t₁, v 4, v 5, v 6]

/-- The working variables after the first rounds. -/
def working (hash : Fin 8 → Word) (block : Nat → Word) : (rounds : Nat) → Fin 8 → Word
  | 0 => hash
  | t + 1 => step (constant t) (schedule block t) (working hash block t)

/-- The hash value after a block. -/
def compress (hash : Fin 8 → Word) (block : Nat → Word) (j : Fin 8) : Word := working hash block 64 j + hash j

theorem exists_zeros (length : Nat) : ∃ zeros, (length + 1 + zeros) % 512 = 448 :=
  ⟨(959 - length % 512) % 512, by omega⟩

/-- How many zeros stand between the one bit behind a message and its length. -/
def zeros (length : Nat) : Nat := Nat.find (exists_zeros length)

/-- The message with what follows it: a one bit, zeros, and the length as a word of 64 bits.  The standard has no longer
messages than such a word can count. -/
def pad (message : List Bool) : List Bool :=
  message ++ true :: (List.replicate (zeros message.length) false ++ bitsOf (BitVec.ofNat 64 message.length))

/-- Word `j` of block `i`. -/
def word (padded : List Bool) (i j : Nat) : Word := ofBits 32 ((padded.drop (512 * i + 32 * j)).take 32)

/-- The hash value after the first blocks. -/
def hash (padded : List Bool) : (blocks : Nat) → Fin 8 → Word
  | 0 => initial
  | i + 1 => compress (hash padded i) (word padded i)

/-- The bits of the message digest, which are those of the last hash value. -/
def digest (message : List Bool) : List Bool :=
  (List.finRange 8).flatMap fun j => bitsOf (hash (pad message) ((pad message).length / 512) j)

def text (message : List Bool) : String := String.ofList (digitsOf (digest message))

end ChunkedStorage.Sha256.Standard
