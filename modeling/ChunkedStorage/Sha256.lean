import ChunkedStorage.Span

/-!
# SHA-256

The hash function of FIPS 180-4 for messages of whole bytes, in one piece and piece by piece. A hasher keeps the
chaining value of the complete blocks it has been fed, the bytes behind them and their number.
-/

namespace ChunkedStorage.Sha256

/-! ### The functions on words -/

def rotateRight (x : UInt32) (n : UInt32) : UInt32 := (x >>> n) ||| (x <<< (32 - n))

def choose (x y z : UInt32) : UInt32 := (x &&& y) ^^^ ((~~~ x) &&& z)

def majority (x y z : UInt32) : UInt32 := (x &&& y) ^^^ (x &&& z) ^^^ (y &&& z)

def bigSigma0 (x : UInt32) : UInt32 := rotateRight x 2 ^^^ rotateRight x 13 ^^^ rotateRight x 22

def bigSigma1 (x : UInt32) : UInt32 := rotateRight x 6 ^^^ rotateRight x 11 ^^^ rotateRight x 25

def smallSigma0 (x : UInt32) : UInt32 := rotateRight x 7 ^^^ rotateRight x 18 ^^^ (x >>> 3)

def smallSigma1 (x : UInt32) : UInt32 := rotateRight x 17 ^^^ rotateRight x 19 ^^^ (x >>> 10)

/-- One constant for each round. -/
def roundConstants : List UInt32 :=
  [0x428a2f98, 0x71374491, 0xb5c0fbcf, 0xe9b5dba5, 0x3956c25b, 0x59f111f1, 0x923f82a4, 0xab1c5ed5,
   0xd807aa98, 0x12835b01, 0x243185be, 0x550c7dc3, 0x72be5d74, 0x80deb1fe, 0x9bdc06a7, 0xc19bf174,
   0xe49b69c1, 0xefbe4786, 0x0fc19dc6, 0x240ca1cc, 0x2de92c6f, 0x4a7484aa, 0x5cb0a9dc, 0x76f988da,
   0x983e5152, 0xa831c66d, 0xb00327c8, 0xbf597fc7, 0xc6e00bf3, 0xd5a79147, 0x06ca6351, 0x14292967,
   0x27b70a85, 0x2e1b2138, 0x4d2c6dfc, 0x53380d13, 0x650a7354, 0x766a0abb, 0x81c2c92e, 0x92722c85,
   0xa2bfe8a1, 0xa81a664b, 0xc24b8b70, 0xc76c51a3, 0xd192e819, 0xd6990624, 0xf40e3585, 0x106aa070,
   0x19a4c116, 0x1e376c08, 0x2748774c, 0x34b0bcb5, 0x391c0cb3, 0x4ed8aa4a, 0x5b9cca4f, 0x682e6ff3,
   0x748f82ee, 0x78a5636f, 0x84c87814, 0x8cc70208, 0x90befffa, 0xa4506ceb, 0xbef9a3f7, 0xc67178f2]

/-! ### One block -/

/-- The chaining value, and the working variables of a round. -/
structure Words where
  a : UInt32
  b : UInt32
  c : UInt32
  d : UInt32
  e : UInt32
  f : UInt32
  g : UInt32
  h : UInt32
deriving DecidableEq

def initial : Words :=
  ⟨0x6a09e667, 0xbb67ae85, 0x3c6ef372, 0xa54ff53a, 0x510e527f, 0x9b05688c, 0x1f83d9ab, 0x5be0cd19⟩

def Words.add (x y : Words) : Words :=
  ⟨x.a + y.a, x.b + y.b, x.c + y.c, x.d + y.d, x.e + y.e, x.f + y.f, x.g + y.g, x.h + y.h⟩

/-- The words of a block, the first byte of each being its highest. -/
def wordsOf : Bytes → List UInt32
  | b₀ :: b₁ :: b₂ :: b₃ :: rest =>
    ((b₀.toUInt32 <<< 24) ||| (b₁.toUInt32 <<< 16) ||| (b₂.toUInt32 <<< 8) ||| b₃.toUInt32) :: wordsOf rest
  | _ => []

/-- The next word of a message schedule of which the last sixteen words are given, the oldest first. -/
def nextWord : List UInt32 → UInt32
  | [w₀, w₁, _, _, _, _, _, _, _, w₉, _, _, _, _, w₁₄, _] => smallSigma1 w₁₄ + w₉ + smallSigma0 w₁ + w₀
  | _ => 0

def round (v : Words) (k w : UInt32) : Words :=
  let t₁ := v.h + bigSigma1 v.e + choose v.e v.f v.g + k + w
  let t₂ := bigSigma0 v.a + majority v.a v.b v.c
  ⟨t₁ + t₂, v.a, v.b, v.c, v.d + t₁, v.e, v.f, v.g⟩

/-- The rounds with the given constants; the window holds the schedule's next sixteen words. -/
def rounds : (constants window : List UInt32) → Words → Words
  | [], _, v => v
  | _, [], v => v
  | k :: constants, w :: rest, v => rounds constants (rest ++ [nextWord (w :: rest)]) (round v k w)

def compress (chain : Words) (block : Bytes) : Words :=
  chain.add (rounds roundConstants (wordsOf block) chain)

/-! ### Messages -/

def blockLength : Nat := 64

/-- Feeds all complete blocks and gives the bytes behind them. -/
def absorb (chain : Words) (bytes : Bytes) : Words × Bytes :=
  if _short : bytes.drop (blockLength - 1) = [] then
    (chain, bytes)
  else
    absorb (compress chain (bytes.take blockLength)) (bytes.drop blockLength)
termination_by bytes.length
decreasing_by
  simp only [blockLength, List.drop_eq_nil_iff, List.length_drop] at _short ⊢
  omega

/-- The big-endian bytes of a 64-bit word. -/
def lengthBytes (bits : Nat) : Bytes :=
  [56, 48, 40, 32, 24, 16, 8, 0].map fun shift => UInt8.ofNat (bits / Nat.pow 2 shift)

/-- What follows a message of `length` bytes: a one bit, zeros up to eight bytes before the end of a block, and the
length in bits. -/
def padding (length : Nat) : Bytes :=
  0x80 :: List.replicate ((119 - length % 64) % 64) 0 ++ lengthBytes (8 * length)

def hexDigit (n : UInt8) : Char := if n < 10 then Char.ofNat (48 + n.toNat) else Char.ofNat (87 + n.toNat)

/-- Two hexadecimal digits for each byte. -/
def hexOfBytes (bytes : Bytes) : String :=
  String.ofList (bytes.flatMap fun (b : UInt8) => [hexDigit (b >>> 4), hexDigit (b &&& 15)])

def bytesOfWord (w : UInt32) : Bytes :=
  [(w >>> 24).toUInt8, (w >>> 16).toUInt8, (w >>> 8).toUInt8, w.toUInt8]

def Words.bytes (v : Words) : Bytes :=
  [v.a, v.b, v.c, v.d, v.e, v.f, v.g, v.h].flatMap bytesOfWord

/-- The digest of a message. -/
def digest (message : Bytes) : Bytes :=
  (absorb initial (message ++ padding message.length)).1.bytes

/-- The digest of a message in lowercase hexadecimal digits. -/
def hex (message : Bytes) : String := hexOfBytes (digest message)

/-! ### Piece by piece -/

structure Hasher where
  chain : Words
  /-- The bytes behind the complete blocks. -/
  pending : Bytes
  /-- The number of bytes fed so far. -/
  length : Nat

namespace Hasher

def empty : Hasher := ⟨initial, [], 0⟩

def update (h : Hasher) (piece : Bytes) : Hasher :=
  let (chain, pending) := absorb h.chain (h.pending ++ piece)
  ⟨chain, pending, h.length + piece.length⟩

/-- The digest of everything fed so far, in lowercase hexadecimal digits. -/
def finish (h : Hasher) : String :=
  hexOfBytes (absorb h.chain (h.pending ++ padding h.length)).1.bytes

end Hasher

end ChunkedStorage.Sha256
