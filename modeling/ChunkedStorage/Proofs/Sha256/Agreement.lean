import Mathlib.Data.List.Infix
import Mathlib.Tactic.IntervalCases
import ChunkedStorage.Proofs.Sha256
import ChunkedStorage.Proofs.Sha256.Standard

/-!
# The digests are those of the standard

The message schedule is kept as a window of sixteen words that moves on by one in each round (`hash_rounds`), and blocks
and padding are made of bytes (`hash_absorb`, `bitsOfBytes_padding`).  What comes out is what the standard computes from
the bits of the message (`hex_eq`), in one piece or in several (`digests_of_pieces`).
-/

namespace ChunkedStorage.Sha256

/-! ### Bits of bytes -/

private theorem bitsOf_append {m n : Nat} (x : BitVec m) (y : BitVec n) :
    Standard.bitsOf (x ++ y) = Standard.bitsOf x ++ Standard.bitsOf y := by
  rw [Standard.bitsOf, List.range_add, List.map_append, List.map_map]
  congr 1 <;> apply List.map_congr_left
  · intro i hi
    rw [BitVec.getMsbD_append, if_neg (Nat.not_le.2 (List.mem_range.1 hi))]
  · intro i _
    rw [Function.comp_apply, BitVec.getMsbD_append, if_pos (Nat.le_add_right m i), Nat.add_sub_cancel_left]

private theorem ofNat_add_eight (width n : Nat) :
    BitVec.ofNat (width + 8) n = BitVec.ofNat width (n / 2 ^ 8) ++ BitVec.ofNat 8 n := by
  apply BitVec.eq_of_toNat_eq
  have hlow : n % 2 ^ 8 < 2 ^ 8 := Nat.mod_lt _ (by decide)
  rw [BitVec.toNat_append, BitVec.toNat_ofNat, BitVec.toNat_ofNat, BitVec.toNat_ofNat,
    ← Nat.shiftLeft_add_eq_or_of_lt hlow, Nat.shiftLeft_eq, Nat.pow_add, Nat.mul_comm (2 ^ width), Nat.mod_mul]
  omega

theorem ofBits_bitsOf {width : Nat} (x : BitVec width) : Standard.ofBits width (Standard.bitsOf x) = x := by
  apply BitVec.eq_of_getMsbD_eq
  intro i hi
  simp [Standard.ofBits, Standard.bitsOf, BitVec.getMsbD_setWidth, hi]

theorem bitsOfBytes_append (bytes more : Bytes) :
    Standard.bitsOfBytes (bytes ++ more) = Standard.bitsOfBytes bytes ++ Standard.bitsOfBytes more :=
  List.flatMap_append

theorem length_bitsOfBytes (bytes : Bytes) : (Standard.bitsOfBytes bytes).length = 8 * bytes.length := by
  simp [Standard.bitsOfBytes, Standard.bitsOf, List.length_flatMap, List.map_const', Nat.mul_comm]

theorem drop_bitsOfBytes (bytes : Bytes) (n : Nat) :
    (Standard.bitsOfBytes bytes).drop (8 * n) = Standard.bitsOfBytes (bytes.drop n) := by
  induction n generalizing bytes with
  | zero => rfl
  | succ n ih =>
    cases bytes with
    | nil => rfl
    | cons b rest => exact ih rest

theorem take_bitsOfBytes (bytes : Bytes) (n : Nat) :
    (Standard.bitsOfBytes bytes).take (8 * n) = Standard.bitsOfBytes (bytes.take n) := by
  induction n generalizing bytes with
  | zero => rfl
  | succ n ih =>
    cases bytes with
    | nil => rfl
    | cons b rest => exact congrArg (Standard.bitsOf b.toBitVec ++ ·) (ih rest)

/-- The last bytes of a number, the highest first. -/
def bigEndian (count n : Nat) : Bytes := (List.range count).map fun i => UInt8.ofNat (n / 2 ^ (8 * (count - 1 - i)))

theorem bitsOfBytes_bigEndian (count n : Nat) :
    Standard.bitsOfBytes (bigEndian count n) = Standard.bitsOf (BitVec.ofNat (8 * count) n) := by
  induction count generalizing n with
  | zero => rfl
  | succ count ih =>
    have hbytes : bigEndian (count + 1) n = bigEndian count (n / 2 ^ 8) ++ [UInt8.ofNat n] := by
      rw [bigEndian, List.range_succ, List.map_append, bigEndian]
      congr 1
      · apply List.map_congr_left
        intro i hi
        have := List.mem_range.1 hi
        rw [Nat.div_div_eq_div_mul, ← Nat.pow_add]
        congr 3
        omega
      · simp
    have hlast : Standard.bitsOfBytes [UInt8.ofNat n] = Standard.bitsOf (BitVec.ofNat 8 n) := List.append_nil _
    rw [hbytes, bitsOfBytes_append, ih, hlast, ← bitsOf_append, ← ofNat_add_eight, Nat.mul_succ]

/-! ### Words of bytes -/

theorem bitsOfBytes_bytesOfWord (w : UInt32) : Standard.bitsOfBytes (bytesOfWord w) = Standard.bitsOf w.toBitVec := by
  have hbytes : bytesOfWord w = bigEndian 4 w.toNat := by
    simp [bytesOfWord, bigEndian, List.range_succ, ← UInt8.toNat_inj, Nat.shiftRight_eq_div_pow]
  rw [hbytes, bitsOfBytes_bigEndian]
  exact congrArg Standard.bitsOf (BitVec.ofNat_toNat _ _)

private theorem bytesOfWord_or (b₀ b₁ b₂ b₃ : UInt8) :
    bytesOfWord ((b₀.toUInt32 <<< 24) ||| (b₁.toUInt32 <<< 16) ||| (b₂.toUInt32 <<< 8) ||| b₃.toUInt32) =
      [b₀, b₁, b₂, b₃] := by
  simp only [bytesOfWord, List.cons.injEq, and_true, ← UInt8.toBitVec_inj]
  refine ⟨?_, ?_, ?_, ?_⟩ <;> ext i hi <;> interval_cases i <;> simp

private theorem ofBits_fourBytes (b₀ b₁ b₂ b₃ : UInt8) :
    UInt32.ofBitVec (Standard.ofBits 32 (Standard.bitsOfBytes [b₀, b₁, b₂, b₃])) =
      (b₀.toUInt32 <<< 24) ||| (b₁.toUInt32 <<< 16) ||| (b₂.toUInt32 <<< 8) ||| b₃.toUInt32 := by
  rw [← bytesOfWord_or, bitsOfBytes_bytesOfWord, ofBits_bitsOf, UInt32.ofBitVec_toBitVec]

/-- Each word is made of the bits of four bytes. -/
theorem wordsOf_eq (bytes : Bytes) : wordsOf bytes = (List.range (bytes.length / 4)).map fun j =>
    UInt32.ofBitVec (Standard.ofBits 32 (Standard.bitsOfBytes ((bytes.drop (4 * j)).take 4))) := by
  fun_induction wordsOf bytes with
  | case1 b₀ b₁ b₂ b₃ rest ih =>
    have hcount : (b₀ :: b₁ :: b₂ :: b₃ :: rest).length / 4 = rest.length / 4 + 1 := by
      simp only [List.length_cons]
      omega
    rw [hcount, List.range_succ_eq_map, List.map_cons, List.map_map, ih, List.cons.injEq]
    constructor
    · exact (ofBits_fourBytes b₀ b₁ b₂ b₃).symm
    · apply List.map_congr_left
      intro j _
      rw [Function.comp_apply, Nat.mul_succ]
      rfl
  | case2 bytes hshort =>
    have hcount : bytes.length / 4 = 0 := by
      apply Nat.div_eq_of_lt
      match bytes, hshort with
      | [], _ | [_], _ | [_, _], _ | [_, _, _], _ => simp
      | b₀ :: b₁ :: b₂ :: b₃ :: rest, hshort => exact absurd rfl (hshort b₀ b₁ b₂ b₃ rest)
    rw [hcount]
    rfl

/-! ### Rounds -/

/-- The hash value that the words make. -/
def Words.hash (v : Words) : Fin 8 → Standard.Word :=
  ![v.a.toBitVec, v.b.toBitVec, v.c.toBitVec, v.d.toBitVec, v.e.toBitVec, v.f.toBitVec, v.g.toBitVec, v.h.toBitVec]

theorem hash_initial : initial.hash = Standard.initial := by
  funext j
  rw [Standard.initial, Standard.primes_eq]
  revert j
  decide +kernel

theorem hash_add (x y : Words) (j : Fin 8) : (x.add y).hash j = x.hash j + y.hash j := by
  obtain ⟨j, hj⟩ := j
  interval_cases j <;> rfl

theorem hash_round (v : Words) (k w : UInt32) : (round v k w).hash = Standard.step k.toBitVec w.toBitVec v.hash := rfl

theorem roundConstants_eq : roundConstants = (List.range' 0 64).map fun t => UInt32.ofBitVec (Standard.constant t) := by
  simp only [Standard.constant, Standard.primes_eq]
  decide +kernel

section

variable {hash : Fin 8 → Standard.Word} {block : Nat → Standard.Word} {v : Words} {t : Nat}

/-- The window of the schedule at round `t`. -/
def window (block : Nat → Standard.Word) (t : Nat) : List UInt32 :=
  (List.range' t 16).map fun t => UInt32.ofBitVec (Standard.schedule block t)

theorem nextWord_window : nextWord (window block t) = UInt32.ofBitVec (Standard.schedule block (t + 16)) := by
  rw [Standard.schedule, if_neg (by omega)]
  rfl

/-- The window moves on by one word. -/
theorem window_succ (block : Nat → Standard.Word) (t : Nat) : ∃ rest,
    window block t = UInt32.ofBitVec (Standard.schedule block t) :: rest ∧
      window block (t + 1) = rest ++ [nextWord (window block t)] := by
  refine ⟨(List.range' (t + 1) 15).map fun t => UInt32.ofBitVec (Standard.schedule block t), rfl, ?_⟩
  rw [nextWord_window, window, List.range'_concat, List.map_append]
  rfl

/-- The rounds from `t` on are those of the standard. -/
theorem hash_rounds (hv : v.hash = Standard.working hash block t) (n : Nat) :
    (rounds ((List.range' t n).map fun t => UInt32.ofBitVec (Standard.constant t)) (window block t) v).hash =
      Standard.working hash block (t + n) := by
  induction n generalizing t v with
  | zero => exact hv
  | succ n ih =>
    obtain ⟨rest, hwindow, hnext⟩ := window_succ block t
    rw [hwindow] at hnext ⊢
    rw [List.range'_succ, List.map_cons, rounds, ← hnext, ih, Nat.succ_add_eq_add_succ]
    rw [hash_round, hv]
    rfl

/-- A block is compressed as in the standard. -/
theorem hash_compress (v : Words) {bytes : Bytes}
    (hwords : wordsOf bytes = (List.range 16).map fun j => UInt32.ofBitVec (block j)) :
    (compress v bytes).hash = Standard.compress v.hash block := by
  have hwindow : wordsOf bytes = window block 0 := by
    rw [hwords, List.range_eq_range', window]
    apply List.map_congr_left
    intro j hj
    rw [Standard.schedule, if_pos (by simpa using hj)]
  funext j
  rw [compress, hash_add, hwindow, roundConstants_eq, hash_rounds rfl, Nat.zero_add]
  exact BitVec.add_comm _ _

end

/-! ### Blocks -/

private theorem word_bitsOfBytes {bytes : Bytes} {i j : Nat} (hj : j < blockLength / 4) :
    Standard.word (Standard.bitsOfBytes bytes) i j = Standard.ofBits 32 (Standard.bitsOfBytes
      ((((bytes.drop (blockLength * i)).take blockLength).drop (4 * j)).take 4)) := by
  have hbits : 512 * i + 32 * j = 8 * (blockLength * i + 4 * j) := by
    rw [blockLength]
    omega
  have hinside : min 4 (blockLength - 4 * j) = 4 := by
    rw [blockLength] at hj ⊢
    omega
  rw [Standard.word, hbits, drop_bitsOfBytes, take_bitsOfBytes _ 4, List.drop_take, List.take_take, hinside,
    List.drop_drop]

/-- What the complete blocks of the bytes come to. -/
theorem hash_absorb (bytes : Bytes) {blocks : Nat} (hinside : blockLength * blocks ≤ bytes.length) :
    ∃ v, absorb initial (bytes.take (blockLength * blocks)) = (v, []) ∧
      v.hash = Standard.hash (Standard.bitsOfBytes bytes) blocks := by
  induction blocks with
  | zero =>
    refine ⟨initial, ?_, hash_initial⟩
    rw [Nat.mul_zero, List.take_zero, absorb_of_lt (by decide)]
  | succ i ih =>
    rw [Nat.mul_succ] at hinside
    obtain ⟨v, habsorb, hhash⟩ := ih (by omega)
    have hlength : ((bytes.drop (blockLength * i)).take blockLength).length = blockLength := by
      rw [List.length_take, List.length_drop]
      omega
    refine ⟨compress v ((bytes.drop (blockLength * i)).take blockLength), ?_, ?_⟩
    · rw [Nat.mul_succ, List.take_add, absorb_append, habsorb, List.nil_append, absorb_block (le_of_eq hlength.symm),
        List.take_of_length_le (le_of_eq hlength), List.drop_of_length_le (le_of_eq hlength), absorb_of_lt (by decide)]
    · rw [Standard.hash, ← hhash]
      apply hash_compress
      rw [wordsOf_eq, hlength]
      apply List.map_congr_left
      intro j hj
      rw [word_bitsOfBytes (List.mem_range.1 hj)]

/-! ### Padding -/

theorem zeros_eq (count : Nat) : Standard.zeros (8 * count) = 7 + 8 * ((119 - count % 64) % 64) := by
  rw [Standard.zeros, Nat.find_eq_iff]
  constructor
  · omega
  · intro fewer hfewer
    omega

private theorem bitsOfBytes_replicate (count : Nat) :
    Standard.bitsOfBytes (List.replicate count 0) = List.replicate (8 * count) false := by
  induction count with
  | zero => rfl
  | succ count ih =>
    rw [List.replicate_succ, Nat.mul_succ, Nat.add_comm, ← List.replicate_append_replicate, ← ih]
    rfl

theorem bitsOfBytes_padding (message : Bytes) :
    Standard.bitsOfBytes (message ++ padding message.length) = Standard.pad (Standard.bitsOfBytes message) := by
  have hlength : lengthBytes (8 * message.length) = bigEndian 8 (8 * message.length) := by
    simp [lengthBytes, bigEndian, List.range_succ]
  have hbits := bitsOfBytes_bigEndian 8 (8 * message.length)
  have hmark (rest : Bytes) : Standard.bitsOfBytes (0x80 :: rest) =
      true :: (List.replicate 7 false ++ Standard.bitsOfBytes rest) := rfl
  rw [Standard.pad, length_bitsOfBytes, zeros_eq, ← List.replicate_append_replicate, ← bitsOfBytes_replicate, ← hbits,
    List.append_assoc, padding, hlength, bitsOfBytes_append, List.cons_append, hmark, bitsOfBytes_append]

theorem length_padding (message : Bytes) :
    ∃ blocks, (message ++ padding message.length).length = blockLength * blocks := by
  refine ⟨(message.length + 72) / 64, ?_⟩
  simp [padding, lengthBytes, blockLength]
  omega

/-! ### Digits -/

private theorem digitsOf_byte (b : UInt8) :
    Standard.digitsOf (Standard.bitsOf b.toBitVec) = [hexDigit (b >>> 4), hexDigit (b &&& 15)] := by
  have hall : ∀ n < 256, Standard.digitsOf (Standard.bitsOf (UInt8.ofNat n).toBitVec) =
      [hexDigit (UInt8.ofNat n >>> 4), hexDigit (UInt8.ofNat n &&& 15)] := by decide +kernel
  simpa using hall b.toNat b.toNat_lt

theorem hexOfBytes_eq (bytes : Bytes) :
    hexOfBytes bytes = String.ofList (Standard.digitsOf (Standard.bitsOfBytes bytes)) := by
  rw [hexOfBytes]
  congr 1
  induction bytes with
  | nil => rfl
  | cons b rest ih =>
    rw [List.flatMap_cons, ih, ← digitsOf_byte]
    rfl

theorem bitsOfBytes_bytes (v : Words) :
    Standard.bitsOfBytes v.bytes = (List.finRange 8).flatMap fun j => Standard.bitsOf (v.hash j) := by
  have hwords : (List.finRange 8).map v.hash = [v.a, v.b, v.c, v.d, v.e, v.f, v.g, v.h].map UInt32.toBitVec := rfl
  rw [← List.flatMap_map v.hash Standard.bitsOf, hwords, List.flatMap_map, Words.bytes, Standard.bitsOfBytes,
    List.flatMap_assoc]
  exact List.flatMap_congr fun w _ => bitsOfBytes_bytesOfWord w

/-! ### Digests -/

/-- The digest is that of the standard. -/
theorem hex_eq (message : Bytes) : hex message = Standard.text (Standard.bitsOfBytes message) := by
  obtain ⟨blocks, hblocks⟩ := length_padding message
  obtain ⟨v, habsorb, hhash⟩ := hash_absorb (message ++ padding message.length) (le_of_eq hblocks.symm)
  rw [← hblocks, List.take_length] at habsorb
  have hcount : (Standard.pad (Standard.bitsOfBytes message)).length / 512 = blocks := by
    rw [← bitsOfBytes_padding, length_bitsOfBytes, hblocks, blockLength]
    omega
  rw [hex, digest, habsorb, hexOfBytes_eq, bitsOfBytes_bytes, hhash, Standard.text, Standard.digest, hcount,
    bitsOfBytes_padding]

/-- What a hasher would end with, before the first piece and after each of them. -/
theorem Hasher.Fed.scanl {h : Hasher} {message : Bytes} (hfed : h.Fed message) (pieces : List Bytes) :
    (pieces.scanl Hasher.update h).map Hasher.finish = pieces.inits.map fun fed => hex (message ++ fed.flatten) := by
  induction pieces generalizing h message with
  | nil => simp [hfed.finish]
  | cons piece rest ih =>
    rw [List.scanl_cons, List.inits_cons, List.map_cons, List.map_cons, hfed.finish, ih (hfed.update piece),
      List.map_map]
    simp [Function.comp_def]

/-- **Hashing in pieces is hashing in one.**  While a hasher is fed pieces, its digest is that of what it has been fed
so far, whatever comes later, and in the end that of them all.  A digest is a text of sixty-four lowercase hexadecimal
digits, the one that the standard computes from the bits of the message. -/
theorem digests_of_pieces (pieces : List Bytes) :
    (pieces.scanl Hasher.update Hasher.empty).map Hasher.finish = pieces.inits.map (fun fed => hex fed.flatten) ∧
      (pieces.foldl Hasher.update Hasher.empty).finish = hex pieces.flatten ∧
      ∀ message, IsDigest (hex message) ∧ hex message = Standard.text (Standard.bitsOfBytes message) :=
  ⟨Hasher.fed_empty.scanl pieces, finish_foldl_update pieces, fun message => ⟨isDigest_hex message, hex_eq message⟩⟩

example : hex [] = "e3b0c44298fc1c149afbf4c8996fb92427ae41e4649b934ca495991b7852b855" := by decide +kernel

end ChunkedStorage.Sha256
