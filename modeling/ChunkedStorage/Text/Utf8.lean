import ChunkedStorage.Span

/-!
# Text as bytes

UTF-8 encoding, and a decoding that keeps the place of every byte that belongs to no character.
-/

namespace ChunkedStorage.Text

def encode (s : String) : Bytes := s.toUTF8.data.toList

/-- The value of a continuation byte. -/
def tail? (b : UInt8) : Option Nat := if 0x80 ≤ b ∧ b < 0xC0 then some (b.toNat - 0x80) else none

/-- The character with the given number, if its shortest encoding has `length` bytes. -/
def scalar? (n length : Nat) : Option Char :=
  let c := Char.ofNat n
  if c.toNat = n ∧ c.utf8Size = length then some c else none

/-- The character that the bytes start with. -/
def first? (b : UInt8) (rest : Bytes) : Option Char := do
  if b < 0x80 then some (Char.ofNat b.toNat)
  else if b < 0xC0 then none
  else if b < 0xE0 then
    scalar? ((b.toNat - 0xC0) * 64 + (← tail? (← rest[0]?))) 2
  else if b < 0xF0 then
    scalar? (((b.toNat - 0xE0) * 64 + (← tail? (← rest[0]?))) * 64 + (← tail? (← rest[1]?))) 3
  else if b < 0xF8 then
    scalar? ((((b.toNat - 0xF0) * 64 + (← tail? (← rest[0]?))) * 64 + (← tail? (← rest[1]?))) * 64
      + (← tail? (← rest[2]?))) 4
  else none

/-- Decodes character by character; a byte that starts no character stands as `none`. -/
def decodeSpoiled : Bytes → List (Option Char)
  | [] => []
  | b :: rest =>
    match first? b rest with
    | some c => some c :: decodeSpoiled (rest.drop (c.utf8Size - 1))
    | none => none :: decodeSpoiled rest
termination_by bytes => bytes.length
decreasing_by all_goals simp only [List.length_drop, List.length_cons]; omega

/-- The characters that the bytes encode, if all belong to characters. -/
def decode? (bytes : Bytes) : Option String := String.fromUTF8? bytes.toByteArray

/-- The characters that the bytes encode, with `none` for each byte that belongs to no character. -/
def decode (bytes : Bytes) : List (Option Char) :=
  match decode? bytes with
  | some s => s.toList.map some
  | none => decodeSpoiled bytes

end ChunkedStorage.Text
