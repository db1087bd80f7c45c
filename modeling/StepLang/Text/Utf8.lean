/-! # Decoding UTF-8

Bytes are decoded strictly: shortest forms only, no surrogates, nothing beyond the last code
point. A failure tells how many bytes were good.
-/

namespace StepLang.Text

/-- A continuation byte. -/
def isTrail (b : UInt8) : Bool :=
  b.toNat / 64 == 2

/-- The six bits of a continuation byte. -/
def trailBits (b : UInt8) : Nat :=
  b.toNat % 64

/-- The code point of a sequence, if it is encoded in its shortest form and is a character. -/
def scalar? (least n : Nat) : Option Char :=
  if least ≤ n ∧ n.isValidChar then some (Char.ofNat n) else none

/-- The characters of bytes, the first of which stands at `offset`; otherwise the offset of the
first byte that starts no character. -/
def decodeFrom (offset : Nat) : List UInt8 → Except Nat (List Char)
  | [] => .ok []
  | a :: rest =>
    let n := a.toNat
    if n < 0x80 then do
      return Char.ofNat n :: (← decodeFrom (offset + 1) rest)
    else if 0xC0 ≤ n ∧ n < 0xE0 then
      match rest with
      | b :: rest =>
        match scalar? 0x80 (n % 32 * 64 + trailBits b), isTrail b with
        | some c, true => do return c :: (← decodeFrom (offset + 2) rest)
        | _, _ => .error offset
      | _ => .error offset
    else if 0xE0 ≤ n ∧ n < 0xF0 then
      match rest with
      | b :: c :: rest =>
        let code := (n % 16 * 64 + trailBits b) * 64 + trailBits c
        match scalar? 0x800 code, isTrail b && isTrail c with
        | some char, true => do return char :: (← decodeFrom (offset + 3) rest)
        | _, _ => .error offset
      | _ => .error offset
    else if 0xF0 ≤ n ∧ n < 0xF8 then
      match rest with
      | b :: c :: d :: rest =>
        let code := ((n % 8 * 64 + trailBits b) * 64 + trailBits c) * 64 + trailBits d
        match scalar? 0x10000 code, isTrail b && isTrail c && isTrail d with
        | some char, true => do return char :: (← decodeFrom (offset + 4) rest)
        | _, _ => .error offset
      | _ => .error offset
    else .error offset

/-- The text of bytes, or the count of good bytes before the first bad one. -/
def decode (bytes : List UInt8) : Except Nat String :=
  (decodeFrom 0 bytes).map String.ofList

end StepLang.Text
