/-! # The parts of a number

A number is a binary fraction of double precision: a sign and a mantissa scaled by a power of two.
Integer parts, remainders and integer ranges are computed exactly from these parts.
-/

namespace StepLang.Number

/-- A number taken apart; a finite one has magnitude `mantissa * 2 ^ exponent`. -/
inductive Parts where
  | missing
  | infinite (negative : Bool)
  | finite (negative : Bool) (mantissa : Nat) (exponent : Int)
  deriving DecidableEq, Repr

def leadingBit : Nat := 0x10000000000000

/-- The parts of a number, read off its 64 bits: a sign, eleven bits of scale and a fraction. -/
def parts (x : Float) : Parts :=
  let bits := x.toBits.toNat
  let negative := bits >>> 63 == 1
  let scale : Nat := (bits / leadingBit) % 2048
  let fraction := bits % leadingBit
  if scale == 2047 then
    if fraction == 0 then .infinite negative else .missing
  else if scale == 0 then .finite negative fraction (-1074)
  else .finite negative (leadingBit + fraction) (Int.ofNat scale - 1075)

def missing : Float := 0.0 / 0.0

/-- The number with the given sign and the magnitude of `x`. -/
def signed (negative : Bool) (x : Float) : Float :=
  if negative then -x else x

/-- The power of two `2 ^ e`, for `-1074 ≤ e ≤ 1023`. -/
def powerOfTwo (e : Int) : Float :=
  if e < -1022 then Float.ofBits (UInt64.ofNat (1 <<< (e + 1074).toNat))
  else Float.ofBits (UInt64.ofNat ((e + 1023).toNat * leadingBit))

/-- How the digits after the point decide on the integer that replaces a number. -/
inductive Rounding where
  | towardZero
  | down
  | up
  | halfAway
  deriving DecidableEq, Repr

/-- The magnitude of the integer that replaces `mantissa / 2 ^ k`. -/
def Rounding.apply (r : Rounding) (negative : Bool) (mantissa k : Nat) : Nat :=
  let whole := mantissa >>> k
  let exact := mantissa == whole <<< k
  match r with
  | .towardZero => whole
  | .down => if negative && !exact then whole + 1 else whole
  | .up => if !negative && !exact then whole + 1 else whole
  | .halfAway => (mantissa + (1 <<< k) / 2) >>> k

/-- Replaces a number by an integer. A number without a fraction stays, and zero keeps its sign. -/
def toWhole (r : Rounding) (x : Float) : Float :=
  match parts x with
  | .finite negative m e =>
    if 0 ≤ e then x else signed negative (Float.ofNat (r.apply negative m e.natAbs))
  | _ => x

def truncate : Float → Float := toWhole .towardZero

def floor : Float → Float := toWhole .down

def ceiling : Float → Float := toWhole .up

/-- The nearest integer; a half goes away from zero. -/
def nearest : Float → Float := toWhole .halfAway

def isWhole (x : Float) : Bool :=
  match parts x with
  | .finite _ m e => 0 ≤ e || m == (m >>> e.natAbs) <<< e.natAbs
  | _ => false

structure Bounds where
  low : Int
  high : Int
  deriving DecidableEq, Repr

namespace Bounds

def signed32 : Bounds := ⟨-0x80000000, 0x7fffffff⟩

def signed64 : Bounds := ⟨-0x8000000000000000, 0x7fffffffffffffff⟩

def count32 : Bounds := ⟨0, 0xffffffff⟩

def count64 : Bounds := ⟨0, 0xffffffffffffffff⟩

/-- The integer of the range that is nearest to `n`. -/
def nearest (b : Bounds) (n : Int) : Int :=
  max b.low (min b.high n)

end Bounds

/-- The number without its fraction as an integer of a range: a number beyond an end of the range
gives that end, and the missing number gives zero. -/
def clamp (b : Bounds) (x : Float) : Int :=
  match parts x with
  | .missing => 0
  | .infinite negative => if negative then b.low else b.high
  | .finite negative m e =>
    let whole : Nat := if 0 ≤ e then m <<< e.natAbs else m >>> e.natAbs
    b.nearest (if negative then -whole else whole)

/-- The number without its fraction as a count; a negative number gives zero. -/
def toCount (x : Float) : Nat :=
  (clamp .count64 x).toNat

/-- The remainder of a division with the sign of the dividend, exactly. -/
def remainder (x y : Float) : Float :=
  match parts x, parts y with
  | .finite negative m e, .finite _ m' e' =>
    if m' == 0 then missing
    else
      let least := min e e'
      let rest := (m <<< (e - least).toNat) % (m' <<< (e' - least).toNat)
      signed negative (Float.ofNat rest * powerOfTwo least)
  | .finite .., .infinite _ => x
  | _, _ => missing

/-- The power of a number with an integer exponent, by repeated squaring. -/
def integerPower (base : Float) (exponent : Int) : Float :=
  let power := square base 1.0 exponent.natAbs
  if exponent < 0 then 1.0 / power else power
where
  /-- The product of `acc` and `base ^ n`. -/
  square (base acc : Float) (n : Nat) : Float :=
    if n = 0 then acc
    else
      let acc := if n % 2 = 1 then acc * base else acc
      if n / 2 = 0 then acc else square (base * base) acc (n / 2)
  termination_by n

end StepLang.Number
