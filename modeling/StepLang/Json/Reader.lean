import StepLang.Json.Document
import StepLang.Json.Numeral

/-! # Reading JSON

A text is read from left to right; each reader gives a value and the rest of the text.
-/

namespace StepLang.Json

def isSpace (c : Char) : Bool :=
  c == ' ' || c == '\n' || c == '\t' || c == '\r'

def skipSpace (cs : List Char) : List Char :=
  cs.dropWhile isSpace

def hexDigit? (c : Char) : Option Nat :=
  if c.isDigit then some (c.toNat - '0'.toNat)
  else if 'a' ≤ c ∧ c ≤ 'f' then some (c.toNat - 'a'.toNat + 10)
  else if 'A' ≤ c ∧ c ≤ 'F' then some (c.toNat - 'A'.toNat + 10)
  else none

def readHex : List Char → Option (Nat × List Char)
  | a :: b :: c :: d :: rest => do
    let n := ((← hexDigit? a) * 16 + (← hexDigit? b)) * 256
    return (n + (← hexDigit? c) * 16 + (← hexDigit? d), rest)
  | _ => none

def isHighSurrogate (n : Nat) : Bool := 0xD800 ≤ n && n ≤ 0xDBFF

def isLowSurrogate (n : Nat) : Bool := 0xDC00 ≤ n && n ≤ 0xDFFF

/-- The character of a code behind `\u`; an unpaired half of a surrogate pair has none. -/
def readUnicode (cs : List Char) : Option (Option Char × List Char) := do
  let (n, rest) ← readHex cs
  if isHighSurrogate n then
    match rest with
    | '\\' :: 'u' :: more =>
      let (m, rest) ← readHex more
      if isLowSurrogate m then
        return (some (Char.ofNat (0x10000 + (n - 0xD800) * 0x400 + (m - 0xDC00))), rest)
      else return (none, rest)
    | _ => return (none, rest)
  else if isLowSurrogate n then return (none, rest)
  else return (some (Char.ofNat n), rest)

def readEscape : List Char → Option (Option Char × List Char)
  | '"' :: cs => some (some '"', cs)
  | '\\' :: cs => some (some '\\', cs)
  | '/' :: cs => some (some '/', cs)
  | 'b' :: cs => some (some '\x08', cs)
  | 'f' :: cs => some (some '\x0c', cs)
  | 'n' :: cs => some (some '\n', cs)
  | 'r' :: cs => some (some '\r', cs)
  | 't' :: cs => some (some '\t', cs)
  | 'u' :: cs => readUnicode cs
  | _ => none

/-- The length of a string behind its opening quote, without the closing one. -/
def stringLength? : List Char → Option Nat
  | [] => none
  | '"' :: _ => some 0
  | '\\' :: _ :: cs => (stringLength? cs).map (· + 2)
  | _ :: cs => (stringLength? cs).map (· + 1)

/-- The characters of a string between its quotes, the last one first; none in place of those that
are no character. The bound is on their count. -/
def readChars : Nat → List Char → List (Option Char) → Option (List (Option Char))
  | _, [], acc => some acc
  | 0, _, _ => none
  | bound + 1, c :: cs, acc =>
    if c = '\\' then do
      let (d, rest) ← readEscape cs
      readChars bound rest (d :: acc)
    else if c.toNat < 0x20 then none
    else readChars bound cs (some c :: acc)

/-- A string behind its opening quote; none if it is no text. -/
def readString (cs : List Char) : Option (Option String × List Char) := do
  let n ← stringLength? cs
  let chars ← readChars n (cs.take n) []
  return ((chars.reverse.mapM id).map String.ofList, cs.drop (n + 1))

def readDigits (cs : List Char) : Option (List Char × List Char) :=
  let digits := cs.takeWhile Char.isDigit
  if digits.isEmpty then none else some (digits, cs.dropWhile Char.isDigit)

/-- The digits of a whole number; a zero stands alone. -/
def readWhole : List Char → Option (List Char × List Char)
  | '0' :: cs =>
    match cs with
    | c :: _ => if c.isDigit then none else some (['0'], cs)
    | [] => some (['0'], cs)
  | cs => readDigits cs

def readPower (cs : List Char) : Option (Option Int × List Char) :=
  match cs with
  | c :: rest =>
    if c = 'e' ∨ c = 'E' then do
      let (negative, digits) := Number.splitSign rest
      let (digits, rest) ← readDigits digits
      let n : Int := Number.digitsValue digits
      return (some (if negative then -n else n), rest)
    else some (none, cs)
  | [] => some (none, cs)

/-- The number with the given digits: an integer if it has neither a point nor a power of ten and
fits into 64 bits. -/
def numberOf (negative : Bool) (whole : List Char) (fraction : Option (List Char))
    (power : Option Int) : Document :=
  let signed (x : Float) := if negative then -x else x
  match Numeral.ofDigits whole (fraction.getD []), fraction, power with
  | ⟨n, 0⟩, none, none =>
    if !negative then .integer n
    else if n = 0 ∨ -(n : Int) < Number.Bounds.signed64.low then .number (-Float.ofNat n)
    else .integer (-n)
  | ⟨n, e⟩, _, _ => .number (signed (Numeral.value ⟨n, e + power.getD 0⟩))

def readNumber (cs : List Char) : Option (Document × List Char) := do
  let (negative, cs) := match cs with
    | '-' :: rest => (true, rest)
    | _ => (false, cs)
  let (whole, cs) ← readWhole cs
  let (fraction, cs) ← match cs with
    | '.' :: rest => (readDigits rest).map fun (digits, rest) => (some digits, rest)
    | _ => some (none, cs)
  let (power, cs) ← readPower cs
  return (numberOf negative whole fraction power, cs)

mutual

/-- A value of a nesting that the bound allows. -/
def readValue : Nat → List Char → Option (Document × List Char)
  | 0, _ => none
  | bound + 1, cs =>
    match skipSpace cs with
    | 'n' :: 'u' :: 'l' :: 'l' :: rest => some (.null, rest)
    | 't' :: 'r' :: 'u' :: 'e' :: rest => some (.bool true, rest)
    | 'f' :: 'a' :: 'l' :: 's' :: 'e' :: rest => some (.bool false, rest)
    | '"' :: rest => do
      let (s, rest) ← readString rest
      return (s.elim .broken .text, rest)
    | '[' :: rest =>
      match skipSpace rest with
      | ']' :: rest => some (.list [], rest)
      | _ => do
        let (items, rest) ← readItems bound rest
        return (.list items, rest)
    | '\x7b' :: rest =>
      match skipSpace rest with
      | '\x7d' :: rest => some (.record [], rest)
      | _ => do
        let (members, rest) ← readMembers bound rest
        return (members.elim .broken .record, rest)
    | rest => readNumber rest

def readItems : Nat → List Char → Option (List Document × List Char)
  | 0, _ => none
  | bound + 1, cs => do
    let (item, rest) ← readValue bound cs
    match skipSpace rest with
    | ',' :: rest =>
      let (items, rest) ← readItems bound rest
      return (item :: items, rest)
    | ']' :: rest => return ([item], rest)
    | _ => none

/-- The members of a record through its closing brace; none if a key is no text. -/
def readMembers : Nat → List Char → Option (Option (List (String × Document)) × List Char)
  | 0, _ => none
  | bound + 1, cs => do
    match skipSpace cs with
    | '"' :: rest =>
      let (key, rest) ← readString rest
      match skipSpace rest with
      | ':' :: rest =>
        let (value, rest) ← readValue bound rest
        match skipSpace rest with
        | ',' :: rest =>
          let (members, rest) ← readMembers bound rest
          return (return (← key, value) :: (← members), rest)
        | '\x7d' :: rest => return (key.map fun key => [(key, value)], rest)
        | _ => none
      | _ => none
    | _ => none

end

def read? (s : String) : Option Document :=
  let cs := s.toList
  match readValue (2 * cs.length + 2) cs with
  | some (d, rest) => if (skipSpace rest).isEmpty then some d else none
  | none => none

end StepLang.Json
