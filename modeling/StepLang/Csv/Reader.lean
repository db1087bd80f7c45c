import StepLang.Error
import StepLang.Text.Utf8

/-! # Reading comma-separated values

Fields are divided by commas and records by line ends. A field in quotes may hold both, and a quote
that is written twice stands for one. Blank lines hold no record.
-/

namespace StepLang.Csv

def comma : UInt8 := 0x2C
def quote : UInt8 := 0x22
def lineFeed : UInt8 := 0x0A
def carriageReturn : UInt8 := 0x0D

def isLineEnd (b : UInt8) : Bool :=
  b == lineFeed || b == carriageReturn

/-- A place among bytes: the number of the record that is read there, the line, and the offset. -/
structure Place where
  record : Nat
  line : Nat
  byte : Nat

def Place.next (p : Place) (b : UInt8) : Place :=
  { p with line := if b == lineFeed then p.line + 1 else p.line, byte := p.byte + 1 }

/-- Where reading stands in a field: before it, in plain text, between quotes, or behind a quote
that may be the closing one. -/
inductive Mode where
  | start
  | plain
  | quoted
  | closing

/-- A record: its fields, and the bytes behind its line end with their place. -/
structure Record where
  fields : List (List UInt8)
  rest : List UInt8
  place : Place

/-- Reads the fields of a record through its line end. The field at hand and the fields before it
are kept with the last one first. -/
def readFields : Mode → (field : List UInt8) → (fields : List (List UInt8)) → Place →
    List UInt8 → Record
  | _, field, fields, place, [] => ⟨(field.reverse :: fields).reverse, [], place⟩
  | .quoted, field, fields, place, b :: bs =>
    if b == quote then readFields .closing field fields (place.next b) bs
    else readFields .quoted (b :: field) fields (place.next b) bs
  | mode, field, fields, place, b :: bs =>
    let place := place.next b
    if b == comma then readFields .start [] (field.reverse :: fields) place bs
    else if isLineEnd b then ⟨(field.reverse :: fields).reverse, bs, place⟩
    else if b == quote then
      match mode with
      | .start => readFields .quoted field fields place bs
      | .closing => readFields .quoted (b :: field) fields place bs
      | _ => readFields .plain (b :: field) fields place bs
    else readFields .plain (b :: field) fields place bs

/-- The records of bytes with the places from which they were read. Blank lines before a record
are read with it. The bound is on the number of records. -/
def readRecords : (bound : Nat) → Place → List UInt8 → List (Place × List (List UInt8))
  | 0, _, _ => []
  | bound + 1, place, bytes =>
    match bytes.dropWhile isLineEnd with
    | [] => []
    | b :: bs =>
      let start := (bytes.takeWhile isLineEnd).foldl Place.next place
      let record := readFields .start [] [] start (b :: bs)
      (place, record.fields) ::
        readRecords bound { record.place with record := place.record + 1 } record.rest

def decodeFields (place : Place) : (index : Nat) → List (List UInt8) →
    Except CodecFault (List String)
  | _, [] => .ok []
  | i, f :: fs =>
    match Text.decode f with
    | .ok s => do return s :: (← decodeFields place (i + 1) fs)
    | .error n => .error (.invalidUtf8 place.record place.line place.byte i n)

def checkRecord (expected : Nat) (r : Place × List (List UInt8)) :
    Except CodecFault (List String) :=
  let (place, fields) := r
  if fields.length = expected then decodeFields place 0 fields
  else .error (.unequalLengths place.record place.line place.byte fields.length expected)

/-- The bytes without a byte order mark, and its length. -/
def dropMark : List UInt8 → List UInt8 × Nat
  | 0xEF :: 0xBB :: 0xBF :: rest => (rest, 3)
  | bytes => (bytes, 0)

/-- The header and the records of a file; all have the same number of fields. -/
def read (bytes : List UInt8) : Except CodecFault (List String × List (List String)) :=
  let (bytes, mark) := dropMark bytes
  match readRecords (bytes.length + 1) ⟨0, 1, mark⟩ bytes with
  | [] => .ok ([], [])
  | (place, header) :: records => do
    let names ← decodeFields { place with byte := 0 } 0 header
    let rows ← records.mapM (checkRecord header.length)
    return (names, rows)

end StepLang.Csv
