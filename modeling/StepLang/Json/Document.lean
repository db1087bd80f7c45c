/-! # JSON documents

The values that JSON texts denote. Whole numbers of 64 bits are kept apart from other numbers.
-/

namespace StepLang.Json

/-- A JSON value. A string with an unpaired half of a surrogate pair is no text: it is broken, and
so is a record with such a key. A number beyond all finite ones is infinite. Both are allowed where
a value is not looked at. -/
inductive Document where
  | null
  | bool (b : Bool)
  | integer (n : Int)
  | number (x : Float)
  | text (s : String)
  | broken
  | list (items : List Document)
  | record (members : List (String × Document))
  deriving Inhabited

end StepLang.Json
