import StepLang.Token

/-! # Errors

What can go wrong while a program is read and run: each cause with what its message tells, the
stage it belongs to, and how far its effect reaches.
-/

namespace StepLang

/-- Text that is no token. -/
inductive LexicalFault where
  | unterminatedText
  | unterminatedComment
  | unexpectedChar (char : Char)
  | unknownMacroWord (word : String)
  deriving DecidableEq, Repr

def LexicalFault.message (pos : Position) : LexicalFault → String
  | .unterminatedText =>
    s!"Unterminated string starting at line {pos.line}, column {pos.column}"
  | .unterminatedComment =>
    s!"Unterminated comment starting at line {pos.line}, column {pos.column}"
  | .unexpectedChar c => s!"Unexpected character '{c}' at line {pos.line}, column {pos.column}"
  | .unknownMacroWord word =>
    s!"Unknown macro keyword %{word} at line {pos.line}, column {pos.column}"

/-- Digits that are no number, and statements that are out of place or incomplete. -/
inductive SyntaxFault where
  | invalidNumber (text : String)
  | unknownLibnameOption (option : String)
  | misplacedStatement (lexeme : String)
  | arrayWithoutVariables (array : String)
  | lengthWithoutVariable
  | invalidLength (lexeme : String)
  | invalidRange (first last : String)
  | invalidOption (lexeme procedure : String)
  | invalidStatement (lexeme procedure : String)
  | sortWithoutBy
  | meansWithoutVar
  | outputWithoutOut
  deriving DecidableEq, Repr

def SyntaxFault.message : SyntaxFault → String
  | .invalidNumber text => s!"Invalid number: {text}"
  | .unknownLibnameOption option => s!"Unknown LIBNAME option {option}"
  | .misplacedStatement lexeme =>
    s!"Statement is not valid or it is used out of proper order: {lexeme}"
  | .arrayWithoutVariables array => s!"Array {array} with size * needs a variable list"
  | .lengthWithoutVariable => "LENGTH needs a variable"
  | .invalidLength lexeme => s!"Invalid length {lexeme}"
  | .invalidRange first last => s!"Invalid variable range {first}-{last}"
  | .invalidOption lexeme procedure => s!"Option {lexeme} is not valid for PROC {procedure}"
  | .invalidStatement lexeme procedure => s!"Statement {lexeme} is not valid in PROC {procedure}"
  | .sortWithoutBy => "PROC SORT requires a BY statement"
  | .meansWithoutVar => "PROC MEANS requires a VAR statement"
  | .outputWithoutOut => "OUTPUT requires OUT="

inductive FileFault where
  | notFound
  | isDirectory
  | notDirectory
  | nameTooLong
  | nulInName
  | notUtf8
  deriving DecidableEq, Repr

def FileFault.message : FileFault → String
  | .notFound => "No such file or directory (os error 2)"
  | .isDirectory => "Is a directory (os error 21)"
  | .notDirectory => "Not a directory (os error 20)"
  | .nameTooLong => "File name too long (os error 36)"
  | .nulInName => "file name contained an unexpected NUL byte"
  | .notUtf8 => "stream did not contain valid UTF-8"

/-- Why the text of a file is no data set. Records are counted from zero with the header, lines
from one, and bytes and fields from zero. -/
inductive CodecFault where
  | json
  | unequalLengths (record line byte found expected : Nat)
  | invalidUtf8 (record line byte field index : Nat)
  deriving DecidableEq, Repr

def CodecFault.message : CodecFault → String
  | .json => "Codec error in json engine"
  | .unequalLengths record line byte found expected =>
    s!"Codec error in csv engine: CSV error: record {record} (line: {line}, byte: {byte}): " ++
      s!"found record with {found} fields, but the previous record has {expected} fields"
  | .invalidUtf8 record line byte field index =>
    s!"Codec error in csv engine: CSV parse error: record {record} " ++
      s!"(line {line}, field: {field}, byte: {byte}): " ++
      s!"invalid utf-8: invalid UTF-8 in field {field} near byte index {index}"

inductive ConfigFault where
  | invalidJson
  | loopLimitNotPositive
  | workReassigned
  | invalidLibref (name : String)
  deriving DecidableEq, Repr

def ConfigFault.message : ConfigFault → String
  | .invalidJson => "invalid JSON"
  | .loopLimitNotPositive => "max_loop_iterations must be positive"
  | .workReassigned => "WORK cannot be reassigned"
  | .invalidLibref name => s!"Invalid libref {name}"

inductive Error where
  | lexical (fault : LexicalFault) (pos : Position)
  | malformed (fault : SyntaxFault) (pos : Position)
  | unexpectedToken (expected : String) (got : Token.Kind) (pos : Position)
  | unexpectedEnd
  | arraySize (array : String) (declared actual : Nat)
  | unsupportedMacro (word : String) (line : Nat)
  | unassignedLibrary (libref : String)
  | noDataset (name : String)
  | readOnlyLibrary (libref : String)
  | noLibraryPath (path : String)
  | noVariable (name dataset : String)
  | undefinedArray (array : String)
  | subscriptOutOfRange (array : String) (index : Int) (size : Nat)
  | unsupportedStatement (description : String)
  | unsupportedProcedure (name : String)
  | undefinedFunction (name : String)
  | invalidArguments (function reason : String)
  | zeroIncrement (index : String)
  | invalidBounds (index reason : String)
  | tooManyIterations (limit : Nat)
  | notImplemented (feature : String)
  | file (path : String) (fault : FileFault)
  | codec (fault : CodecFault)
  | config (fault : ConfigFault)
  deriving DecidableEq, Repr

namespace Error

def message : Error → String
  | lexical fault pos => fault.message pos
  | malformed fault pos =>
    s!"Syntax error at line {pos.line}, column {pos.column}: {fault.message}"
  | unexpectedToken expected got pos =>
    s!"Unexpected token at line {pos.line}, column {pos.column}: " ++
      s!"expected {expected}, got {got.toText}"
  | unexpectedEnd => "Unexpected end of input"
  | arraySize array declared actual =>
    s!"Array {array} declares {declared} elements but lists {actual} variables"
  | unsupportedMacro word line => s!"Macro statement %{word} is not supported at line {line}"
  | unassignedLibrary libref => s!"Libref {libref} is not assigned"
  | noDataset name => s!"Dataset {name} does not exist"
  | readOnlyLibrary libref => s!"Library {libref} is read-only"
  | noLibraryPath path => s!"Library path {path} does not exist"
  | noVariable name dataset => s!"Variable {name} not found in {dataset}"
  | undefinedArray array => s!"Undefined array: {array}"
  | subscriptOutOfRange array index size =>
    s!"Array subscript out of range: {array}[{index}] (size {size})"
  | unsupportedStatement description => s!"Unsupported statement: {description}"
  | unsupportedProcedure name => s!"Procedure {name} is not supported"
  | undefinedFunction name => s!"Undefined function: {name}"
  | invalidArguments function reason =>
    s!"Invalid arguments for function {function}: {reason}"
  | zeroIncrement index => s!"DO loop increment for {index} is zero"
  | invalidBounds index reason => s!"Invalid DO loop bounds for {index}: {reason}"
  | tooManyIterations limit => s!"Too many iterations (limit: {limit})"
  | notImplemented feature => s!"Not implemented: {feature}"
  | file path fault => s!"I/O error on {path}: {fault.message}"
  | codec fault => fault.message
  | config fault => s!"Configuration error: {fault.message}"

inductive Stage where
  | lexing
  | parsing
  | execution
  | storage
  | configuration
  deriving DecidableEq, Repr

def stage : Error → Stage
  | lexical .. => .lexing
  | malformed .. | unexpectedToken .. | unexpectedEnd | arraySize .. | unsupportedMacro .. =>
    .parsing
  | file .. | codec _ => .storage
  | config _ => .configuration
  | _ => .execution

/-- How far the effect of an error reaches: the whole input, the unit at hand, or nothing. -/
inductive Severity where
  | fatal
  | recoverable
  | warning
  deriving DecidableEq, Repr

def severity (e : Error) : Severity :=
  match e.stage with
  | .lexing | .configuration => .fatal
  | .parsing | .storage => .recoverable
  | .execution =>
    match e with
    | notImplemented _ => .warning
    | _ => .recoverable

end Error

end StepLang
