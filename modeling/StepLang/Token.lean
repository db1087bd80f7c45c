import StepLang.Number.Decimal
import StepLang.Text.Letters

/-! # Tokens

The words, literals and symbols that program text is made of, and the reserved words that name
them. Reserved words are recognised in any case of letters.
-/

namespace StepLang

/-- A place in a text; lines and columns are counted from one, columns in characters. -/
structure Position where
  line : Nat
  column : Nat
  deriving DecidableEq, Repr, Inhabited

def Position.start : Position := ⟨1, 1⟩

def Position.next (p : Position) (c : Char) : Position :=
  if c = '\n' then ⟨p.line + 1, 1⟩ else ⟨p.line, p.column + 1⟩

def Position.after (p : Position) (text : List Char) : Position :=
  text.foldl Position.next p

inductive Keyword where
  | DATA | SET | MERGE | BY | IF | THEN | ELSE | ELSEIF | OUTPUT | DELETE | STOP | RUN | QUIT
  | OPTIONS | LIBNAME | TITLE | PROC | DROP | KEEP | RETAIN | ARRAY | LENGTH | INPUT | DATALINES
  | DO | END | TO | VAR | WHILE | UNTIL | AND | OR | NOT | SORT | MEANS | PRINT | FREQ | SQL
  | OUT | WHERE | NODUPKEY | NODUPRECS | DUPLICATES | DESCENDING | TABLES | OBS | NOOBS | N
  | NMISS | SUM | MEAN | MIN | MAX | SELECT | FROM | CREATE | TABLE
  deriving DecidableEq, Repr

def Keyword.toText : Keyword → String
  | .DATA => "DATA" | .SET => "SET" | .MERGE => "MERGE" | .BY => "BY" | .IF => "IF"
  | .THEN => "THEN" | .ELSE => "ELSE" | .ELSEIF => "ELSE IF" | .OUTPUT => "OUTPUT"
  | .DELETE => "DELETE" | .STOP => "STOP" | .RUN => "RUN" | .QUIT => "QUIT"
  | .OPTIONS => "OPTIONS" | .LIBNAME => "LIBNAME" | .TITLE => "TITLE" | .PROC => "PROC"
  | .DROP => "DROP" | .KEEP => "KEEP" | .RETAIN => "RETAIN" | .ARRAY => "ARRAY"
  | .LENGTH => "LENGTH" | .INPUT => "INPUT" | .DATALINES => "DATALINES" | .DO => "DO"
  | .END => "END" | .TO => "TO" | .VAR => "VAR" | .WHILE => "WHILE" | .UNTIL => "UNTIL"
  | .AND => "AND" | .OR => "OR" | .NOT => "NOT" | .SORT => "SORT" | .MEANS => "MEANS"
  | .PRINT => "PRINT" | .FREQ => "FREQ" | .SQL => "SQL" | .OUT => "OUT" | .WHERE => "WHERE"
  | .NODUPKEY => "NODUPKEY" | .NODUPRECS => "NODUPRECS" | .DUPLICATES => "DUPLICATES"
  | .DESCENDING => "DESCENDING" | .TABLES => "TABLES" | .OBS => "OBS" | .NOOBS => "NOOBS"
  | .N => "N" | .NMISS => "NMISS" | .SUM => "SUM" | .MEAN => "MEAN" | .MIN => "MIN"
  | .MAX => "MAX" | .SELECT => "SELECT" | .FROM => "FROM" | .CREATE => "CREATE"
  | .TABLE => "TABLE"

/-- The keyword may also name a variable: it does not divide a statement into its parts. -/
def Keyword.isSoft : Keyword → Bool
  | .IF | .THEN | .ELSE | .ELSEIF | .DO | .END | .TO | .AND | .OR | .NOT => false
  | _ => true

def Keyword.startsStep : Keyword → Bool
  | .DATA | .PROC => true
  | _ => false

/-- Words of the macro language, written behind a percent sign. -/
inductive MacroWord where
  | LET | MACRO | MEND | DO | IF | THEN | ELSE
  deriving DecidableEq, Repr

def MacroWord.toText : MacroWord → String
  | .LET => "MACROLET" | .MACRO => "MACRODEF" | .MEND => "MACROEND" | .DO => "MACRODO"
  | .IF => "MACROIF" | .THEN => "MACROTHEN" | .ELSE => "MACROELSE"

inductive Symbol where
  | plus | minus | star | starStar | slash | assign | eq | notEq | lt | gt | ltEq | gtEq | concat
  | leftParen | rightParen | leftBrace | rightBrace | leftBracket | rightBracket
  | comma | semicolon | dot | dollar
  deriving DecidableEq, Repr

def Symbol.toText : Symbol → String
  | .plus => "+" | .minus => "-" | .star => "*" | .starStar => "**" | .slash => "/"
  | .assign => "=" | .eq => "==" | .notEq => "!=" | .lt => "<" | .gt => ">" | .ltEq => "<="
  | .gtEq => ">=" | .concat => "||" | .leftParen => "(" | .rightParen => ")"
  | .leftBrace => "\x7b" | .rightBrace => "\x7d" | .leftBracket => "[" | .rightBracket => "]"
  | .comma => "," | .semicolon => ";" | .dot => "." | .dollar => "$"

inductive Token.Kind where
  | number (value : Float)
  | text (value : String)
  | name (name : String)
  | macroName (name : String)
  | dataLines (body : String)
  | keyword (word : Keyword)
  | macroWord (word : MacroWord)
  | symbol (symbol : Symbol)
  | endOfInput
  deriving DecidableEq, Repr, Inhabited

/-- A token with the text it was read from and the place where that text starts. -/
structure Token where
  kind : Token.Kind
  lexeme : String
  pos : Position
  deriving DecidableEq, Repr, Inhabited

namespace Token

def Kind.toText : Kind → String
  | .number x => Number.toText x
  | .text s => "'" ++ s ++ "'"
  | .name s => s
  | .macroName s => "&" ++ s
  | .dataLines _ => "datalines"
  | .keyword k => k.toText
  | .macroWord m => m.toText
  | .symbol s => s.toText
  | .endOfInput => "end of input"

/-- The token is a word of the language, not a literal, a name or a symbol. -/
def Kind.isReserved : Kind → Bool
  | .keyword _ | .macroWord _ => true
  | _ => false

/-- The token is a reserved word that may name a variable. -/
def Kind.isSoft : Kind → Bool
  | .keyword k => k.isSoft
  | _ => false

def Kind.startsStep : Kind → Bool
  | .keyword k => k.startsStep
  | _ => false

/-- The reserved words and what they stand for. Comparison operators have a word each. -/
def Kind.reserved : List (String × Kind) :=
  let keyword (k : Keyword) := (k.toText, Kind.keyword k)
  [keyword .DATA, keyword .SET, keyword .MERGE, keyword .BY, keyword .IF, keyword .THEN,
    keyword .ELSE, keyword .OUTPUT, keyword .DELETE, keyword .STOP, keyword .RUN, keyword .QUIT,
    keyword .OPTIONS, keyword .LIBNAME, keyword .TITLE, keyword .PROC, keyword .DROP,
    keyword .KEEP, keyword .RETAIN, keyword .ARRAY, keyword .LENGTH, keyword .INPUT,
    keyword .DATALINES, ("CARDS", .keyword .DATALINES), keyword .DO, keyword .END,
    ("ENDDO", .keyword .END), keyword .TO, keyword .VAR, keyword .WHILE, keyword .UNTIL,
    keyword .AND, keyword .OR, keyword .NOT, ("EQ", .symbol .eq), ("NE", .symbol .notEq),
    ("LT", .symbol .lt), ("GT", .symbol .gt), ("LE", .symbol .ltEq), ("GE", .symbol .gtEq),
    keyword .SORT, keyword .MEANS, keyword .PRINT, keyword .FREQ, keyword .SQL, keyword .OUT,
    keyword .WHERE, keyword .NODUPKEY, keyword .NODUPRECS, ("NODUP", .keyword .NODUPRECS),
    keyword .DUPLICATES, keyword .DESCENDING, keyword .TABLES, keyword .OBS, keyword .NOOBS,
    keyword .N, keyword .NMISS, keyword .SUM, keyword .MEAN, keyword .MIN, keyword .MAX,
    keyword .SELECT, keyword .FROM, keyword .CREATE, keyword .TABLE]

def Kind.ofWord? (word : String) : Option Kind :=
  reserved.lookup (Text.upper word)

def Kind.reservedMacro : List (String × Kind) :=
  [("LET", .macroWord .LET), ("MACRO", .macroWord .MACRO), ("MEND", .macroWord .MEND),
    ("DO", .macroWord .DO), ("IF", .macroWord .IF), ("THEN", .macroWord .THEN),
    ("ELSE", .macroWord .ELSE)]

def Kind.ofMacroWord? (word : String) : Option Kind :=
  reservedMacro.lookup (Text.upper word)

/-- The name that a token carries: a name, or a soft keyword as it is written. -/
def name? (t : Token) : Option String :=
  match t.kind with
  | .name s => some s
  | k => if k.isSoft then some t.lexeme else none

end Token

end StepLang
