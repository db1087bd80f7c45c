import StepLang.Error
import StepLang.Text.Blank

/-! # Scanning

Program text is cut into tokens and gaps from left to right. Every cut takes at least one
character, so scanning ends; a token keeps the characters it took and the place they start at.
-/

namespace StepLang.Token

inductive Piece where
  | gap
  | token (kind : Kind)

/-- The count of characters at the head of a text that go on with a name. -/
def nameLength (cs : List Char) : Nat :=
  (cs.takeWhile Text.isNameChar).length

/-- The length of a comment behind its star: through the first semicolon, or to the line's end. -/
def commentLength : List Char → Nat
  | [] => 0
  | c :: cs => if c = '\n' then 0 else if c = ';' then 1 else 1 + commentLength cs

/-- The length of a block comment behind its opening mark, the closing mark included. -/
def blockLength? : List Char → Option Nat
  | '*' :: '/' :: _ => some 2
  | _ :: cs => (blockLength? cs).map (· + 1)
  | [] => none

/-- The text of a literal behind its opening quote and the length through its closing quote. A
quote that is written twice stands for one. -/
def quoted? (quote : Char) : List Char → Option (List Char × Nat)
  | [] => none
  | c :: cs =>
    if c = quote then
      match cs with
      | d :: ds =>
        if d = quote then (quoted? quote ds).map fun (s, n) => (quote :: s, n + 2)
        else some ([], 1)
      | [] => some ([], 1)
    else (quoted? quote cs).map fun (s, n) => (c :: s, n + 1)

/-- The digits of a number after its first character `c`: those before and after the point. -/
def numeral (c : Char) (cs : List Char) : Kind × Nat :=
  let digits := cs.takeWhile Char.isDigit
  if c = '.' then (.number (Number.ofDigits [] digits 0), digits.length)
  else
    match cs.drop digits.length with
    | '.' :: rest =>
      let fraction := rest.takeWhile Char.isDigit
      (.number (Number.ofDigits (c :: digits) fraction 0), digits.length + 1 + fraction.length)
    | _ => (.number (Number.ofDigits (c :: digits) [] 0), digits.length)

/-- The blanks that may divide the two words of `ELSE IF`. -/
def isGapChar (c : Char) : Bool :=
  c == ' ' || c == '\t' || c == '\r' || c == '\n'

/-- The length of blanks and the word `IF` at the head of a text. -/
def followingIf? (cs : List Char) : Option Nat :=
  let gap := (cs.takeWhile isGapChar).length
  match cs.drop gap with
  | i :: f :: rest =>
    if i.toUpper = 'I' ∧ f.toUpper = 'F' ∧ nameLength rest = 0 then some (gap + 2) else none
  | _ => none

def word (c : Char) (cs : List Char) : Kind × Nat :=
  let n := nameLength cs
  let text := String.ofList (c :: cs.take n)
  match Kind.ofWord? text with
  | some (.keyword .ELSE) =>
    match followingIf? (cs.drop n) with
    | some k => (.keyword .ELSEIF, n + k)
    | none => (.keyword .ELSE, n)
  | some kind => (kind, n)
  | none => (.name text, n)

/-- A reference to a macro variable behind its ampersand; a point right after it belongs to it. -/
def macroReference (cs : List Char) : Kind × Nat :=
  let n := nameLength cs
  let name := String.ofList (cs.take n)
  match cs.drop n with
  | '.' :: _ => (.macroName name, n + 1)
  | _ => (.macroName name, n)

/-- A symbol that is longer when `second` follows it. -/
def pair (second : Char) (long short : Kind) : List Char → Kind × Nat
  | c :: _ => if c = second then (long, 1) else (short, 0)
  | [] => (short, 0)

def startsName : List Char → Bool
  | c :: _ => Text.isNameStart c
  | [] => false

def startsDigit : List Char → Bool
  | c :: _ => c.isDigit
  | [] => false

/-- The piece of text that starts with `c` and goes on with the given count of characters of
`cs`. A star starts a comment where a statement would begin. -/
def piece (atStart : Bool) (c : Char) (cs : List Char) : Except LexicalFault (Piece × Nat) :=
  let token (t : Kind × Nat) : Except LexicalFault (Piece × Nat) := .ok (.token t.1, t.2)
  let single (s : Symbol) := token (.symbol s, 0)
  match c with
  | ' ' | '\r' | '\t' | '\n' => .ok (.gap, 0)
  | '(' => single .leftParen
  | ')' => single .rightParen
  | '\x7b' => single .leftBrace
  | '\x7d' => single .rightBrace
  | '[' => single .leftBracket
  | ']' => single .rightBracket
  | ',' => single .comma
  | '$' => single .dollar
  | ';' => single .semicolon
  | '+' => single .plus
  | '-' => single .minus
  | '*' =>
    if atStart then .ok (.gap, commentLength cs)
    else token (pair '*' (.symbol .starStar) (.symbol .star) cs)
  | '/' =>
    match cs with
    | '*' :: ds =>
      match blockLength? ds with
      | some n => .ok (.gap, n + 1)
      | none => .error .unterminatedComment
    | _ => single .slash
  | '=' => token (pair '=' (.symbol .eq) (.symbol .assign) cs)
  | '!' | '^' | '~' => token (pair '=' (.symbol .notEq) (.keyword .NOT) cs)
  | '<' => token (pair '=' (.symbol .ltEq) (.symbol .lt) cs)
  | '>' => token (pair '=' (.symbol .gtEq) (.symbol .gt) cs)
  | '|' => token (pair '|' (.symbol .concat) (.keyword .OR) cs)
  | '&' => if startsName cs then token (macroReference cs) else token (.keyword .AND, 0)
  | '%' =>
    if startsName cs then
      let n := nameLength cs
      let word := String.ofList (cs.take n)
      match Kind.ofMacroWord? word with
      | some kind => token (kind, n)
      | none => .error (.unknownMacroWord word)
    else .error (.unexpectedChar '%')
  | '\'' | '"' =>
    match quoted? c cs with
    | some (s, n) => token (.text (String.ofList s), n)
    | none => .error .unterminatedText
  | '.' => if startsDigit cs then token (numeral c cs) else single .dot
  | _ =>
    if c.isDigit then token (numeral c cs)
    else if Text.isNameStart c then token (word c cs)
    else .error (.unexpectedChar c)

def lineLength : List Char → Nat
  | [] => 0
  | c :: cs => if c = '\n' then 1 else 1 + lineLength cs

theorem lineLength_pos {c : Char} {cs : List Char} : 0 < lineLength (c :: cs) := by
  rw [lineLength]; split <;> omega

/-- The line ends the data: semicolons alone, between blanks. -/
def endsData (line : List Char) : Bool :=
  let s := (Text.trim (String.ofList line)).toList
  !s.isEmpty && s.all (· == ';')

/-- The data lines of a step: their text, whether a closing line was found, and their length. -/
structure DataBlock where
  body : List Char
  closed : Bool
  length : Nat

/-- The line without its end mark and the carriage returns before it, ended anew. -/
def dataLine (line : List Char) : List Char :=
  (line.reverse.dropWhile (· == '\r')).reverse ++ ['\n']

/-- The data lines at the head of a text, through the line that ends them. -/
def dataBlock : List Char → DataBlock
  | [] => ⟨[], false, 0⟩
  | c :: cs =>
    let n := lineLength (c :: cs)
    let line := (c :: cs).takeWhile (· != '\n')
    if endsData line then ⟨[], true, n⟩
    else
      let more := dataBlock ((c :: cs).drop n)
      ⟨dataLine line ++ more.body, more.closed, n + more.length⟩
termination_by cs => cs.length
decreasing_by
  have := @lineLength_pos c cs
  simp only [List.length_drop, List.length_cons]
  omega

def semicolonFollows (cs : List Char) : Bool :=
  match cs.dropWhile Text.isBlank with
  | ';' :: _ => true
  | _ => false

/-- The text of a token as it is kept: the compound keyword has one spelling. -/
def lexemeOf (kind : Kind) (text : List Char) : String :=
  match kind with
  | .keyword .ELSEIF => "ELSE IF"
  | _ => String.ofList text

/-- The tokens of the rest of a text that starts at `pos`. A statement begins there if `atStart`
holds; if `dataFollow` holds, the next semicolon is followed by data lines. -/
def scanFrom (atStart dataFollow : Bool) (pos : Position) (cs : List Char) :
    Except Error (List Token) :=
  match cs with
  | [] => .ok [⟨.endOfInput, "", pos⟩]
  | c :: cs =>
    match piece atStart c cs with
    | .error fault => .error (.lexical fault pos)
    | .ok (.gap, n) => scanFrom atStart dataFollow (pos.after (c :: cs.take n)) (cs.drop n)
    | .ok (.token kind, n) =>
      let text := c :: cs.take n
      let rest := cs.drop n
      let next := pos.after text
      let token : Token := ⟨kind, lexemeOf kind text, pos⟩
      if kind = .symbol .semicolon ∧ dataFollow then
        let skipped := lineLength rest
        let lines := rest.drop skipped
        let first := next.after (rest.take skipped)
        let block := dataBlock lines
        let last := first.after (lines.take block.length)
        let body : Token := ⟨.dataLines (String.ofList block.body), "", ⟨first.line, 1⟩⟩
        let close : Token := ⟨.symbol .semicolon, if block.closed then ";" else "", last⟩
        return token :: body :: close :: (← scanFrom true false last (lines.drop block.length))
      else
        let dataFollow :=
          dataFollow || (kind == .keyword .DATALINES && atStart && semicolonFollows rest)
        return token :: (← scanFrom (kind == .symbol .semicolon) dataFollow next rest)
termination_by cs.length
decreasing_by all_goals simp +zetaDelta only [List.length_drop, List.length_cons]; omega

/-- The tokens of a program text, closed by the end of input. -/
def scan (source : String) : Except Error (List Token) :=
  scanFrom true false .start source.toList

end StepLang.Token
