import StepLang.Syntax.Expression
import StepLang.Text.Letters
import StepLang.Value

/-! # Statements

The statements of a DATA step, and the statements of a program: steps, procedures, settings that
hold for the session, and single statements outside any step.
-/

namespace StepLang

/-- The name of a data set, in the library `WORK` unless another one is given. -/
structure DatasetRef where
  libref : Option String
  name : String
  deriving DecidableEq, Repr, Inhabited

namespace DatasetRef

def work (name : String) : DatasetRef := ⟨none, name⟩

/-- The library name in upper case. -/
def library (r : DatasetRef) : String :=
  Text.upper (r.libref.getD "WORK")

/-- The output that is not kept. -/
def isNull (r : DatasetRef) : Bool :=
  r.libref.isNone && Text.sameName r.name "_null_"

/-- The two-level name in upper case. -/
def toText (r : DatasetRef) : String :=
  r.library ++ "." ++ Text.upper r.name

end DatasetRef

structure ByVariable where
  name : String
  descending : Bool
  deriving DecidableEq, Repr

/-- The declared size of an array; a star stands for the count of its variables. -/
inductive ArraySize where
  | fixed (size : Nat)
  | star
  deriving DecidableEq, Repr

inductive Target where
  | ref (name : String)
  | element (array : String) (index : Expression)
  deriving Repr

inductive LoopTest where
  | whileTrue (condition : Expression)
  | untilTrue (condition : Expression)
  deriving Repr

/-- A variable that keeps its value, with the value it starts with if one is given. -/
structure RetainItem where
  name : String
  initial : Option Value
  deriving DecidableEq, Repr

structure LengthItem where
  name : String
  kind : Kind
  length : Nat
  deriving DecidableEq, Repr

structure InputField where
  name : String
  kind : Kind
  deriving DecidableEq, Repr

mutual

inductive StepStatement where
  | set (inputs : List DatasetRef)
  | merge (inputs : List DatasetRef)
  | groupBy (keys : List ByVariable)
  | assign (target : Target) (value : Expression)
  | branch (condition : Expression) (consequence : StepStatement) (others : Alternative)
  | subset (condition : Expression)
  | iterate (index : String) (start stop : Expression) (increment : Option Expression)
      (body : List StepStatement)
  | loop (test : LoopTest) (body : List StepStatement)
  | block (body : List StepStatement)
  | array (name : String) (size : ArraySize) (kind : Kind) (vars : List String)
  | drop (names : List String)
  | keep (names : List String)
  | retain (items : List RetainItem)
  | length (items : List LengthItem)
  | input (fields : List InputField)
  | dataLines (body : String)
  | output (names : List String)
  | delete
  | stop

/-- What is done when the conditions before did not hold. -/
inductive Alternative where
  | none
  | otherwise (statement : StepStatement)
  | elseIf (condition : Expression) (consequence : StepStatement) (others : Alternative)

end

instance : Inhabited StepStatement := ⟨.stop⟩

def StepStatement.keyword : StepStatement → String
  | set _ => "SET" | merge _ => "MERGE" | groupBy _ => "BY" | assign .. => "assignment"
  | branch .. => "IF-THEN" | subset _ => "IF" | iterate .. | loop .. | block _ => "DO"
  | array .. => "ARRAY" | drop _ => "DROP" | keep _ => "KEEP" | retain _ => "RETAIN"
  | length _ => "LENGTH" | input _ => "INPUT" | dataLines _ => "DATALINES"
  | output _ => "OUTPUT" | delete => "DELETE" | stop => "STOP"

inductive Statistic where
  | n | nmiss | sum | mean | min | max
  deriving DecidableEq, Repr

def Statistic.label : Statistic → String
  | n => "N" | nmiss => "NMiss" | sum => "Sum" | mean => "Mean" | min => "Minimum"
  | max => "Maximum"

structure SortRequest where
  data : Option DatasetRef := none
  out : Option DatasetRef := none
  keys : List ByVariable := []
  condition : Option Expression := none
  nodupkey : Bool := false
  noduprecs : Bool := false
  duplicates : Bool := false
  deriving Repr

/-- A summary kept as a data set: each statistic with the names of its columns. -/
structure MeansOutput where
  out : DatasetRef
  columns : List (Statistic × List String)
  deriving Repr

structure MeansRequest where
  data : Option DatasetRef := none
  statistics : List Statistic := []
  vars : List String := []
  output : Option MeansOutput := none
  deriving Repr

structure PrintRequest where
  data : Option DatasetRef := none
  vars : List String := []
  obs : Option Nat := none
  noobs : Bool := false
  deriving Repr

structure FreqRequest where
  data : Option DatasetRef := none
  tables : List String := []
  deriving Repr

inductive Statement where
  | dataStep (outputs : List DatasetRef) (body : List StepStatement)
  | single (statement : StepStatement)
  | options (settings : List (String × String))
  | libname (libref : String) (engine : Option String) (path : String) (readOnly : Bool)
  | title (text : Option String)
  | macroLet (name value : String)
  | sort (request : SortRequest)
  | means (request : MeansRequest)
  | print (request : PrintRequest)
  | freq (request : FreqRequest)
  | sql
  | unknownProcedure (name : String)
  | run

def Statement.keyword : Statement → String
  | dataStep .. => "DATA" | single s => s.keyword | options _ => "OPTIONS"
  | libname .. => "LIBNAME" | title _ => "TITLE" | macroLet .. => "%LET" | sort _ => "PROC SORT"
  | means _ => "PROC MEANS" | print _ => "PROC PRINT" | freq _ => "PROC FREQ"
  | sql => "PROC SQL" | unknownProcedure _ => "PROC" | run => "RUN"

end StepLang
