import Std.Time.Zoned
import StepLang.CommandLine

/-! # The program

Arguments, files, the clock and the lines of the input are read here, and results and changed files
are written.
-/

namespace StepLang.CommandLine

/-- Adds what stands at a path to a tree: a file, or a directory with its files. -/
def loadPath (files : FileTree) (path : String) : IO FileTree := do
  let place := (← IO.currentDir) / path
  if ← place.isDir then
    let mut files := files.makeDirectory path
    for entry in ← place.readDir do
      unless ← entry.path.isDir do
        files := files.put (joinPath path entry.fileName) (← IO.FS.readBinFile entry.path)
    return files
  else if ← place.pathExists then return files.put path (← IO.FS.readBinFile place)
  else return files

def loadPaths (paths : List String) : IO FileTree :=
  paths.foldlM loadPath {}

/-- Writes the files that differ from those of an earlier tree. -/
def saveChanges (before after : FileTree) : IO Unit :=
  for (path, content) in after.files do
    unless before.files.any fun (p, c) => p == path && c.data == content.data do
      IO.FS.writeBinFile path content

def libraryPaths (source : String) : List String :=
  match Token.scan source with
  | .error _ => []
  | .ok tokens => (Program.ofTokens tokens).statements.filterMap fun
    | .libname _ _ path _ => some path
    | _ => none

/-- The session with the files that a program can reach. -/
def reach (s : Session) (source : String) : IO Session := do
  let assigned := s.libraries.entries.filterMap fun (_, l) => l.path
  return { s with files := ← loadPaths (assigned ++ libraryPaths source) }

def write : Output → IO Unit
  | .result text => do
    IO.print text
    (← IO.getStdout).flush
  | .log text => IO.eprint text

partial def talk (c : Console) : IO Unit := do
  write (.result c.prompt)
  let line ← (← IO.getStdin).getLine
  unless line.isEmpty do
    let session ← reach c.session (c.pending ++ line)
    let (outputs, next) := { c with session }.feed line
    outputs.forM write
    match next with
    | none => return
    | some next =>
      saveChanges session.files next.session.files
      talk next

/-- Writes the outcome of a command, and gives its code. -/
def finish (outcome : Outcome) : IO UInt32 := do
  outcome.outputs.forM write
  return outcome.exitCode

def perform (s : Session) (path : String) : IO UInt32 := do
  let files ← loadPaths [path]
  let s ← reach s ((readText files path).toOption.getD "")
  let s := { s with files := ← loadPath s.files path }
  let (outcome, after) := runProgram s path
  saveChanges s.files after.files
  finish outcome

def serve (r : Request) : IO UInt32 := do
  match configure (← loadPaths r.config.toList) r.config with
  | .error f => finish (.failed f [])
  | .ok config =>
    let today ← Std.Time.PlainDate.now
    let date : Calendar.Date := ⟨today.year.toInt, today.month.toNat, today.day.toNat⟩
    match startSession config (← loadPaths (config.libraries.map (·.path))) date.toNumber with
    | (outputs, .error f) => finish (.failed f outputs)
    | (outputs, .ok s) =>
      outputs.forM write
      match r.program with
      | some path => perform s path
      | none =>
        write (.result Console.greeting)
        talk { session := s }
        return 0

end StepLang.CommandLine

open StepLang.CommandLine in
def main (arguments : List String) : IO UInt32 :=
  match read arguments with
  | .version => finish (.ofResult (versionText ++ "\n"))
  | .help => finish (.ofResult argumentText)
  | .refused fault => finish (refuse fault)
  | .run r => serve r
