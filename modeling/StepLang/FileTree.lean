import StepLang.Error

/-! # Files

A tree of directories and files, seen from a working directory. Paths are resolved component by
component, and every directory on the way has to exist.
-/

namespace StepLang

/-- What stands at a place of a tree. -/
inductive FileNode where
  | directory
  | file (content : ByteArray)

/-- Directories and files by their places. A place is the list of names that leads to it from the
working directory; names of parent directories stand in front. -/
structure FileTree where
  nodes : List (List String × FileNode) := []

namespace FileTree

def parent (place : List String) : List String :=
  match place.getLast? with
  | some ".." | none => place ++ [".."]
  | some "/" => place
  | some _ => place.dropLast

/-- What stands at a place. The working directory and the directories above it always exist. -/
def node? (t : FileTree) (place : List String) : Option FileNode :=
  if place.all (· == "..") || place == ["/"] then some .directory else t.nodes.lookup place

def insertNode (t : FileTree) (place : List String) (node : FileNode) : FileTree :=
  let rec insert : List (List String × FileNode) → List (List String × FileNode)
    | [] => [(place, node)]
    | (p, n) :: rest => if p = place then (p, node) :: rest else (p, n) :: insert rest
  ⟨insert t.nodes⟩

/-- The components of a path; an absolute path starts with the root. -/
def components (path : String) : List String :=
  let names := (path.splitOn "/").filter (! ·.isEmpty)
  if path.startsWith "/" then "/" :: names else names

def step (place : List String) (name : String) : List String :=
  if name = "." then place else if name = ".." then parent place else place ++ [name]

/-- The bytes that a name may have. -/
def nameLimit : Nat := 255

/-- The bytes that a path may have. -/
def pathLimit : Nat := 4095

/-- Follows components from a place. All but the last have to be directories. -/
def follow (t : FileTree) (place : List String) : List String → Except FileFault (List String)
  | [] => .ok place
  | name :: rest => do
    match t.node? place with
    | none => throw .notFound
    | some (.file _) => throw .notDirectory
    | some .directory =>
      if nameLimit < name.utf8ByteSize then throw .nameTooLong
      else follow t (step place name) rest

def resolve (t : FileTree) (path : String) : Except FileFault (List String) :=
  if path.toList.contains '\x00' then .error .nulInName
  else if pathLimit < path.utf8ByteSize then .error .nameTooLong
  else
    match components path with
    | [] => .error .notFound
    | "/" :: names => t.follow ["/"] names
    | names => t.follow [] names

/-- What a path denotes; a path that ends with a slash denotes a directory. -/
def find (t : FileTree) (path : String) : Except FileFault FileNode := do
  match t.node? (← t.resolve path) with
  | none => throw .notFound
  | some .directory => return .directory
  | some (.file content) => if path.endsWith "/" then throw .notDirectory else return .file content

def isDirectory (t : FileTree) (path : String) : Bool :=
  match t.find path with
  | .ok .directory => true
  | _ => false

def contains (t : FileTree) (path : String) : Bool :=
  (t.find path).toOption.isSome

def read (t : FileTree) (path : String) : Except Error ByteArray :=
  match t.find path with
  | .ok (.file content) => .ok content
  | .ok .directory => .error (.file path .isDirectory)
  | .error fault => .error (.file path fault)

/-- Writes a file into a directory that exists; a file that is there is replaced. -/
def write (t : FileTree) (path : String) (content : ByteArray) : Except Error FileTree :=
  match t.resolve path with
  | .error fault => .error (.file path fault)
  | .ok place =>
    match t.node? place with
    | some .directory => .error (.file path .isDirectory)
    | _ =>
      if path.endsWith "/" then .error (.file path .isDirectory)
      else .ok (t.insertNode place (.file content))

/-- Puts a directory at a path, with the directories above it. -/
def makeDirectory (t : FileTree) (path : String) : FileTree :=
  let rec go (t : FileTree) (place : List String) : List String → FileTree
    | [] => t
    | name :: rest =>
      let place := step place name
      let t := if (t.node? place).isSome then t else t.insertNode place .directory
      go t place rest
  go t [] (components path)

/-- Puts a file at a path, with the directories above it. -/
def put (t : FileTree) (path : String) (content : ByteArray) : FileTree :=
  let names := components path
  let t := t.makeDirectory ("/".intercalate names.dropLast)
  t.insertNode (names.foldl step []) (.file content)

def files (t : FileTree) : List (String × ByteArray) :=
  t.nodes.filterMap fun (place, node) =>
    match node with
    | .file content => some ("/".intercalate place, content)
    | .directory => none

end FileTree

def joinPath (directory name : String) : String :=
  if directory.isEmpty || directory.endsWith "/" then directory ++ name
  else directory ++ "/" ++ name

/-- The name of a file without its last extension; a name that starts with its only point has
none. -/
def fileStem (path : String) : String :=
  match ((FileTree.components path).filter (· != ".")).getLast? with
  | none | some ".." | some "/" => ""
  | some name =>
    let tail := (name.toList.reverse.dropWhile (· != '.')).tail.reverse
    if name.toList.contains '.' && !tail.isEmpty then String.ofList tail else name

end StepLang
