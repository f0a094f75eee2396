import ShellTree.Tool.Run

/-! Reading from a directory that is held in memory. -/
namespace ShellTree.Tool

inductive Entry where
  | file (content : ByteArray)
  | directory

/-- The entries of a directory by their ways from it. The directories on a way are there too. -/
abbrev Files := List (List String × Entry)

/-- A place in the file system, as far as it is known from within the directory. -/
inductive Place where
  /-- Reached from the directory by these names. -/
  | below (names : List String)
  /-- One of the directories around it. -/
  | around
  /-- Nothing is there. -/
  | nowhere
  deriving DecidableEq, Repr

/-- One step from a directory. An empty name and a single dot stay there. -/
def Place.step (place : Place) (name : String) : Place :=
  if name.isEmpty || name == "." then place
  else if name = ".." then
    match place with
    | .below [] => .around
    | .below names => .below names.dropLast
    | place => place
  else
    match place with
    | .below names => .below (names ++ [name])
    | _ => .nowhere

namespace Files

/-- The names on a way that goes nowhere back. -/
def names (path : String) : List String :=
  (path.splitOn "/").filter fun name => !name.isEmpty && name != "."

/-- What is at a place. -/
def entry? (fs : Files) : Place → Option Entry
  | .nowhere => none
  | .around => some .directory
  | .below names =>
    if names.isEmpty || fs.any (fun (p, _) => names.isPrefixOf p && names != p) then
      some .directory
    else fs.lookup names

/-- Goes on from a place by the names of a way. Even a step that stays needs a directory. -/
def walk (fs : Files) : Place → List String → Except AccessError Entry
  | place, [] =>
    match fs.entry? place with
    | some e => .ok e
    | none => .error .notFound
  | place, name :: rest =>
    match fs.entry? place with
    | some .directory => walk fs (place.step name) rest
    | some (.file _) => .error .notDirectory
    | none => .error .notFound

/-- The entry that a path names. One that starts with a slash starts around the directory. -/
def find (fs : Files) (path : String) : Except AccessError Entry :=
  match path.splitOn "/" with
  | [""] => .error .notFound
  | "" :: names => fs.walk .around names
  | names => fs.walk (.below []) names

/-- The content of a file. -/
def read (fs : Files) (path : String) : Except AccessError ByteArray := do
  match ← fs.find path with
  | .file content => return content
  | .directory => throw .isDirectory

end Files

/-- A whole run in a directory. The standard input can be named by its device. -/
def outcomeIn (fs : Files) (stdin : ByteArray) (args : List String) : Outcome :=
  outcome args fun
    | none => .ok stdin
    | some path =>
      if path = Stream.input.device then .ok stdin
      else if path = "/dev/null" then .ok .empty
      else fs.read path

end ShellTree.Tool
