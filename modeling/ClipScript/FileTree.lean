/-
Files and paths as a script sees them.

A file tree is a snapshot of a part of a file system: a working directory and the files and
directories that are known to exist.  Paths are texts and are never normalised, because messages
show them as they were put together.
-/
namespace ClipScript

inductive IoFault where
  | notFound | notDirectory | isDirectory | nameTooLong | invalidText
deriving DecidableEq, Repr

def IoFault.message : IoFault → String
  | notFound => "No such file or directory (os error 2)"
  | notDirectory => "Not a directory (os error 20)"
  | isDirectory => "Is a directory (os error 21)"
  | nameTooLong => "File name too long (os error 36)"
  | invalidText => "stream did not contain valid UTF-8"

namespace Path

/-- A path inside a directory.  An absolute path stands for itself, and nothing is put before a path
in the empty directory. -/
def join (dir name : String) : String :=
  if name.startsWith "/" || dir.isEmpty then name
  else if dir.endsWith "/" then dir ++ name
  else dir ++ "/" ++ name

def maxBytes : Nat := 4095

def maxStepBytes : Nat := 255

def steps (path : String) : List String := path.splitOn "/"

/-- The form of a path that decides whether two are the same: whether it is absolute, and its steps
without empty ones and without dots, except for a dot that a relative path begins with. -/
def identity (path : String) : Bool × List String :=
  let keep := (steps path).filter fun s => s ≠ "" ∧ s ≠ "."
  (path.startsWith "/", if (steps path).head? = some "." then "." :: keep else keep)

def same (a b : String) : Bool := identity a == identity b

end Path

inductive FileEntry where
  | directory
  | file (content : ByteArray)

structure FileTree where
  workingDir : List String := []
  entries : List (List String × FileEntry) := []

namespace FileTree

/-- What stands at a path from the root.  A directory need not be listed if something in it is, or
if the working directory lies in it. -/
def entry? (t : FileTree) (path : List String) : Option FileEntry :=
  match t.entries.lookup path with
  | some e => some e
  | none =>
    if path.isPrefixOf t.workingDir || t.entries.any fun e => path.isPrefixOf e.1 then
      some .directory
    else none

def step (here : List String) (name : String) : List String :=
  if name = "" || name = "." then here
  else if name = ".." then here.dropLast
  else here ++ [name]

/-- Follows the steps of a path.  Only what is a directory can be stepped out of, and a name that
is too long is noticed when it is looked up there. -/
def walk (t : FileTree) : List String → List String → Except IoFault (List String)
  | here, [] => .ok here
  | here, name :: rest =>
    match t.entry? here with
    | none => .error .notFound
    | some (.file _) => .error .notDirectory
    | some .directory =>
      if Path.maxStepBytes < name.utf8ByteSize then .error .nameTooLong
      else t.walk (step here name) rest

/-- What a path leads to, from the working directory if it is relative.  The length of the whole
path is checked before any of it is followed. -/
def resolve (t : FileTree) (path : String) : Except IoFault FileEntry := do
  if path.isEmpty then throw .notFound
  if Path.maxBytes < path.utf8ByteSize then throw .nameTooLong
  let start := if path.startsWith "/" then [] else t.workingDir
  let target ← t.walk start (Path.steps path)
  match t.entry? target with
  | some e => return e
  | none => throw .notFound

def isPresent (t : FileTree) (path : String) : Bool := (t.resolve path).toBool

def isFile (t : FileTree) (path : String) : Bool :=
  match t.resolve path with
  | .ok (.file _) => true
  | _ => false

def read (t : FileTree) (path : String) : Except IoFault ByteArray := do
  match ← t.resolve path with
  | .file content => return content
  | .directory => throw .isDirectory

def readText (t : FileTree) (path : String) : Except IoFault String := do
  match String.fromUTF8? (← t.read path) with
  | some text => return text
  | none => throw .invalidText

def absolute (t : FileTree) (path : String) : List String :=
  (Path.steps path).foldl step (if path.startsWith "/" then [] else t.workingDir)

def put (t : FileTree) (path : List String) (entry : FileEntry) : FileTree :=
  { t with entries := (path, entry) :: t.entries.filter fun e => e.1 ≠ path }

/-- The places that lead to a path from the root, from `here` on, the last one left out.  A place
that the path leaves again with two dots is one of them. -/
def passed (here : List String) : List String → List (List String)
  | [] | [_] => []
  | name :: rest => step here name :: passed (step here name) rest

def insert (t : FileTree) (path : String) (entry : FileEntry) : FileTree :=
  let start := if path.startsWith "/" then [] else t.workingDir
  let dirs := passed start (Path.steps path)
  (dirs.foldl (fun t dir => t.put dir .directory) t).put (t.absolute path) entry

def erase (t : FileTree) (path : String) : FileTree :=
  { t with entries := t.entries.filter fun e => !(t.absolute path).isPrefixOf e.1 }

end FileTree
end ClipScript
