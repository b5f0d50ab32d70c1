/-
The program.

What it does is decided by `CommandLine.respond`; here the part of the file system that it can ask
for is read beforehand.  Imports are named in the text of a script, so the files that a run can
reach are found by following the names.
-/
import ClipScript.CommandLine

namespace ClipScript
namespace Main

/-- Notes that a directory stands at a path, or something else that cannot be stepped out of.  What
is known already stays, so that the content of a file is not lost. -/
def observeStep (tree : FileTree) (path : String) : IO FileTree := do
  if tree.isPresent path then return tree
  try
    let place ← IO.FS.realPath path
    let entry := if ← place.isDir then .directory else .file .empty
    return tree.put (tree.absolute path) entry
  catch _ => return tree

def observeEnd (tree : FileTree) (path : String) : IO FileTree := do
  try
    let content ← IO.FS.readBinFile path
    return tree.put (tree.absolute path) (.file content)
  catch _ => observeStep tree path

def observe (tree : FileTree) (path : String) : IO FileTree :=
  let rec follow (tree : FileTree) (passed : String) : List String → IO FileTree
    | [] => return tree
    | [last] => observeEnd tree (passed ++ last)
    | step :: rest => do follow (← observeStep tree (passed ++ step)) (passed ++ step ++ "/") rest
  follow tree "" (Path.steps path)

def importedNames (source : String) : List String :=
  let rec names : List Token → List String
    | ⟨.keyword .importKw, _⟩ :: ⟨.identifier name, s⟩ :: rest =>
      name :: names (⟨.identifier name, s⟩ :: rest)
    | _ :: rest => names rest
    | [] => []
  match Lexer.lex source with
  | .ok tokens => names tokens
  | .error _ => []

partial def observeImports (dir extension : String) (tree : FileTree) (seen : List String) :
    List String → IO FileTree
  | [] => return tree
  | name :: rest => do
    if seen.contains name then observeImports dir extension tree seen rest
    else
      let script := ImportTarget.scriptPath dir name extension
      let tree ← observe tree (ImportTarget.pluginPath dir name)
      let tree ← observe tree script
      let more := match tree.readText script with
        | .ok source => importedNames source
        | .error _ => []
      observeImports dir extension tree (name :: seen) (more ++ rest)

partial def readAll (input : IO.FS.Stream) (sofar : ByteArray) : IO ByteArray := do
  let chunk ← input.read 65536
  if chunk.isEmpty then return sofar else readAll input (sofar ++ chunk)

def configDir : IO (Option String) := do
  match ← IO.getEnv "XDG_CONFIG_HOME" with
  | some dir => if dir.startsWith "/" then return some dir
  | none => pure ()
  match ← IO.getEnv "HOME" with
  | some home => return if home.isEmpty then none else some (Path.join home ".config")
  | none => return none

/-- Plugins are shared libraries, which cannot be loaded here. -/
def load : Loader := Loader.ofLibraries "shared libraries are not supported" fun _ => none

def world (o : CommandLine.Options) : IO CommandLine.World := do
  let here := (← IO.currentDir).toString
  let configDir ← configDir
  let dir := (o.pluginDir.or (Settings.defaultPluginDir configDir)).getD "."
  let tree : FileTree := { workingDir := (Path.steps here).filter (· ≠ "") }
  let tree ← observe tree (o.config.getD (Settings.defaultPath dir))
  let (tree, stdin) ← match o.input with
    | some path => pure (← observe tree path, ByteArray.empty)
    | none => pure (tree, ← readAll (← IO.getStdin) .empty)
  let world : CommandLine.World := { files := tree, stdin, configDir, load }
  match CommandLine.settings world o, CommandLine.source world o with
  | .ok s, .ok source =>
    let files ← observeImports (s.effectivePluginDir configDir) s.scriptExtension tree []
      (importedNames source)
    return { world with files }
  | _, _ => return world

end Main
end ClipScript

open ClipScript in
def main (args : List String) : IO UInt32 := do
  let world ← match CommandLine.parse args {} with
    | some (.run o) => Main.world o
    | _ => pure { files := {} }
  let output := CommandLine.respond world args
  (← IO.getStdout).putStr output.stdout
  (← IO.getStderr).putStr output.stderr
  return output.exit.toUInt32
