/-
What an import refers to.

A name can be a plugin, whose library file lies in the plugin directory, or a script there.  It has
to be exactly one of the two.
-/
import ClipScript.Fault
import ClipScript.FileTree

namespace ClipScript

inductive ImportTarget where
  | plugin (path : String)
  | script (path : String)
deriving DecidableEq, Repr

namespace ImportTarget

def libraryName (name : String) : String := "lib" ++ name ++ ".so"

def pluginPath (dir name : String) : String := Path.join dir (libraryName name)

def scriptPath (dir name extension : String) : String := Path.join dir (name ++ "." ++ extension)

def locate (files : FileTree) (dir name extension : String) : Except Fault ImportTarget :=
  let library := pluginPath dir name
  let source := scriptPath dir name extension
  match files.isFile library, files.isFile source with
  | true, false => .ok (.plugin library)
  | false, true => .ok (.script source)
  | true, true => .error (.importAmbiguous name)
  | false, false => .error (.importMissing name)

end ImportTarget
end ClipScript
