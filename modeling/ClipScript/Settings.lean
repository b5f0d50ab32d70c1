/-
Settings: what the user can choose in a file.

Every setting has a default, and a file that does not exist sets nothing.  Anything in a file that
is not a known setting with a fitting value makes the whole file invalid.
-/
import ClipScript.FileTree
import ClipScript.Settings.Line

namespace ClipScript

structure Settings where
  pluginDir : Option String := none
  scriptExtension : String := "mkvs"
  colour : Bool := true
deriving DecidableEq, Repr

inductive SettingsError where
  | unreadable (path : String) (cause : IoFault)
  | invalid (path : String) (line : Nat)
deriving DecidableEq, Repr

namespace SettingsError

def message : SettingsError → String
  | unreadable path _ => "failed to read settings file " ++ path
  | invalid path _ => "invalid settings file " ++ path

def cause : SettingsError → String
  | unreadable _ cause => cause.message
  | invalid _ line => "line " ++ toString line ++ " is no setting"

end SettingsError

namespace Settings

def fileName : String := "delbrot.toml"

def set? (s : Settings) : String → Item → Option Settings
  | "plugin_dir", .text dir => some { s with pluginDir := some dir }
  | "script_extension", .text extension => some { s with scriptExtension := extension }
  | "color", .flag colour => some { s with colour }
  | _, _ => none

/-- Applies lines in order.  `seen` holds the keys that are set already, and `n` is the number of
the next line.  The error is the number of the first line that is no setting. -/
def applyLines : List (List Char) → Nat → List String → Settings → Except Nat Settings
  | [], _, _, s => .ok s
  | line :: rest, n, seen, s =>
    match Line.read line with
    | none => .error n
    | some none => applyLines rest (n + 1) seen s
    | some (some (key, item)) =>
      if seen.contains key then .error n
      else
        match s.set? key item with
        | none => .error n
        | some s => applyLines rest (n + 1) (key :: seen) s

/-- The settings that a text makes.  A byte order mark at its start is skipped. -/
def parse (text : String) : Except Nat Settings :=
  let text := match text.toList with
    | '\uFEFF' :: rest => rest
    | rest => rest
  applyLines (Line.split text) 1 [] {}

def load (files : FileTree) (path : String) : Except SettingsError Settings :=
  if !files.isPresent path then .ok {}
  else
    match files.readText path with
    | .error e => .error (.unreadable path e)
    | .ok text =>
      match parse text with
      | .error line => .error (.invalid path line)
      | .ok s => .ok s

def defaultPluginDir (configDir : Option String) : Option String :=
  configDir.map fun dir => Path.join dir "mkvsynth"

def effectivePluginDir (s : Settings) (configDir : Option String) : String :=
  (s.pluginDir.or (defaultPluginDir configDir)).getD "."

def defaultPath (pluginDir : String) : String := Path.join pluginDir fileName

end Settings
end ClipScript
