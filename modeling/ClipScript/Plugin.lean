/-
Plugins: collections of native functions that a script can import.

The registry keeps the plugins in the order in which they were loaded.  The first one of a name
answers for it.
-/
import ClipScript.Table
import ClipScript.Native

namespace ClipScript

structure Plugin where
  find? : String → Option Native

namespace Plugin

def ofTable (exports : Table Native) : Plugin := ⟨exports.find?⟩

/-- The symbol of a shared library that a name stands for.  A zero ends a symbol, so a name may
bring one along at its end, and a name with a zero anywhere else stands for none. -/
def symbol? (name : String) : Option String :=
  let chars := name.toList
  let symbol := if chars.getLast? = some '\x00' then chars.dropLast else chars
  if symbol.contains '\x00' then none else some (String.ofList symbol)

def ofLibrary (symbols : Table Native) : Plugin := ⟨fun name => (symbol? name).bind symbols.find?⟩

end Plugin

abbrev Loader := (name path : String) → Except Fault Plugin

def Loader.ofTable (plugins : Table Plugin) : Loader := fun name _ =>
  match plugins.find? name with
  | some plugin => .ok plugin
  | none => .error (.pluginUnloadable name "no such module")

/-- A loader of shared libraries.  `library?` gives the symbols of the library that a file holds,
and `reason` is what is said of a file that holds none.  A path without a directory is not a file's
path here: it names a library of the system, and no plugin is one. -/
def Loader.ofLibraries (reason : String) (library? : String → Option (Table Native)) : Loader :=
  fun name path =>
    match if path.contains '/' then library? path else none with
    | some symbols => .ok (Plugin.ofLibrary symbols)
    | none => .error (.pluginUnloadable name reason)

structure Registry where
  plugins : List (String × Plugin) := []

namespace Registry

def empty : Registry := {}

def names (r : Registry) : List String := r.plugins.map (·.1)

def contains (r : Registry) (name : String) : Bool := r.names.contains name

def register (r : Registry) (name : String) (plugin : Plugin) : Registry :=
  ⟨r.plugins ++ [(name, plugin)]⟩

def resolve (r : Registry) (name function : String) : Except Fault Native :=
  match r.plugins.lookup name with
  | none => .error (.pluginNotLoaded name)
  | some plugin =>
    match plugin.find? function with
    | none => .error (.pluginFunctionMissing name function)
    | some native => .ok native

def shown (r : Registry) : String := "[" ++ ", ".intercalate (r.names.map Text.quoted) ++ "]"

@[simp] theorem names_register (r : Registry) (name : String) (plugin : Plugin) :
    (r.register name plugin).names = r.names ++ [name] := by
  simp [names, register]

end Registry
end ClipScript
