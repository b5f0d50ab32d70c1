/-
The command line: what the program does with its arguments, its files and its input.

Everything here is a function of a `World`, a snapshot of what the program can see.
-/
import ClipScript.Interpreter
import ClipScript.Outline
import ClipScript.Settings

namespace ClipScript
namespace CommandLine

/-! ## Arguments -/

structure Options where
  input : Option String := none
  pluginDir : Option String := none
  config : Option String := none
  noColour : Bool := false
  tree : Bool := false
  verbosity : Nat := 0
deriving DecidableEq, Repr

inductive Request where
  | run (options : Options)
  | help
  | version
deriving DecidableEq, Repr

inductive Slot where
  | pluginDir | config
deriving DecidableEq, Repr

def Slot.ofName? : String → Option Slot
  | "--plugin-dir" => some .pluginDir
  | "--config" => some .config
  | _ => none

/-- Fills in the value of an option.  A value cannot be empty, and no option can be given twice. -/
def Options.fill? (o : Options) (slot : Slot) (value : String) : Option Options :=
  if value.isEmpty then none
  else match slot with
    | .pluginDir => if o.pluginDir.isSome then none else some { o with pluginDir := some value }
    | .config => if o.config.isSome then none else some { o with config := some value }

def Options.positional? (o : Options) (value : String) : Option Options :=
  if value.isEmpty || o.input.isSome then none else some { o with input := some value }

def Options.flag? (o : Options) : String → Option Options
  | "--no-color" => if o.noColour then none else some { o with noColour := true }
  | "--ast" => if o.tree then none else some { o with tree := true }
  | "--verbose" => some { o with verbosity := o.verbosity + 1 }
  | _ => none

/-- The short flags of one argument: any number of `v`, or a request that ends everything. -/
def shortFlags (o : Options) : List Char → Option (Options ⊕ Request)
  | [] => some (.inl o)
  | 'v' :: rest => shortFlags { o with verbosity := o.verbosity + 1 } rest
  | 'h' :: _ => some (.inr .help)
  | 'V' :: _ => some (.inr .version)
  | _ => none

def canBeValue (arg : String) : Bool := !arg.startsWith "-" || arg = "-"

def splitEquals (arg : String) : Option (String × String) :=
  let name := arg.toList.takeWhile (· != '=')
  match arg.toList.dropWhile (· != '=') with
  | [] => none
  | _ :: value => some (String.ofList name, String.ofList value)

/-- Reads arguments in order.  `none` is a misuse of the program. -/
def parse : List String → Options → Option Request
  | [], o => some (.run o)
  | arg :: rest, o =>
    if arg = "--" then (rest.foldlM Options.positional? o).map .run
    else if arg = "--help" then some .help
    else if arg = "--version" then some .version
    else if arg.startsWith "--" then
      match splitEquals arg with
      | some (name, value) => do parse rest (← o.fill? (← Slot.ofName? name) value)
      | none =>
        match Slot.ofName? arg with
        | none => do parse rest (← o.flag? arg)
        | some slot =>
          match rest with
          | [] => none
          | value :: rest =>
            if canBeValue value then do parse rest (← o.fill? slot value) else none
    else if canBeValue arg then do parse rest (← o.positional? arg)
    else do
      match ← shortFlags o (arg.toList.drop 1) with
      | .inl o => parse rest o
      | .inr request => return request

/-! ## Running -/

structure World where
  files : FileTree
  stdin : ByteArray := .empty
  configDir : Option String := none
  load : Loader := Loader.ofTable {}

structure Output where
  exit : Nat
  stdout : String := ""
  stderr : String := ""
deriving DecidableEq, Repr

def failure (message cause : String) : Output :=
  { exit := 1, stderr := "Error: " ++ message ++ "\n\nCaused by:\n    " ++ cause ++ "\n" }

def fatalText (e : RuntimeError) (source : String) (colour : Bool) : String :=
  e.fatalLine colour ++ "\n" ++ ((e.snippet? source).map (· ++ "\n")).getD ""

def settings (world : World) (o : Options) : Except SettingsError Settings := do
  let dir := (o.pluginDir.or (Settings.defaultPluginDir world.configDir)).getD "."
  let s ← Settings.load world.files (o.config.getD (Settings.defaultPath dir))
  return { s with pluginDir := o.pluginDir.or s.pluginDir, colour := s.colour && !o.noColour }

def source (world : World) (o : Options) : Except Output String :=
  match o.input with
  | some path =>
    match world.files.readText path with
    | .ok text => .ok text
    | .error e => .error (failure ("failed to read script " ++ path) e.message)
  | none =>
    match String.fromUTF8? world.stdin with
    | some text => .ok text
    | none => .error (failure "failed to read from stdin" IoFault.invalidText.message)

def showTree (text : String) (colour : Bool) : Output :=
  match Program.ofSource text with
  | .ok program => { exit := 0, stdout := program.outline.render 0 ++ "\n" }
  | .error e => { exit := 1, stderr := fatalText e text colour }

def host (world : World) (s : Settings) : Host :=
  { pluginDir := s.effectivePluginDir world.configDir, scriptExtension := s.scriptExtension,
    files := world.files, load := world.load }

def runScript (world : World) (s : Settings) (text : String) : Output :=
  let (result, i) := Interpreter.runScript (host world s) text
  let reports := i.machine.reports.toList
  let lines (shown : List String) : String := String.join (shown.map (· ++ "\n"))
  let stdout := lines ((reports.filterMap Report.message?).map (Report.messageLine · s.colour))
  let warnings := lines (reports.filterMap (Report.warning? s.colour))
  match result with
  | .ok _ => { exit := 0, stdout, stderr := warnings }
  | .error (.error e) => { exit := 1, stdout, stderr := warnings ++ fatalText e text s.colour }
  | .error .tooDeep =>
    { exit := 1, stdout, stderr := warnings ++ "Error: the script is nested too deeply\n" }

def execute (world : World) (o : Options) : Output :=
  match settings world o with
  | .error e => failure e.message e.cause
  | .ok s =>
    match source world o with
    | .error output => output
    | .ok text => if o.tree then showTree text s.colour else runScript world s text

def usage : String :=
  "Evaluator for mkvsynth pipeline scripts\n\n"
    ++ "Usage: " ++ programName ++ " [OPTIONS] [FILE]\n\n"
    ++ "Arguments:\n"
    ++ "  [FILE]  Path to a script. Reads stdin when omitted\n\n"
    ++ "Options:\n"
    ++ "      --plugin-dir <DIR>  Directory searched by `import` (default: <config dir>/mkvsynth)\n"
    ++ "      --config <FILE>     Settings file (default: <plugin dir>/delbrot.toml)\n"
    ++ "      --no-color          Disable coloured diagnostics\n"
    ++ "      --ast               Print the parsed AST instead of running the script\n"
    ++ "  -v, --verbose...        Raise log verbosity (-v debug, -vv trace)\n"
    ++ "  -h, --help              Print help\n"
    ++ "  -V, --version           Print version\n"

def respond (world : World) (args : List String) : Output :=
  match parse args {} with
  | none => { exit := 2, stderr := "error: invalid arguments\n\n" ++ usage }
  | some .help => { exit := 0, stdout := usage }
  | some .version => { exit := 0, stdout := programName ++ " " ++ versionNumber ++ "\n" }
  | some (.run o) => execute world o

end CommandLine
end ClipScript
