/-
The machine: what a run consults and what it changes.

`Host` is everything a run can only look at, `Machine` everything it can change.  A run keeps its
changes when it fails, so a step of evaluation gives back a machine in every case.
-/
import ClipScript.Import
import ClipScript.Plugin
import ClipScript.Report
import ClipScript.Scope

namespace ClipScript

structure Host where
  pluginDir : String
  scriptExtension : String
  files : FileTree := {}
  load : Loader := Loader.ofTable {}

structure Machine where
  scopes : Scopes := .start
  /-- The place of the node that was reached last. -/
  span : Span := .nowhere
  function : Option String := none
  /-- The scripts that are being imported, innermost first. -/
  importing : List String := []
  plugins : Registry := .empty
  reports : Array Report := #[]

/-- Why a run ends early: an error of the script, or a nesting deeper than the evaluator was set up
for.  The second is no error of the script, and nothing in a script can observe it. -/
inductive Stop where
  | error (e : RuntimeError)
  | tooDeep
deriving DecidableEq, Repr

def Stop.located (span : Span) (function : Option String) : Stop → Stop
  | error e => error (e.located span function)
  | tooDeep => tooDeep

abbrev Eval := ExceptT Stop (StateM Machine)

namespace Eval

variable {α : Type}

def fail (f : Fault) : Eval α := throw (.error ⟨f, none⟩)

def ofFault : Except Fault α → Eval α
  | .ok a => return a
  | .error f => fail f

def ofError : Except RuntimeError α → Eval α
  | .ok a => return a
  | .error e => throw (.error e)

def attempt (step : Eval α) : Eval (Except Stop α) := ExceptT.lift step.run

def resume : Except Stop α → Eval α
  | .ok a => return a
  | .error stop => throw stop

def moveTo (span : Span) : Eval Unit := modify fun m => { m with span }

def locating (step : Eval α) : Eval α := do
  match ← attempt step with
  | .ok a => return a
  | .error stop =>
    let m ← get
    throw (stop.located m.span m.function)

/-- Runs a step as the body of a function.  The place and the function of the caller come back
afterwards, however the step ends. -/
def activation (name : String) (body : Eval α) : Eval α := do
  let caller ← get
  set { caller with function := some name }
  let result ← attempt (locating body)
  modify fun m => { m with function := caller.function, span := caller.span }
  resume result

/-- Runs a step as an imported script.  No function runs while a script is imported, and the place
and the function of the importer come back afterwards.  The script is taken off the list of those
being imported, on which it was put first. -/
def importing (path : String) (script : Eval α) : Eval α := do
  let importer ← get
  set { importer with function := none, importing := path :: importer.importing }
  let result ← attempt script
  modify fun m => { m with function := importer.function, span := importer.span,
                           importing := m.importing.tail }
  resume result

def report (r : Report) : Eval Unit := modify fun m => { m with reports := m.reports.push r }

def message (text : String) : Eval Unit := report (.message text)

def warn (text : String) : Eval Unit := do
  let m ← get
  report (.warning m.span.line m.function text)

def modifyScopes (change : Scopes → Scopes) : Eval Unit :=
  modify fun m => { m with scopes := change m.scopes }

def addScope (env : Env) : Eval Env := do
  let m ← get
  let (child, scopes) := m.scopes.addChild env
  set { m with scopes }
  return child

/-- Carries out changes to the variables of a scope.  Those made before a fault stay. -/
def bindIn (env : Env) (binder : Binder Unit) : Eval Unit := do
  let m ← get
  let (result, vars) := binder.run.run (m.scopes.get env.here).vars
  modifyScopes fun s => s.modify env.here fun scope => { scope with vars }
  ofFault result

end Eval
end ClipScript
