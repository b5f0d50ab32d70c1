/-
The evaluator.

A node is evaluated by looking at its outermost form and handing its parts to an `Evaluator`.
`Evaluator.next` makes an evaluator for trees one level deeper out of one that is at hand, and
`Evaluator.ofDepth` repeats that.  So everything about evaluation is proved for one level, over an
arbitrary evaluator for the parts, and holds at every depth.
-/
import ClipScript.Chain
import ClipScript.Machine
import ClipScript.Script
import ClipScript.Value.Operators

namespace ClipScript

/-- How the evaluation of a node ends: the next statement is reached, or the function or script is
left. -/
inductive Flow where
  | proceed (value : Value)
  | leave (value : Value)
deriving Repr

namespace Flow

def value : Flow → Value
  | proceed v | leave v => v

/-- What a call yields: a body that runs to its end yields nothing. -/
def result : Flow → Value
  | leave v => v
  | proceed _ => .void

end Flow

structure Evaluator where
  evaluate : Env → Node → Eval Flow
  invoke : Function → ArgList → Eval Value

namespace Evaluator

def inert : Evaluator := ⟨fun _ _ => throw .tooDeep, fun _ _ => throw .tooDeep⟩

section Level

variable (host : Host) (parts : Evaluator)

def valueOf (env : Env) (node : Node) : Eval Value := return (← parts.evaluate env node).value

/-! ## Scripts -/

/-- Evaluates statements in the global scope, each with its chains replaced by calls.  A `return`
ends the script. -/
def runAll : List Node → Eval Unit
  | [] => return
  | statement :: rest => do
    Eval.moveTo statement.span
    match statement.unchain with
    | .error f => throw (.error ⟨f, some ⟨statement.span, none⟩⟩)
    | .ok statement =>
      match ← Eval.locating (parts.evaluate .global statement) with
      | .leave _ => return
      | .proceed _ => runAll rest

def runSource (source : String) : Eval Unit := do
  let program ← Eval.ofError (Program.ofSource source)
  runAll parts program.statements

def importNamed (name : String) : Eval Unit := do
  let target ← Eval.ofFault
    (ImportTarget.locate host.files host.pluginDir name host.scriptExtension)
  let m ← get
  match target with
  | .plugin path =>
    if m.plugins.contains name then return
    let plugin ← Eval.ofFault (host.load name path)
    modify fun m => { m with plugins := m.plugins.register name plugin }
  | .script path =>
    if m.importing.any (Path.same path) then Eval.fail (.importCycle name)
    match host.files.readText path with
    | .error e => Eval.fail (.scriptUnreadable path e.message)
    | .ok source =>
      let program ← Eval.ofError (Program.ofSource source)
      Eval.importing path (runAll parts program.statements)

/-! ## Calls -/

def perform : Action → Eval Value
  | .done result => Eval.ofFault result
  | .message text next => do
    Eval.message text
    perform next
  | .warn text next => do
    Eval.warn text
    perform next
  | .place next => do
    let m ← get
    perform (next m.span.line m.function)
  | .call name args missing next => do
    match (← get).scopes.function? .global name with
    | none => perform missing
    | some f =>
      let v ← parts.invoke f args
      perform (next v)
  | .run source next => do
    runSource parts source
    perform next

def callNative (name : String) (native : Native) (args : ArgList) : Eval Value :=
  Eval.activation name (perform parts (native args))

def callUser (f : UserFunction) (args : ArgList) : Eval Value := do
  if !(← get).scopes.contains f.home.here then Eval.fail (.undefinedFunction f.name)
  let env ← Eval.addScope f.home
  Eval.activation f.name do
    Eval.bindIn env (f.bind args)
    return (← parts.evaluate env f.body).result

def call (f : Function) (args : ArgList) : Eval Value :=
  match f with
  | .core name native => callNative parts name native args
  | .user f => callUser parts f args

def arguments (env : Env) : List (Labelled Node) → ArgList → Eval ArgList
  | [], args => return args
  | ⟨label, node⟩ :: rest, args => do
    let v ← valueOf parts env node
    let args ← Eval.ofFault (args.push label v)
    arguments env rest args

def functionNamed (env : Env) (name : String) : Eval Function := do
  let scopes := (← get).scopes
  match scopes.function? env name with
  | some f => return f
  | none =>
    match scopes.value? env name with
    | some v => Eval.fail (.notAFunction name v.kind)
    | none => Eval.fail (.undefinedFunction name)

def callTo (env : Env) (callee : Callee) (args : List (Labelled Node)) : Eval Value := do
  let args ← arguments parts env args .empty
  match callee with
  | .named name =>
    let f ← functionNamed env name
    parts.invoke f args
  | .plugin owner function =>
    let native ← Eval.ofFault ((← get).plugins.resolve owner function)
    parts.invoke (.core callee.display native) args

/-! ## Names and variables -/

/-- A name as a value: a variable of the scope, or else a function called without arguments. -/
def lookup (env : Env) (name : String) : Eval Value := do
  let scopes := (← get).scopes
  match scopes.value? env name with
  | some v => return v
  | none =>
    match scopes.function? env name with
    | some f => parts.invoke f .empty
    | none => Eval.fail (.undefinedName name)

/-- Whether a name at the head of a chain means a plugin: one is loaded under it, and no variable or
function hides it. -/
def namesPlugin (env : Env) (name : String) : Eval Bool := do
  let m ← get
  return m.plugins.contains name && (m.scopes.value? env name).isNone
    && (m.scopes.function? env name).isNone

def store (env : Env) (name : String) (value : Value) : Eval Unit := do
  if !value.isStorable then Eval.fail (.unstorable value.kind)
  Eval.modifyScopes fun s => s.assign env name value

def assign (env : Env) (target : Node) (op : AssignOp) (value : Node) : Eval Value := do
  match target.asIdentifier? with
  | none => Eval.fail (.constantTarget target.kindName)
  | some name =>
    let result ← match op with
      | .assign => valueOf parts env value
      | .update op => do
        let current ← valueOf parts env target
        let operand ← valueOf parts env value
        Eval.ofFault (Value.binary (.arithmetic op) current operand)
      | .chain => do
        let call ← Eval.ofFault (Node.unchainAs value.span target value)
        valueOf parts env call
    store env name result
    return result

def define (env : Env) (name : String) (params : List Param) (body : Node) : Eval Unit := do
  let f : UserFunction := { name, params, body, home := env }
  Eval.ofFault f.checkOrder
  let scopes := (← get).scopes
  if (scopes.value? env name).isSome || (scopes.function? env name).isSome then
    Eval.warn ("overwrote previous definition of " ++ name)
  Eval.modifyScopes fun s => s.define env name (.user f)

def setDefault (env : Env) (name : String) (value : Node) : Eval Unit := do
  if env.isGlobal then Eval.fail .defaultOutsideFunction
  match (← get).scopes.var? env name with
  | some ⟨.void, .optional⟩ =>
    let v ← valueOf parts env value
    store env name v
  | some ⟨_, .optional⟩ => return
  | some ⟨_, .parameter⟩ => Eval.fail (.defaultOfMandatory name)
  | _ => Eval.fail (.defaultOfUndefined name)

/-! ## Nodes -/

def sequence (env : Env) : List Node → Value → Eval Flow
  | [], last => return .proceed last
  | node :: rest, _ => do
    match ← parts.evaluate env node with
    | .proceed v => sequence env rest v
    | .leave v => return .leave v

def node (env : Env) (n : Node) : Eval Flow := do
  Eval.moveTo n.span
  match n with
  | .leaf _ (.identifier name) => return .proceed (← lookup parts env name)
  | .leaf _ v => return .proceed v
  | .sequence _ body => sequence parts env body .void
  | .assign _ target op value => return .proceed (← assign parts env target op value)
  | .binary s op lhs rhs =>
    let lhs ← valueOf parts env lhs
    let rhs ← valueOf parts env rhs
    Eval.moveTo s
    return .proceed (← Eval.ofFault (Value.binary op lhs rhs))
  | .unary s op operand =>
    let operand ← valueOf parts env operand
    Eval.moveTo s
    return .proceed (← Eval.ofFault (Value.unary op operand))
  | .ternary _ condition yes no =>
    match ← valueOf parts env condition with
    | .boolean true => return .proceed (← valueOf parts env yes)
    | .boolean false => return .proceed (← valueOf parts env no)
    | other => Eval.fail (.ternaryCondition other.kind)
  | .ifElse _ condition yes no =>
    match ← valueOf parts env condition with
    | .boolean true => parts.evaluate env yes
    | .boolean false =>
      match no with
      | some no => parts.evaluate env no
      | none => return .proceed .void
    | other => Eval.fail (.ifCondition other.kind)
  | .call _ callee args => return .proceed (← callTo parts env callee args)
  | .chain s value link =>
    let call ← match value.asIdentifier? with
      | some name =>
        if ← namesPlugin env name then Eval.ofFault (Node.pluginCall name s link)
        else Eval.ofFault (Node.unchainAs s value link)
      | none => Eval.ofFault (Node.unchainAs s value link)
    parts.evaluate env call
  | .functionDef _ name params body =>
    define env name params body
    return .proceed .void
  | .defaultValue _ name value =>
    setDefault parts env name value
    return .proceed .void
  | .returnValue _ (some value) => return .leave (← valueOf parts env value)
  | .returnValue _ none => return .leave .void
  | .importName _ name =>
    importNamed host parts name
    return .proceed .void

def next : Evaluator := ⟨node host parts, call parts⟩

end Level

/-- An evaluator for nodes and calls nested at most `n` deep.  Each level makes the one below it
only when it is asked for something, so a large bound costs nothing until a script nests that
deep. -/
def ofDepth (host : Host) : Nat → Evaluator
  | 0 => .inert
  | n + 1 =>
    { evaluate := fun env tree => (next host (ofDepth host n)).evaluate env tree
      invoke := fun f args => (next host (ofDepth host n)).invoke f args }

end Evaluator
end ClipScript
