/-
The interpreter: a machine together with its host, for running one script after another.

An operation gives back how it ended and the interpreter as it is afterwards.  A failed operation
does not spoil the interpreter.
-/
import ClipScript.Builtins
import ClipScript.Evaluator

namespace ClipScript

/-- How deep nodes and calls may be nested before a run is given up. -/
def defaultDepth : Nat := 1000000

structure Interpreter where
  host : Host
  machine : Machine := { scopes := .initial }
  depth : Nat := defaultDepth

namespace Interpreter

variable {α : Type}

def evaluator (i : Interpreter) : Evaluator := .ofDepth i.host i.depth

def perform (i : Interpreter) (step : Eval α) : Except Stop α × Interpreter :=
  let (result, machine) := step.run.run i.machine
  (result, { i with machine })

def runSource (i : Interpreter) (source : String) : Except Stop Unit × Interpreter :=
  i.perform (i.evaluator.runSource source)

def run (i : Interpreter) (statements : List Node) : Except Stop Unit × Interpreter :=
  i.perform (i.evaluator.runAll statements)

/-- Evaluates a node as it stands. -/
def evaluate (i : Interpreter) (env : Env) (node : Node) : Except Stop Flow × Interpreter :=
  i.perform (i.evaluator.evaluate env node)

def invoke (i : Interpreter) (f : Function) (args : ArgList) : Except Stop Value × Interpreter :=
  i.perform (i.evaluator.invoke f args)

def callNative (i : Interpreter) (native : Native) (args : ArgList) :
    Except Stop Value × Interpreter :=
  i.perform (i.evaluator.perform (native args))

def registerCore (i : Interpreter) (name : String) (native : Native) : Interpreter :=
  { i with machine := { i.machine with scopes := i.machine.scopes.defineCore name native } }

def global? (i : Interpreter) (name : String) : Option Value :=
  i.machine.scopes.value? .global name

def runScript (host : Host) (source : String) : Except Stop Unit × Interpreter :=
  ({ host } : Interpreter).runSource source

end Interpreter
end ClipScript
