/-
Native functions: those that are not written in the language.

A native function does not get hold of the machine.  It answers its arguments with an `Action`, a
tree of requests that the evaluator carries out one after the other.  What a native function can do
is therefore exactly what the constructors of `Action` say.
-/
import ClipScript.ArgList

namespace ClipScript

inductive Action where
  | done (result : Except Fault Value)
  | message (text : String) (next : Action)
  | warn (text : String) (next : Action)
  | place (next : Nat → Option String → Action)
  /-- Calls a global function, or goes on with `missing` if there is none of that name. -/
  | call (name : String) (args : ArgList) (missing : Action) (next : Value → Action)
  | run (source : String) (next : Action)

abbrev Native := ArgList → Action

namespace Action

def value (v : Value) : Action := .done (.ok v)

def fail (f : Fault) : Action := .done (.error f)

def andThen {α : Type} (check : Except Fault α) (next : α → Action) : Action :=
  match check with
  | .ok a => next a
  | .error f => fail f

end Action
end ClipScript
