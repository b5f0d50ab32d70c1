/-
Functions: native ones and those written in the language, and how arguments are bound to the
parameters of the latter.

Every parameter becomes a variable before the first argument is looked at, so a parameter that gets
no argument is there and is void.
-/
import ClipScript.Native
import ClipScript.Variable

namespace ClipScript

abbrev ScopeId := Nat

/-- A scope and the scopes around it, innermost first.  The outermost one is the global scope. -/
structure Env where
  here : ScopeId
  outer : List ScopeId := []
deriving DecidableEq, Repr

namespace Env

def global : Env := { here := 0 }

def isGlobal (env : Env) : Bool := env.outer.isEmpty

def chain (env : Env) : List ScopeId := env.here :: env.outer

end Env

structure UserFunction where
  name : String
  params : List Param
  body : Node
  home : Env
deriving Repr

inductive Function where
  | core (name : String) (native : Native)
  | user (function : UserFunction)

namespace Function

def name : Function → String
  | core name _ => name
  | user f => f.name

def shown : Function → String
  | core name _ => "<core fn " ++ name ++ ">"
  | user f => "<fn " ++ f.name ++ ">"

end Function

/-! ## Binding arguments -/

/-- Changes to variables that may stop halfway.  What was changed before stays. -/
abbrev Binder := ExceptT Fault (StateM Variables)

def Param.binding (p : Param) : Binding := if p.optional then .optional else .parameter

namespace UserFunction

def mandatoryCount (f : UserFunction) : Nat := (f.params.takeWhile (!·.optional)).length

def checkOrder (f : UserFunction) : Except Fault Unit :=
  if (f.params.drop f.mandatoryCount).any (!·.optional) then .error (.parameterOrder f.name)
  else .ok ()

def declareParams (f : UserFunction) (vars : Variables) : Variables :=
  f.params.foldl (fun vars p => vars.declare p.name .void p.binding) vars

def bindUnnamed (f : UserFunction) : Nat → List Param → List Value → Binder Unit
  | i, p :: params, value :: values => do
    if value.kind ≠ p.kind then throw (.parameterMismatch (i + 1) f.name p.kind value.kind)
    modify fun vars => vars.assign p.name value
    f.bindUnnamed (i + 1) params values
  | _, _, _ => return

def bindNamed (f : UserFunction) : List (String × Value) → Binder Unit
  | [] => return
  | (name, value) :: rest => do
    match f.params.find? fun p => p.optional && p.name == name with
    | none => throw (.unknownOptional name f.name)
    | some p =>
      if value.kind ≠ p.kind then throw (.optionalMismatch name p.kind value.kind)
      modify fun vars => vars.assign p.name value
      f.bindNamed rest

def bind (f : UserFunction) (args : ArgList) : Binder Unit := do
  modify f.declareParams
  let given := args.unnamed.length
  if given ≠ f.mandatoryCount then throw (.mandatoryCount f.mandatoryCount given)
  f.bindUnnamed 0 f.params args.unnamed
  f.bindNamed args.named

end UserFunction
end ClipScript
