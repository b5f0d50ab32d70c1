/-
Scopes: where variables and functions live.

All scopes of a run are kept in one store and named by their index.  Variables are looked up in the
scope itself only; functions are looked up in the scopes around it too.
-/
import ClipScript.Function

namespace ClipScript

structure Scope where
  vars : Variables := {}
  functions : Table Function := {}

/-- The store of all scopes.  Scopes are added and changed, never removed. -/
structure Scopes where
  all : Array Scope

namespace Scopes

def start : Scopes := ⟨#[{}]⟩

def contains (s : Scopes) (id : ScopeId) : Bool := id < s.all.size

/-- A scope by its index.  An index that is not in use names an empty scope. -/
def get (s : Scopes) (id : ScopeId) : Scope := s.all.getD id {}

def modify (s : Scopes) (id : ScopeId) (change : Scope → Scope) : Scopes :=
  ⟨s.all.modify id change⟩

def addChild (s : Scopes) (env : Env) : Env × Scopes :=
  (⟨s.all.size, env.chain⟩, ⟨s.all.push {}⟩)

def var? (s : Scopes) (env : Env) (name : String) : Option Variable :=
  (s.get env.here).vars.find? name

def value? (s : Scopes) (env : Env) (name : String) : Option Value :=
  (s.var? env name).map (·.value)

def function? (s : Scopes) (env : Env) (name : String) : Option Function :=
  env.chain.findSome? fun id => (s.get id).functions.find? name

def assign (s : Scopes) (env : Env) (name : String) (value : Value) : Scopes :=
  s.modify env.here fun scope => { scope with vars := scope.vars.assign name value }

def declare (s : Scopes) (env : Env) (name : String) (value : Value) (binding : Binding) : Scopes :=
  s.modify env.here fun scope =>
    { scope with vars := scope.vars.declare name value binding }

def define (s : Scopes) (env : Env) (name : String) (f : Function) : Scopes :=
  s.modify env.here fun scope => { scope with functions := scope.functions.insert name f }

theorem get_modify_of_ne (s : Scopes) {id other : ScopeId} (change : Scope → Scope)
    (h : other ≠ id) : (s.modify id change).get other = s.get other := by
  simp [get, modify, Array.getElem?_modify, Ne.symm h]

theorem get_modify_self (s : Scopes) {id : ScopeId} (change : Scope → Scope)
    (h : s.contains id = true) : (s.modify id change).get id = change (s.get id) := by
  have h : id < s.all.size := by simpa [contains] using h
  simp [get, modify, h, Array.getElem_modify]

end Scopes
end ClipScript
