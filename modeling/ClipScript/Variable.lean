/-
Variables: values with a name, and how they came to have it.

A variable keeps the way it was bound for as long as it lives: a default is allowed for an optional
parameter only, and an assignment must not change that.
-/
import ClipScript.Table
import ClipScript.Value

namespace ClipScript

inductive Binding where
  | local | parameter | optional
deriving DecidableEq, Repr

structure Variable where
  value : Value
  binding : Binding
deriving Repr

abbrev Variables := Table Variable

namespace Variables

def declare (vars : Variables) (name : String) (value : Value) (binding : Binding) : Variables :=
  vars.insert name ⟨value, binding⟩

/-- Stores a value.  An existing variable keeps its binding and a new one is local. -/
def assign (vars : Variables) (name : String) (value : Value) : Variables :=
  vars.insert name ⟨value, ((vars.find? name).map (·.binding)).getD .local⟩

theorem find?_assign_self (vars : Variables) (name : String) (value : Value) :
    (vars.assign name value).find? name
      = some ⟨value, ((vars.find? name).map (·.binding)).getD .local⟩ :=
  Table.find?_insert_self ..

theorem find?_assign_of_ne (vars : Variables) {name other : String} (value : Value)
    (h : other ≠ name) : (vars.assign name value).find? other = vars.find? other :=
  Table.find?_insert_of_ne _ _ h

end Variables

end ClipScript
