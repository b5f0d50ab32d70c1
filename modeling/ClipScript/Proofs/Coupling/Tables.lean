/-
Stores of scopes that differ in variables and function bodies.

`Scopes.Alike` compares two stores scope by scope: under every name there are functions that take
each other's place, and the variables are the same from a certain scope on.  The scopes before it
may hold any variables at all.  `Coupling.tables` is the coupling of runs over such stores, in which
only scopes with the same variables are evaluated in.
-/
import ClipScript.Proofs.Coupling

namespace ClipScript
namespace Scopes

/-- Stores with alike functions under every name, and the same variables from scope `first` on. -/
structure Alike (function : Function → Function → Prop) (first : ScopeId) (s t : Scopes) :
    Prop where
  size : s.all.size = t.all.size
  first_le : first ≤ s.all.size
  functions : ∀ id name,
    Option.Rel function ((s.get id).functions.find? name) ((t.get id).functions.find? name)
  vars : ∀ id, first ≤ id → (s.get id).vars = (t.get id).vars

namespace Alike

variable {function : Function → Function → Prop} {first : ScopeId} {s t : Scopes}

theorem contains (h : Alike function first s t) (id : ScopeId) : s.contains id = t.contains id := by
  rw [Scopes.contains, Scopes.contains, h.size]

theorem function? (h : Alike function first s t) (env : Env) (name : String) :
    Option.Rel function (s.function? env name) (t.function? env name) := by
  rw [Scopes.function?, Scopes.function?]
  induction env.chain with
  | nil => exact .none
  | cons id rest ih =>
    rw [List.findSome?_cons, List.findSome?_cons]
    have hid := h.functions id name
    generalize (s.get id).functions.find? name = f at hid ⊢
    generalize (t.get id).functions.find? name = g at hid ⊢
    cases hid with
    | none => exact ih
    | some hfg => exact .some hfg

theorem changeVars (h : Alike function first s t) (id : ScopeId)
    (change : Variables → Variables) :
    Alike function first
      (s.modify id fun scope => { scope with vars := change scope.vars })
      (t.modify id fun scope => { scope with vars := change scope.vars }) := by
  refine ⟨by simpa using h.size, by simpa using h.first_le, ?_, ?_⟩
  · intro other name
    rw [get_modify, get_modify, h.contains]
    split
    · exact h.functions id name
    · exact h.functions other name
  · intro other hother
    rw [get_modify, get_modify, h.contains]
    split
    · next hid => rw [h.vars id (hid.1 ▸ hother)]
    · exact h.vars other hother

theorem define (h : Alike function first s t) (env : Env) (name : String) {f g : Function}
    (hfg : function f g) : Alike function first (s.define env name f) (t.define env name g) := by
  refine ⟨by simpa [Scopes.define] using h.size, by simpa [Scopes.define] using h.first_le, ?_, ?_⟩
  · intro other other'
    rw [Scopes.define, Scopes.define, get_modify, get_modify, h.contains]
    split
    · by_cases hname : other' = name
      · subst hname
        rw [Table.find?_insert_self, Table.find?_insert_self]
        exact .some hfg
      · rw [Table.find?_insert_of_ne _ _ hname, Table.find?_insert_of_ne _ _ hname]
        exact h.functions env.here other'
    · exact h.functions other other'
  · intro other hother
    rw [Scopes.define, Scopes.define, get_modify, get_modify, h.contains]
    split
    · next hid => exact h.vars env.here (hid.1 ▸ hother)
    · exact h.vars other hother

theorem addChild (h : Alike function first s t) (env : Env) :
    Alike function first (s.addChild env).2 (t.addChild env).2 := by
  refine ⟨?_, ?_, ?_, ?_⟩
  · rw [size_addChild, size_addChild, h.size]
  · rw [size_addChild]
    exact Nat.le_succ_of_le h.first_le
  · intro id name
    rw [get_addChild, get_addChild]
    exact h.functions id name
  · intro id hid
    rw [get_addChild, get_addChild]
    exact h.vars id hid

end Alike
end Scopes

/-- Runs over stores that agree on variables from scope `first` on.  A script is evaluated in the
global scope, so scripts may be run only if that one is among them. -/
def Coupling.tables (exact scripts : Prop) (node : Node → Node → Prop) (first : ScopeId)
    (node_refl : ∀ n, node n n) (hscripts : scripts → first = 0) : Coupling where
  exact := exact
  scripts := scripts
  node := node
  own env := first ≤ env.here
  scopes := Scopes.Alike (Function.Alike exact scripts node) first
  node_refl := node_refl
  own_global h := by
    rw [hscripts h]
    exact Nat.zero_le _
  contains h := h.contains _
  function? h := h.function?
  vars henv h := h.vars _ henv
  changeVars change _ h := h.changeVars _ change
  define name _ hfg h := h.define _ name hfg
  addChild env h := by
    refine ⟨?_, h.first_le, h.addChild env⟩
    simp only [Scopes.addChild, h.size]

end ClipScript
