/-
Evaluation writes to its own scope only.

Whatever a node does, directly or through the functions it calls, the scopes that were there before
stay as they are, except for the one it is evaluated in.  A call has a scope of its own, so it
leaves all of them alone.  This holds of runs that fail as well, wherever they do.

A run is coupled with itself here, by a relation that says of both stores that a set of scopes is as
it was.  That everything else about the two runs agrees says nothing, and comes for free.
-/
import ClipScript.Proofs.Coupling.Tables
import ClipScript.Proofs.Importless

namespace ClipScript

/-- A store in which the scopes in `fixed` are those of `saved`, and all native functions keep
within limits. -/
structure Scopes.Keeps (fixed : ScopeId → Prop) (saved s : Scopes) : Prop where
  contains : ∀ id, fixed id → s.contains id
  get : ∀ id, fixed id → s.get id = saved.get id
  natives : s.Within True False

namespace Scopes.Keeps

variable {fixed : ScopeId → Prop} {saved s : Scopes}

theorem get_modify (h : Keeps fixed saved s) {here : ScopeId} (hhere : ¬ fixed here)
    (change : Scope → Scope) (id : ScopeId) (hid : fixed id) :
    (s.modify here change).get id = saved.get id := by
  have hne : id ≠ here := by
    rintro rfl
    exact hhere hid
  rw [get_modify_of_ne s change hne, h.get id hid]

theorem changeVars (h : Keeps fixed saved s) {here : ScopeId} (hhere : ¬ fixed here)
    (change : Variables → Variables) :
    Keeps fixed saved (s.modify here fun scope => { scope with vars := change scope.vars }) := by
  refine ⟨?_, h.get_modify hhere _, h.natives.changeVars here change⟩
  intro id hid
  rw [contains_modify]
  exact h.contains id hid

theorem define (h : Keeps fixed saved s) {env : Env} (henv : ¬ fixed env.here) (name : String)
    {f : Function} (hf : f.Within True False) : Keeps fixed saved (s.define env name f) := by
  refine ⟨?_, h.get_modify henv _, h.natives.define env name hf⟩
  intro id hid
  rw [Scopes.define, contains_modify]
  exact h.contains id hid

theorem addChild (h : Keeps fixed saved s) (env : Env) : Keeps fixed saved (s.addChild env).2 := by
  refine ⟨?_, ?_, h.natives.addChild env⟩
  · intro id hid
    have hin := h.contains id hid
    rw [Scopes.contains, decide_eq_true_eq] at hin ⊢
    rw [size_addChild]
    exact Nat.lt_succ_of_lt hin
  · intro id hid
    rw [get_addChild, h.get id hid]

theorem not_fixed_addChild (h : Keeps fixed saved s) (env : Env) :
    ¬ fixed (s.addChild env).1.here := by
  intro hfixed
  have hin := h.contains _ hfixed
  simp [Scopes.contains, Scopes.addChild] at hin

end Scopes.Keeps

theorem Function.Alike.within {exact scripts : Prop} {node : Node → Node → Prop} {f g : Function}
    (h : f.Alike exact scripts node g) : f.Within exact scripts := by
  cases h with
  | core hnative => exact hnative
  | user => trivial

namespace Coupling

/-- A run and itself, evaluating in scopes that are not fixed. -/
def keeping (fixed : ScopeId → Prop) (saved : Scopes) : Coupling where
  exact := True
  scripts := False
  node := Eq
  own env := ¬ fixed env.here
  scopes s t := s = t ∧ Scopes.Keeps fixed saved s
  node_refl _ := rfl
  own_global := False.elim
  contains h := by rw [h.1]
  function? := by
    rintro s t ⟨rfl, h⟩ env name
    cases hf : s.function? env name with
    | none => exact .none
    | some f => exact .some ((h.natives.function? hf).alike fun _ => rfl)
  vars _ h := by rw [h.1]
  changeVars change henv := by
    rintro ⟨rfl, h⟩
    exact ⟨rfl, h.changeVars henv change⟩
  define name henv hfg := by
    rintro ⟨rfl, h⟩
    exact ⟨by rw [hfg.eq], h.define henv name hfg.within⟩
  addChild env := by
    rintro ⟨rfl, h⟩
    exact ⟨rfl, h.not_fixed_addChild env, rfl, h.addChild env⟩

theorem keeping_machines {fixed : ScopeId → Prop} {m : Machine} (hm : m.Within True False)
    (hfixed : ∀ id, fixed id → m.scopes.contains id) :
    (keeping fixed m.scopes).Machines m m :=
  ⟨⟨rfl, hfixed, fun _ _ => rfl, hm.scopes⟩, fun _ => rfl, rfl, rfl, rfl, hm.plugins,
    Report.forall₂_alike_self True _⟩

end Coupling

namespace Evaluator

variable {α : Type} {host : Host} {step : Evaluator → Eval α} {m : Machine}
  {o : Except Stop α × Machine}

/-- What every importless evaluator keeps is kept by a run without imports. -/
theorem Ends.keeps (fixed : ScopeId → Prop) (ho : Ends host step m o)
    (himport : ExecutesNoImport host step m) (hm : m.Within True False)
    (hfixed : ∀ id, fixed id → m.scopes.contains id)
    (hstep : ∀ {P : Evaluator}, (Coupling.keeping fixed m.scopes).Parts P P →
      (Coupling.keeping fixed m.scopes).Agrees (step P) (step P)) :
    Scopes.Keeps fixed m.scopes o.2.scopes := by
  have hended : o.1 ≠ .error .tooDeep := ho.choose_spec.2
  obtain ⟨depth, hdepth⟩ := himport o ho
  have hparts := Coupling.parts_importless (C := Coupling.keeping fixed m.scopes)
    (fun _ _ hnode => hnode) id host depth
  have hfollows := hstep hparts (Coupling.keeping_machines hm hfixed)
  rw [hdepth] at hfollows
  cases hfollows with
  | gaveUp => exact absurd rfl hended
  | value hab hmn => exact hmn.scopes.2
  | error he hmn => exact hmn.scopes.2

/-- A node that is evaluated without imports leaves every scope alone that was there before, except
for its own, and a call leaves all of them alone, however it ends. -/
theorem evaluation_writes_own_scope {m : Machine} (hm : m.Within True False) :
    (∀ env n o, ExecutesNoImport host (fun ev => ev.evaluate env n) m →
      Ends host (fun ev => ev.evaluate env n) m o →
      ∀ id, m.scopes.contains id → id ≠ env.here →
        o.2.scopes.contains id ∧ o.2.scopes.get id = m.scopes.get id) ∧
    (∀ f args o, Function.Within True False f →
      ExecutesNoImport host (fun ev => ev.invoke f args) m →
      Ends host (fun ev => ev.invoke f args) m o →
      ∀ id, m.scopes.contains id →
        o.2.scopes.contains id ∧ o.2.scopes.get id = m.scopes.get id) := by
  constructor
  · intro env n o himport ho id hid hne
    have hkeeps := ho.keeps (fun id => m.scopes.contains id ∧ id ≠ env.here) himport hm
      (fun _ h => h.1) fun hparts => hparts.evaluate (fun h => h.2 rfl) rfl
    exact ⟨hkeeps.contains id ⟨hid, hne⟩, hkeeps.get id ⟨hid, hne⟩⟩
  · intro f args o hf himport ho id hid
    have hkeeps := ho.keeps (fun id => m.scopes.contains id) himport hm
      (fun _ h => h) fun hparts => hparts.invoke (hf.alike fun _ => rfl) args
    exact ⟨hkeeps.contains id hid, hkeeps.get id hid⟩

/-- An assignment to `x` in the scope of a call is not seen by the global scope, which has an `x`
too. -/
theorem evaluation_writes_own_scope_assignment :
    let host : Host := { pluginDir := "plugins", scriptExtension := "clip" }
    let m : Machine := { scopes := ⟨#[{ vars := ⟨[("x", ⟨.boolean true, .local⟩)]⟩ }, {}]⟩ }
    let n : Node := .assign .nowhere (.leaf .nowhere (.identifier "x")) .assign
      (.leaf .nowhere (.boolean false))
    ∃ o, Ends host (fun ev => ev.evaluate ⟨1, [0]⟩ n) m o ∧
      o.2.scopes.contains 0 ∧ o.2.scopes.get 0 = m.scopes.get 0 := by
  intro host m n
  have hm : m.Within True False := by
    refine ⟨?_, fun _ hentry => nomatch hentry⟩
    intro id name f hf
    match id with
    | 0 | 1 | _ + 2 => cases hf
  have himport : ExecutesNoImport host (fun ev => ev.evaluate ⟨1, [0]⟩ n) m :=
    executesNoImport_of_importless (lawful_evaluate _ _) 2 nofun
  have ho : Ends host (fun ev => ev.evaluate ⟨1, [0]⟩ n) m _ := ⟨2, rfl, nofun⟩
  exact ⟨_, ho, (evaluation_writes_own_scope hm).1 ⟨1, [0]⟩ n _ himport ho 0 rfl nofun⟩

end Evaluator
end ClipScript
