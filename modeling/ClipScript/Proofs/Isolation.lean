/-
Calls do not see the variables around them.

A user function is called in a scope of its own, which has no variables but the parameters.
Functions are looked up in the scopes around it and variables are not.  So the variables of all
scopes that exist when the call is made, whatever they hold, make no difference to it, as long as
no import statement is executed: an imported script runs in the global scope.

The two runs are coupled by `Coupling.tables`: from the first scope on that the call adds, variables
are the same, and only such scopes are evaluated in.
-/
import ClipScript.Proofs.Coupling.Tables
import ClipScript.Proofs.Importless

namespace ClipScript

/-- Machines that differ in nothing but the variables of their scopes. -/
structure Machine.SameButVariables (m n : Machine) : Prop where
  rest : n = { m with scopes := n.scopes }
  functions : n.scopes.all.map Scope.functions = m.scopes.all.map Scope.functions

namespace Machine.SameButVariables

variable {m n : Machine}

theorem symm (h : m.SameButVariables n) : n.SameButVariables m := by
  refine ⟨?_, h.functions.symm⟩
  rw [h.rest]

theorem size (h : m.SameButVariables n) : n.scopes.all.size = m.scopes.all.size := by
  have hsize := congrArg Array.size h.functions
  simpa using hsize

theorem functions_get (h : m.SameButVariables n) (id : ScopeId) :
    (n.scopes.get id).functions = (m.scopes.get id).functions := by
  have hget : ∀ s : Scopes, (s.get id).functions = (s.all.map Scope.functions).getD id {} := by
    intro s
    simp only [Scopes.get, Array.getD_eq_getD_getElem?, Array.getElem?_map]
    cases s.all[id]? <;> rfl
  rw [hget, hget, h.functions]

theorem within (h : m.SameButVariables n) {line script : Prop} (hm : m.Within line script) :
    n.Within line script := by
  refine ⟨fun id name f hf => ?_, ?_⟩
  · rw [h.functions_get] at hf
    exact hm.scopes id name f hf
  · rw [h.rest]
    exact hm.plugins

end Machine.SameButVariables

namespace Coupling

/-- Runs that share the variables of the scopes from `first` on, and all functions. -/
def apart (first : ScopeId) : Coupling :=
  tables True False Eq first (fun _ => rfl) False.elim

theorem apart_machines {m n : Machine} (h : m.SameButVariables n) (hm : m.Within True False) :
    (apart m.scopes.all.size).Machines m n := by
  obtain ⟨scopes, hn⟩ : ∃ scopes, n = { m with scopes } := ⟨n.scopes, h.rest⟩
  refine ⟨⟨h.size.symm, Nat.le_refl _, ?_, ?_⟩, ?_, ?_, ?_, ?_, hm.plugins, ?_⟩
  · intro id name
    rw [h.functions_get]
    exact hm.functions_alike (fun _ => rfl) id name
  · -- past the scopes in use there are no variables on either side
    intro id hid
    have hid' : n.scopes.all.size ≤ id := h.size ▸ hid
    simp [Scopes.get, hid, hid']
  · intro _
    rw [hn]
  · rw [hn]
  · rw [hn]
  · rw [hn]
  · rw [hn]
    exact Report.forall₂_alike_self True _

theorem apart_follows {m n : Machine} (h : m.SameButVariables n) (hm : m.Within True False)
    (host : Host) (f : UserFunction) (args : ArgList) (depth : Nat) :
    (apart m.scopes.all.size).Follows Eq
      (((Evaluator.importless host depth).invoke (.user f) args).outcome m)
      (((Evaluator.importless host depth).invoke (.user f) args).outcome n) := by
  have hparts : (apart m.scopes.all.size).Parts (Evaluator.importless host depth)
      (Evaluator.importless host depth) :=
    parts_importless (fun _ _ hnode => hnode) id host depth
  exact hparts.invoke (.user rfl ⟨rfl, fun _ => rfl⟩ rfl rfl) args (apart_machines h hm)

theorem reports_eq {first : ScopeId} {m n : Machine} (h : (apart first).Machines m n) :
    n.reports = m.reports := by
  have hreports : m.reports.toList = n.reports.toList :=
    List.forall₂_eq_eq_eq ▸ h.reports.imp fun _ _ => eq_of_report_alike
  exact (Array.toList_inj.mp hreports).symm

end Coupling

namespace Evaluator

variable {host : Host} {m n : Machine} {f : UserFunction} {args : ArgList}

/-- A call that ends from one machine ends from the other, with the same result and having said the
same. -/
theorem ends_of_sameButVariables (h : m.SameButVariables n) (hm : m.Within True False)
    (himport : ExecutesNoImport host (fun ev => ev.invoke (.user f) args) m)
    {o : Except Stop Value × Machine} (ho : Ends host (fun ev => ev.invoke (.user f) args) m o) :
    ∃ o', Ends host (fun ev => ev.invoke (.user f) args) n o' ∧
      o'.1 = o.1 ∧ o'.2.reports = o.2.reports := by
  have hended : o.1 ≠ .error .tooDeep := ho.choose_spec.2
  obtain ⟨depth, hdepth⟩ := himport o ho
  have hfollows := Coupling.apart_follows h hm host f args depth
  dsimp only at hdepth
  rw [hdepth] at hfollows
  generalize ho' : ((importless host depth).invoke (.user f) args).outcome n = o' at hfollows
  cases hfollows with
  | gaveUp => exact absurd rfl hended
  | value hab hmn =>
    have hends := ends_of_importless (lawful_invoke _ _) ho' nofun
    exact ⟨_, hends, by rw [hab], Coupling.reports_eq hmn⟩
  | error he hmn =>
    have hends := ends_of_importless (lawful_invoke _ _) ho' nofun
    exact ⟨_, hends, by rw [Coupling.eq_of_error_alike he], Coupling.reports_eq hmn⟩

/-- From two machines that differ in the variables of their scopes, a call of a user function that
executes no import statement gives the same result and says the same, or ends from neither. -/
theorem invoke_ignores_variables (h : m.SameButVariables n) (hm : m.Within True False)
    (himport : ExecutesNoImport host (fun ev => ev.invoke (.user f) args) m)
    (himport' : ExecutesNoImport host (fun ev => ev.invoke (.user f) args) n) :
    (∀ o o', Ends host (fun ev => ev.invoke (.user f) args) m o →
      Ends host (fun ev => ev.invoke (.user f) args) n o' →
      o'.1 = o.1 ∧ o'.2.reports = o.2.reports) ∧
    ((∃ o, Ends host (fun ev => ev.invoke (.user f) args) m o) ↔
      ∃ o', Ends host (fun ev => ev.invoke (.user f) args) n o') := by
  refine ⟨?_, ?_, ?_⟩
  · intro o o' ho ho'
    obtain ⟨o'', ho'', hresult⟩ := ends_of_sameButVariables h hm himport ho
    rw [Ends.unique (lawful_invoke _ _) ho' ho'']
    exact hresult
  · rintro ⟨o, ho⟩
    obtain ⟨o', ho', -⟩ := ends_of_sameButVariables h hm himport ho
    exact ⟨o', ho'⟩
  · rintro ⟨o', ho'⟩
    obtain ⟨o, ho, -⟩ :=
      ends_of_sameButVariables h.symm (h.within hm) himport' ho'
    exact ⟨o, ho⟩

/-- A function that reads a variable `x`, which it does not have. -/
def reader : UserFunction where
  name := "reader"
  params := []
  body := .returnValue .nowhere (some (.leaf .nowhere (.identifier "x")))
  home := .global

/-- The global scope with a variable `x`. -/
def withX : Machine := { scopes := ⟨#[{ vars := ⟨[("x", ⟨.boolean true, .local⟩)]⟩ }]⟩ }

theorem invoke_ignores_variables_reader :
    let host : Host := { pluginDir := "plugins", scriptExtension := "clip" }
    (∀ o o', Ends host (fun ev => ev.invoke (.user reader) .empty) {} o →
      Ends host (fun ev => ev.invoke (.user reader) .empty) withX o' →
      o'.1 = o.1 ∧ o'.2.reports = o.2.reports) ∧
    ((∃ o, Ends host (fun ev => ev.invoke (.user reader) .empty) {} o) ↔
      ∃ o', Ends host (fun ev => ev.invoke (.user reader) .empty) withX o') := by
  refine invoke_ignores_variables ⟨rfl, by simp [withX, Scopes.start]⟩ ⟨?_, ?_⟩
    (executesNoImport_of_importless (lawful_invoke _ _) 3 nofun)
    (executesNoImport_of_importless (lawful_invoke _ _) 3 nofun)
  · intro id name f hf
    match id with
    | 0 => cases hf
    | id + 1 => cases hf
  · intro entry hentry
    cases hentry

end Evaluator
end ClipScript
