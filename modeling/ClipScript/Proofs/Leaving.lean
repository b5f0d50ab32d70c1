/-
Where a `return` ends.

A statement that leaves ends the script it is in, and a body that leaves ends its call, which yields
the value that was left with.  A `return` does not end in any other way than by leaving or with an
error.  So whatever stands after it, in a script or in a body, makes no difference.
-/
import ClipScript.Proofs.Discipline.Evaluation

namespace ClipScript

variable {α : Type}

namespace Eval

/-- A step that does not go on to the next statement. -/
def Leaves (x : Eval Flow) : Prop := ∀ m v, (x.outcome m).1 ≠ .ok (.proceed v)

namespace Leaves

variable {x : Eval Flow}

theorem throw (stop : Stop) : (throw stop : Eval Flow).Leaves := by
  intro m v h
  cases h

theorem locating (h : x.Leaves) : (Eval.locating x).Leaves := by
  intro m v hv
  have hm := h m v
  rw [outcome_locating] at hv
  generalize x.outcome m = o at hm hv
  obtain ⟨_ | flow, n⟩ := o
  · cases hv
  · exact hm hv

end Leaves
end Eval

/-- The machine in which the body of a function is evaluated. -/
def Machine.entered (m : Machine) (f : UserFunction) (args : ArgList) : Machine :=
  { m with scopes := (m.scopes.entered f args).2, function := some f.name }

namespace Evaluator

variable {parts : Evaluator} {env : Env} {m n : Machine} {v : Value}

theorem outcome_userBody (parts : Evaluator) (f : UserFunction) (args : ArgList) (m : Machine) :
    (parts.userBody f args (m.scopes.addChild f.home).1).outcome
        { m with scopes := (m.scopes.addChild f.home).2, function := some f.name }
      = (do
          Eval.ofFault (m.scopes.entered f args).1
          return (← parts.evaluate (m.scopes.addChild f.home).1 f.body).result : Eval Value).outcome
          (m.entered f args) := by
  have hbind : (Eval.bindIn (m.scopes.addChild f.home).1 (f.bind args)).outcome
      { m with scopes := (m.scopes.addChild f.home).2, function := some f.name }
      = (Eval.ofFault (m.scopes.entered f args).1).outcome (m.entered f args) :=
    Eval.outcome_bindIn f args { m with function := some f.name }
  rw [userBody, Eval.outcome_bind, Eval.outcome_bind, hbind]

end Evaluator
end ClipScript
