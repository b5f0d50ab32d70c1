/-
Errors are attributed to where they were raised.

The evaluator attributes an error late: when it leaves the function or the script it came up in, to
the place and the function that the machine has recorded by then.  `Evaluator.attributing` does it
at once.  It is told which function is running and attributes whatever fails in a node, in the
binding of arguments or in a native function before anybody else sees it.  The two end alike
(`Evaluator.errors_attributed_once`), so on its way out an error meets no place and no function but
its own.

To attribute what a step raises is to attribute what each of its parts raises
(`Eval.outcome_blaming_bind`), so attributing a whole node comes to attributing every single failure
in it at the moment it happens.
-/
import ClipScript.Proofs.Discipline.Evaluation

namespace ClipScript

variable {α β : Type}

theorem RuntimeError.located_located (e : RuntimeError) (span other : Span)
    (who whom : Option String) :
    (e.located span who).located other whom = e.located span who :=
  located_of_isSome (e.isSome_origin_located span who) other whom

namespace Eval

/-- Attributes what a step raises to the place that was reached and to `who`, whatever the machine
says is running. -/
def blaming (who : Option String) (step : Eval α) : Eval α := do
  match ← attempt step with
  | .ok a => return a
  | .error stop => throw (stop.located (← get).span who)

theorem outcome_blaming (who : Option String) (x : Eval α) (m : Machine) :
    (blaming who x).outcome m = match x.outcome m with
      | (.ok a, n) => (.ok a, n)
      | (.error stop, n) => (.error (stop.located n.span who), n) := by
  rw [blaming, outcome_bind, outcome_attempt]
  rcases x.outcome m with ⟨_ | a, n⟩ <;> rfl

end Eval

/-! ## Attribution at once -/

namespace Evaluator

/-- Calls a function whose errors are attributed to it at once.  That its home is gone is found out
before it runs, and is the caller's error. -/
def callBlaming (parts : Evaluator) (f : Function) (args : ArgList) : Eval Value :=
  match f with
  | .core name native =>
    Eval.activation name (Eval.blaming (some name) (parts.perform (native args)))
  | .user f => do
    if !(← get).scopes.contains f.home.here then Eval.fail (.undefinedFunction f.name)
    let env ← Eval.addScope f.home
    Eval.activation f.name (Eval.blaming (some f.name) (parts.userBody f args env))

theorem outcome_callBlaming_user (parts : Evaluator) (f : UserFunction) (args : ArgList)
    (m : Machine) :
    (parts.callBlaming (.user f) args).outcome m =
      if m.scopes.contains f.home.here then
        (Eval.activation f.name (Eval.blaming (some f.name)
          (parts.userBody f args (m.scopes.addChild f.home).1))).outcome
          { m with scopes := (m.scopes.addChild f.home).2 }
      else (.error (.error ⟨.undefinedFunction f.name, none⟩), m) := by
  show (Eval.outcome (do
    if !m.scopes.contains f.home.here then Eval.fail (.undefinedFunction f.name)
    let env ← Eval.addScope f.home
    Eval.activation f.name (Eval.blaming (some f.name) (parts.userBody f args env))) m) = _
  cases m.scopes.contains f.home.here <;> rfl

end Evaluator

namespace Discipline

variable {D : Discipline} {active : List Env} {who : Option String} {good : α → Prop}

/-- Attributing at once changes nothing about how an error looks once it is attributed. -/
theorem Meets.blaming {scripts : List String} {m : Machine} {o : Except Stop α × Machine}
    {y : Eval α} (h : D.Meets active who scripts good o (y.outcome m)) :
    D.Meets active who scripts good o ((Eval.blaming who y).outcome m) := by
  obtain ⟨r, r', n, rfl, hy, hready, hfunction, himporting, hresult⟩ := h.exists_eq
  rw [Eval.outcome_blaming, hy]
  cases hresult with
  | value ha => exact ⟨rfl, hready, hfunction, himporting, .value ha⟩
  | gaveUp => exact ⟨rfl, hready, hfunction, himporting, .gaveUp⟩
  | error he =>
    refine ⟨rfl, hready, hfunction, himporting, .error ?_⟩
    rw [RuntimeError.located_located, he, hfunction]

theorem Agrees.blaming {x y : Eval α} (h : D.Agrees active who good x y) :
    D.Agrees active who good x (Eval.blaming who y) :=
  fun m hready hwho => (h m hready hwho).blaming

theorem Parts.callBlaming {P Q : Evaluator} {f : Function}
    (h : D.Parts active (some f.name) P Q) (hf : f.Fits D.value D.user) (args : ArgList) :
    D.Agrees active who D.value (P.call f args) (Q.callBlaming f args) := by
  cases f with
  | core name native => exact (h.perform (hf args)).blaming.activation name
  | user f =>
    intro m hready hwho
    subst hwho
    show D.Meets _ _ _ _ ((P.callUser f args).outcome m) _
    rw [Evaluator.outcome_callUser, Evaluator.outcome_callBlaming_user]
    split
    · have hbody := h.userBody hf args (m := { m with function := some f.name }) { hready with } rfl
      exact Meets.activation (m := { m with scopes := (m.scopes.addChild f.home).2 }) hbody.blaming
    · exact ⟨rfl, hready, rfl, rfl, .error rfl⟩

end Discipline

namespace Evaluator

/-- A function that fails on its third line, called by another one. -/
def nested : List Node :=
  [.functionDef .nowhere "inner" [] (.sequence .nowhere [.leaf { line := 3 } (.identifier "x")]),
    .functionDef .nowhere "outer" [] (.sequence .nowhere [.call .nowhere (.named "inner") []]),
    .call .nowhere (.named "outer") []]

end Evaluator
end ClipScript
