/-
What an interpreter keeps track of while it runs comes back.

However an operation ends, the function that was running is running again, and the same scripts are
being imported (`Interpreter.bookkeeping_restored`).  It is part of what `Discipline.Agrees` says,
so the discipline that asks for nothing gives it for every tree, function and script.
-/
import ClipScript.Interpreter
import ClipScript.Proofs.Discipline.Evaluation

namespace ClipScript

variable {α β : Type}

/-- However the step ends, the place is the one it started from. -/
def Eval.KeepsPlace (x : Eval α) : Prop := ∀ m, (x.outcome m).2.span = m.span

namespace Eval.KeepsPlace

theorem bind {x : Eval α} {f : α → Eval β} (h : x.KeepsPlace) (hf : ∀ a, (f a).KeepsPlace) :
    (x >>= f).KeepsPlace := by
  intro m
  have hx := h m
  rw [Eval.outcome_bind]
  generalize x.outcome m = o at hx ⊢
  obtain ⟨r, n⟩ := o
  cases r with
  | ok a => exact (hf a n).trans hx
  | error stop => exact hx

theorem ofFault (r : Except Fault α) : (Eval.ofFault r).KeepsPlace := by
  intro m
  cases r <;> rfl

theorem ofError (r : Except RuntimeError α) : (Eval.ofError r).KeepsPlace := by
  intro m
  cases r <;> rfl

theorem activation (name : String) (x : Eval α) : (Eval.activation name x).KeepsPlace := by
  intro m
  rw [Eval.outcome_activation]

theorem importing (path : String) (x : Eval α) : (Eval.importing path x).KeepsPlace := by
  intro m
  rw [Eval.outcome_importing]

end Eval.KeepsPlace

namespace Evaluator

theorem keepsPlace_call (parts : Evaluator) (f : Function) (args : ArgList) :
    (parts.call f args).KeepsPlace := by
  cases f with
  | core name native => exact .activation name _
  | user f =>
    intro m
    show ((parts.callUser f args).outcome m).2.span = _
    rw [outcome_callUser]
    split
    · exact Eval.KeepsPlace.activation f.name _ _
    · rfl

theorem keepsPlace_invoke (host : Host) (depth : Nat) (f : Function) (args : ArgList) :
    ((ofDepth host depth).invoke f args).KeepsPlace := by
  cases depth with
  | zero => exact fun _ => rfl
  | succ depth => exact keepsPlace_call _ f args

theorem keepsPlace_importNamed (host : Host) (parts : Evaluator) (name : String) :
    (importNamed host parts name).KeepsPlace := by
  refine (Eval.KeepsPlace.ofFault _).bind fun target => ?_
  refine Eval.KeepsPlace.bind (fun _ => rfl) fun m => ?_
  cases target with
  | plugin path =>
    dsimp only
    split
    · exact fun _ => rfl
    · exact (Eval.KeepsPlace.ofFault _).bind fun _ _ => rfl
  | script path =>
    dsimp only
    split
    · exact fun _ => rfl
    · split
      · exact fun _ => rfl
      · exact (Eval.KeepsPlace.ofError _).bind fun _ => .importing path _

end Evaluator

namespace Interpreter

/-- The second interpreter has the same function running and the same scripts being imported. -/
def Resumes (i j : Interpreter) : Prop :=
  j.machine.function = i.machine.function ∧ j.machine.importing = i.machine.importing

/-- Runs one script after the other, whether they fail or not. -/
def runSources (i : Interpreter) (sources : List String) : Interpreter :=
  sources.foldl (fun i source => (i.runSource source).2) i

theorem resumes_perform (i : Interpreter) {active : List Env} {good : α → Prop} {step : Eval α}
    (h : Discipline.free.Agrees active i.machine.function good step step) :
    i.Resumes (i.perform step).2 := by
  have hmeets := h i.machine (Discipline.free_ready active i.machine) rfl
  exact ⟨hmeets.function, hmeets.importing⟩

theorem parts (i : Interpreter) (who : Option String) :
    Discipline.free.Parts [] who i.evaluator i.evaluator :=
  Discipline.parts_ofDepth (Discipline.free_host i.host) i.depth [] who

theorem resumes_runSource (i : Interpreter) (source : String) :
    i.Resumes (i.runSource source).2 :=
  i.resumes_perform ((i.parts _).runSource source)

theorem resumes_runSources (i : Interpreter) (sources : List String) :
    i.Resumes (i.runSources sources) := by
  induction sources generalizing i with
  | nil => exact ⟨rfl, rfl⟩
  | cons source rest ih =>
    have hfirst := i.resumes_runSource source
    have hrest := ih (i.runSource source).2
    exact ⟨hrest.1.trans hfirst.1, hrest.2.trans hfirst.2⟩

/-- However an operation of an interpreter ends, what it kept track of comes back. -/
theorem bookkeeping_restored (i : Interpreter) :
    (∀ env n, i.Resumes (i.evaluate env n).2) ∧
    (∀ f args, i.Resumes (i.invoke f args).2 ∧
      (i.invoke f args).2.machine.span = i.machine.span) ∧
    (∀ name, i.Resumes (i.perform (i.evaluator.importNamed i.host name)).2 ∧
      (i.perform (i.evaluator.importNamed i.host name)).2.machine.span = i.machine.span) ∧
    (∀ statements, i.Resumes (i.run statements).2) ∧
    (∀ source, i.Resumes (i.runSource source).2) ∧
    ∀ host depth sources,
      let after := ({ host, depth } : Interpreter).runSources sources
      after.machine.function = none ∧ after.machine.importing = [] := by
  have hnode : ∀ n : Node, n.Declares Discipline.free.param :=
    Node.declares_of_forall fun _ => trivial
  refine ⟨fun env n => ?_, fun f args => ⟨?_, ?_⟩, fun name => ⟨?_, ?_⟩, fun statements => ?_,
    i.resumes_runSource, fun host depth sources => ?_⟩
  · exact i.resumes_perform ((i.parts _).evaluate env (hnode n))
  · exact i.resumes_perform ((i.parts _).invoke (Discipline.free_fits f) args)
  · exact Evaluator.keepsPlace_invoke i.host i.depth f args i.machine
  · exact i.resumes_perform ((i.parts none).importNamed (Discipline.free_host i.host) name)
  · exact Evaluator.keepsPlace_importNamed i.host i.evaluator name i.machine
  · exact i.resumes_perform ((i.parts _).runAll fun n _ => hnode n)
  · exact resumes_runSources { host, depth } sources

end Interpreter
end ClipScript
