/-
Runs without imports.

An import runs another script in the global scope, whoever asks for it.  What holds of a run because
it stays in its own scopes therefore holds of runs that execute no import statement.

`Evaluator.importless` is an evaluator that gives up where it would execute one.  A run that comes
to its end all the same with such an evaluator executes none (`Evaluator.ExecutesNoImport`).  So
what is shown of every run of an importless evaluator holds of the runs in question, and
`parts_importless` shows it for every coupling that relates a tree to itself only.
-/
import ClipScript.Proofs.Depth

namespace ClipScript

variable {α : Type}

def Node.isImport : Node → Bool
  | .importName _ _ => true
  | _ => false

namespace Evaluator

/-- An evaluator that gives up at every import statement, for nodes and calls nested at most `n`
deep. -/
def importless (host : Host) : Nat → Evaluator
  | 0 => .inert
  | n + 1 =>
    { evaluate := fun env tree =>
        if tree.isImport then throw .tooDeep else (next host (importless host n)).evaluate env tree
      invoke := (next host (importless host n)).invoke }

/-- A step that, carried out from `m`, executes no import statement: however it ends, it ends so too
if every import statement is given up. -/
def ExecutesNoImport (host : Host) (step : Evaluator → Eval α) (m : Machine) : Prop :=
  ∀ o, Ends host step m o → ∃ depth, (step (importless host depth)).outcome m = o

theorem same_parts_importless (host : Host) (depth : Nat) :
    Coupling.same.Parts (importless host depth) (ofDepth host depth) := by
  induction depth with
  | zero => exact ⟨fun _ _ => .gaveUp _, fun _ _ => .gaveUp _⟩
  | succ depth ih =>
    refine ⟨?_, fun hfg args => ih.call hfg args⟩
    intro env n n' henv hn
    cases hn
    show Coupling.same.Agrees (if n.isImport then throw .tooDeep else _) _
    by_cases himport : n.isImport
    · rw [if_pos himport]
      exact .gaveUp _
    · rw [if_neg himport]
      exact ih.node_of_like (fun _ => host.within_true) henv (.refl n (.inl trivial))

theorem ends_of_importless {step : Evaluator → Eval α} (hstep : Lawful step) {host : Host}
    {m : Machine} {o : Except Stop α × Machine} {depth : Nat}
    (ho : (step (importless host depth)).outcome m = o) (hended : o.1 ≠ .error .tooDeep) :
    Ends host step m o := by
  have hsame : Coupling.same.Machines m m := Coupling.same_machines_iff.mpr rfl
  have hfollows := hstep (same_parts_importless host depth) hsame
  rw [ho] at hfollows
  exact ⟨depth, Coupling.eq_of_follows hfollows hended, hended⟩

theorem executesNoImport_of_importless {step : Evaluator → Eval α} (hstep : Lawful step)
    {host : Host} {m : Machine} (depth : Nat)
    (hended : ((step (importless host depth)).outcome m).1 ≠ .error .tooDeep) :
    ExecutesNoImport host step m := by
  intro o ho
  exact ⟨depth, Ends.unique hstep (ends_of_importless hstep rfl hended) ho⟩

end Evaluator

namespace Coupling

/-- Importless evaluators keep two runs alike at every depth, under every coupling of a tree with
itself. -/
theorem parts_importless {C : Coupling} (hnode : ∀ n n', C.node n n' → n = n')
    (hscripts : ¬ C.scripts) (host : Host) (depth : Nat) :
    C.Parts (Evaluator.importless host depth) (Evaluator.importless host depth) := by
  induction depth with
  | zero => exact ⟨fun _ _ => .gaveUp _, fun _ _ => .gaveUp _⟩
  | succ depth ih =>
    refine ⟨?_, fun hfg args => ih.call hfg args⟩
    intro env n n' henv hn
    obtain rfl := hnode n n' hn
    show C.Agrees (if n.isImport then throw .tooDeep else _)
      (if n.isImport then throw .tooDeep else _)
    by_cases himport : n.isImport
    · rw [if_pos himport]
      exact .gaveUp _
    · rw [if_neg himport]
      -- a coupling that allows for no scripts compares all trees but imports
      refine ih.node_of_like (fun h => absurd h hscripts) henv (.refl n (.inr ?_))
      intro s name hn
      rw [hn] at himport
      exact himport rfl

end Coupling
end ClipScript
