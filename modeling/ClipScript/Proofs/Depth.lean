/-
Runs and the depth they are given.

An evaluator is set up for a certain depth of nesting, and a run that nests deeper is given up.  A
run that comes to an end is the same at every larger depth (`Evaluator.outcome_of_le`), so how a run
ends does not depend on the depth that was chosen, as long as it is large enough.  `Evaluator.Ends`
is that notion: a run that comes to an end, and how.
-/
import ClipScript.Proofs.Coupling.Evaluation

namespace ClipScript

variable {α : Type}

theorem Function.alike_self (f : Function) : f.Alike True True Eq f := by
  cases f with
  | core name native => exact .core fun args => (native args).within_true
  | user f => exact .user rfl ⟨rfl, fun _ => rfl⟩ rfl rfl

theorem Function.Alike.eq {scripts : Prop} {f g : Function} (h : f.Alike True scripts Eq g) :
    f = g := by
  cases h with
  | core hnative => rfl
  | @user f g hname hparams hhome hbody =>
    obtain ⟨fname, fparams, fbody, fhome⟩ := f
    obtain ⟨gname, gparams, gbody, ghome⟩ := g
    cases hname
    cases hparams.2 trivial
    cases hhome
    cases hbody
    rfl

def Coupling.same : Coupling where
  exact := True
  scripts := True
  node := Eq
  own _ := True
  scopes := Eq
  node_refl _ := rfl
  own_global _ := trivial
  contains h := by rw [h]
  function? := by
    intro s t h env name
    subst h
    cases s.function? env name with
    | none => exact .none
    | some f => exact .some f.alike_self
  vars _ h := by rw [h]
  changeVars _ _ h := by rw [h]
  define := by
    intro s t env f g name _ hfg h
    rw [hfg.eq, h]
  addChild env h := by
    subst h
    exact ⟨rfl, trivial, rfl⟩

namespace Coupling

theorem eq_of_report_alike {r r' : Report} (h : r.Alike True r') : r = r' := by
  cases r <;> cases r' <;> simp_all [Report.Alike]

theorem same_machines_iff {m n : Machine} : same.Machines m n ↔ m = n := by
  constructor
  · intro h
    obtain ⟨scopes, span, function, importing, plugins, reports⟩ := m
    obtain ⟨scopes', span', function', importing', plugins', reports'⟩ := n
    have hreports : reports.toList = reports'.toList :=
      List.forall₂_eq_eq_eq ▸ h.reports.imp fun _ _ => eq_of_report_alike
    cases h.scopes
    cases h.span trivial
    cases h.function
    cases h.importing
    cases h.plugins
    cases Array.toList_inj.mp hreports
    rfl
  · rintro rfl
    exact ⟨rfl, fun _ => rfl, rfl, rfl, rfl, m.plugins.within_true,
      Report.forall₂_alike_self True _⟩

theorem eq_of_error_alike {e e' : RuntimeError} (h : e.Alike True e') : e = e' := by
  obtain ⟨fault, origin⟩ := e
  obtain ⟨fault', origin'⟩ := e'
  obtain ⟨hfault, horigin⟩ := h
  cases hfault
  cases horigin with
  | none => rfl
  | @some o o' ho =>
    obtain ⟨span, function⟩ := o
    obtain ⟨span', function'⟩ := o'
    cases ho.1 trivial
    cases ho.2
    rfl

/-- An outcome that follows another one of the same run is that one. -/
theorem eq_of_follows {o o' : Except Stop α × Machine} (h : same.Follows Eq o o')
    (hne : o.1 ≠ .error .tooDeep) : o' = o := by
  cases h with
  | gaveUp => exact absurd rfl hne
  | value hab hmn => rw [hab, same_machines_iff.mp hmn]
  | error he hmn => rw [eq_of_error_alike he, same_machines_iff.mp hmn]

/-- What follows a run follows it still when it is given more depth. -/
theorem Simulates.trans_same {β : Type} {C : Coupling} {related : α → β → Prop} {x : Eval α}
    {y z : Eval β} (h : C.Simulates related x y) (hyz : same.Agrees y z) :
    C.Simulates related x z := by
  intro m n hmn
  have hxy := h hmn
  have hsame := hyz (same_machines_iff.mpr rfl : same.Machines n n)
  generalize x.outcome m = o at hxy ⊢
  generalize y.outcome n = o' at hxy hsame
  cases hxy with
  | gaveUp => exact .gaveUp
  | value hab hmn' =>
    rw [eq_of_follows hsame nofun]
    exact .value hab hmn'
  | error he hmn' =>
    rw [eq_of_follows hsame nofun]
    exact .error he hmn'

theorem Parts.trans_same {C : Coupling} {P Q R : Evaluator} (h : C.Parts P Q)
    (hQR : same.Parts Q R) : C.Parts P R where
  evaluate henv hn := (h.evaluate henv hn).trans_same (hQR.evaluate trivial rfl)
  invoke hfg args := (h.invoke hfg args).trans_same (hQR.invoke (Function.alike_self _) args)

end Coupling

namespace Evaluator

theorem same_parts (host : Host) {d e : Nat} (h : d ≤ e) :
    Coupling.same.Parts (ofDepth host d) (ofDepth host e) := by
  induction d generalizing e with
  | zero => exact ⟨fun _ _ => .gaveUp _, fun _ _ => .gaveUp _⟩
  | succ d ih =>
    obtain ⟨e, rfl⟩ : ∃ e', e = e' + 1 := ⟨e - 1, by omega⟩
    have hparts := ih (Nat.le_of_succ_le_succ h)
    refine ⟨?_, fun hfg args => hparts.call hfg args⟩
    intro env n n' henv hn
    cases hn
    exact hparts.node_of_like (fun _ => host.within_true) henv (.refl n (.inl trivial))

/-- A step that does no more than its evaluator allows: with evaluators that agree it ends alike.
Evaluating a node and calling a function are such steps. -/
def Lawful (step : Evaluator → Eval α) : Prop :=
  ∀ {P Q : Evaluator}, Coupling.same.Parts P Q → Coupling.same.Agrees (step P) (step Q)

theorem lawful_evaluate (env : Env) (n : Node) : Lawful fun ev => ev.evaluate env n :=
  fun h => h.evaluate trivial rfl

theorem lawful_invoke (f : Function) (args : ArgList) : Lawful fun ev => ev.invoke f args :=
  fun h => h.invoke f.alike_self args

theorem outcome_of_le {step : Evaluator → Eval α} (hstep : Lawful step) (host : Host) {d e : Nat}
    (h : d ≤ e) {m : Machine}
    (hne : ((step (ofDepth host d)).outcome m).1 ≠ .error .tooDeep) :
    (step (ofDepth host e)).outcome m = (step (ofDepth host d)).outcome m :=
  Coupling.eq_of_follows (hstep (same_parts host h) (Coupling.same_machines_iff.mpr rfl)) hne

/-- A step comes to an end from a machine, at whatever depth, with the given outcome. -/
def Ends (host : Host) (step : Evaluator → Eval α) (m : Machine)
    (o : Except Stop α × Machine) : Prop :=
  ∃ depth, (step (ofDepth host depth)).outcome m = o ∧ o.1 ≠ .error .tooDeep

theorem Ends.unique {host : Host} {step : Evaluator → Eval α} (hstep : Lawful step) {m : Machine}
    {o o' : Except Stop α × Machine} (h : Ends host step m o) (h' : Ends host step m o') :
    o = o' := by
  obtain ⟨d, hd, hne⟩ := h
  obtain ⟨e, he, hne'⟩ := h'
  subst hd he
  rcases Nat.le_total d e with hde | hed
  · exact (outcome_of_le hstep host hde hne).symm
  · exact outcome_of_le hstep host hed hne'

end Evaluator
end ClipScript
