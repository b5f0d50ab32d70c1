/-
What runs keep.

A `Contract` is an invariant of the scopes and the plugins, together with what it asks of a scope to
evaluate something there and of a function to call it.  What is known grows as a run goes on: calls
add scopes and imports add plugins.  So a contract is stated for worlds, and a step may end in a
later one.

`Contract.Gives` compares two steps from the same machine.  They end alike, the contract is kept,
and the scripts that are being imported are the same afterwards.  With one step on both sides this
is what the step keeps.  A contract that is not `free` promises in addition that no run is given up,
and it has no functions of scripts to deal with.

What one level of the evaluator does under a contract is in
`ClipScript.Proofs.Contract.Evaluation`.
-/
import ClipScript.Proofs.Discipline.Evaluation
import Mathlib.Order.Basic

namespace ClipScript

variable {α β : Type}

/-- Actions that call no function and run no script. -/
inductive Action.Alone : Action → Prop where
  | done (result : Except Fault Value) : Alone (.done result)
  | message {text : String} {next : Action} : Alone next → Alone (.message text next)
  | warn {text : String} {next : Action} : Alone next → Alone (.warn text next)
  | place {next : Nat → Option String → Action} : (∀ line function, Alone (next line function)) →
      Alone (.place next)

def Native.Alone (native : Native) : Prop := ∀ args, (native args).Alone

structure Contract where
  World : Type
  [order : Preorder World]
  /-- Whether anything may happen: scripts define functions, native functions call them and run
  scripts, and a run may be given up. -/
  free : Prop
  holds : World → Scopes → Registry → Prop
  /-- The scopes in which something may be evaluated. -/
  own : World → Env → Prop
  /-- The functions that may be called while evaluations go on in certain scopes. -/
  callable : World → List Env → Function → Prop
  own_mono : ∀ {W W' env}, W ≤ W' → own W env → own W' env
  own_global : ∀ {W s r}, holds W s r → own W .global
  callable_mono : ∀ {W W' active f}, W ≤ W' → callable W active f → callable W' active f
  core : ∀ {W active name native}, callable W active (.core name native) →
    free ∨ Native.Alone native
  user : ∀ {W active f}, callable W active (.user f) → free
  function? : ∀ {W s r env active name f}, holds W s r → own W env →
    env ∈ Env.global :: active → s.function? env name = some f → callable W active f
  resolve : ∀ {W s r active owner function native} (name : String), holds W s r →
    r.resolve owner function = .ok native → callable W active (.core name native)
  assign : ∀ {W s r env v} (name : String), holds W s r → own W env → v.isStorable →
    ∃ W', W ≤ W' ∧ holds W' (s.assign env name v) r
  define : ∀ {W s r f} (name : String), free → holds W s r → own W f.home →
    ∃ W', W ≤ W' ∧ holds W' (s.define f.home name (.user f)) r
  enter : ∀ {W s r active f} (args : ArgList), holds W s r → callable W active (.user f) →
    ∃ W', W ≤ W' ∧ own W' (s.addChild f.home).1 ∧ holds W' (s.entered f args).2 r

namespace Contract

attribute [instance] Contract.order

variable (C : Contract)

/-- A machine that keeps the contract, while `scripts` are being imported. -/
structure Ready (scripts : List String) (W : C.World) (m : Machine) : Prop where
  holds : C.holds W m.scopes m.plugins
  importing : m.importing = scripts

/-- An outcome that keeps the contract, in a world that came after `W`.  A run is given up only if
that may happen. -/
inductive Keeps (scripts : List String) (W : C.World) (good : C.World → α → Prop) :
    Except Stop α × Machine → Prop where
  | value {W' : C.World} {a : α} {m : Machine} : W ≤ W' → good W' a → C.Ready scripts W' m →
      Keeps scripts W good (.ok a, m)
  | stop {W' : C.World} {stop : Stop} {m : Machine} : W ≤ W' → (stop = .tooDeep → C.free) →
      C.Ready scripts W' m → Keeps scripts W good (.error stop, m)

/-- From the machine `m` both steps end alike and keep the contract. -/
def Meets (scripts : List String) (W : C.World) (good : C.World → α → Prop) (m : Machine)
    (x y : Eval α) : Prop :=
  y.outcome m = x.outcome m ∧ C.Keeps scripts W good (x.outcome m)

/-- The two steps meet from every machine that keeps the contract, in this world or a later one. -/
def Gives (scripts : List String) (W : C.World) (good : C.World → α → Prop) (x y : Eval α) : Prop :=
  ∀ ⦃W'⦄, W ≤ W' → ∀ ⦃m⦄, C.Ready scripts W' m → C.Meets scripts W' good m x y

/-- Any result will do. -/
def Agrees (scripts : List String) (W : C.World) (x y : Eval α) : Prop :=
  C.Gives scripts W (fun _ _ => True) x y

variable {C} {scripts : List String} {W : C.World} {good : C.World → α → Prop}
  {good' : C.World → β → Prop} {x y : Eval α}

namespace Keeps

variable {o : Except Stop α × Machine}

theorem error {W' : C.World} {e : RuntimeError} {m : Machine} (hW : W ≤ W')
    (hm : C.Ready scripts W' m) : C.Keeps scripts W good (.error (.error e), m) := by
  refine .stop hW (fun hdeep => ?_) hm
  cases hdeep

theorem ready (h : C.Keeps scripts W good o) : ∃ W', W ≤ W' ∧ C.Ready scripts W' o.2 := by
  cases h with
  | value hW _ hm => exact ⟨_, hW, hm⟩
  | stop hW _ hm => exact ⟨_, hW, hm⟩

theorem ne_tooDeep (h : C.Keeps scripts W good o) (hfree : ¬ C.free) :
    o.1 ≠ .error .tooDeep := by
  intro hdeep
  cases h with
  | value => cases hdeep
  | stop _ hstop _ =>
    cases hdeep
    exact hfree (hstop rfl)

theorem earlier {W' : C.World} (h : W ≤ W') (ho : C.Keeps scripts W' good o) :
    C.Keeps scripts W good o := by
  cases ho with
  | value hW ha hm => exact .value (h.trans hW) ha hm
  | stop hW hstop hm => exact .stop (h.trans hW) hstop hm

end Keeps

namespace Gives

theorem bind {f g : α → Eval β} (h : C.Gives scripts W good x y)
    (hfg : ∀ W', W ≤ W' → ∀ a, good W' a → C.Gives scripts W' good' (f a) (g a)) :
    C.Gives scripts W good' (x >>= f) (y >>= g) := by
  intro W₁ h₁ m hm
  obtain ⟨heq, hkeeps⟩ := h h₁ hm
  rw [Meets, Eval.outcome_bind, Eval.outcome_bind, heq]
  generalize x.outcome m = o at hkeeps
  cases hkeeps with
  | value h₂ ha hm' =>
    obtain ⟨heq', hkeeps'⟩ := hfg _ (h₁.trans h₂) _ ha le_rfl hm'
    exact ⟨heq', hkeeps'.earlier h₂⟩
  | stop h₂ hstop hm' => exact ⟨rfl, .stop h₂ hstop hm'⟩

theorem pure {a : α} (h : ∀ W', W ≤ W' → good W' a) :
    C.Gives scripts W good (Pure.pure a) (Pure.pure a) :=
  fun W' hW _ hm => ⟨rfl, .value le_rfl (h W' hW) hm⟩

theorem throw (e : RuntimeError) :
    C.Gives scripts W good (throw (Stop.error e)) (throw (Stop.error e)) :=
  fun _ _ _ hm => ⟨rfl, .error le_rfl hm⟩

theorem tooDeep (h : C.free) : C.Gives scripts W good (MonadExcept.throw Stop.tooDeep)
    (MonadExcept.throw Stop.tooDeep) :=
  fun _ _ _ hm => ⟨rfl, .stop le_rfl (fun _ => h) hm⟩

theorem fail (f : Fault) : C.Gives scripts W good (Eval.fail f) (Eval.fail f) := throw _

theorem fail_bind (f : Fault) (k k' : α → Eval β) :
    C.Gives scripts W good' (Eval.fail f >>= k) (Eval.fail f >>= k') :=
  (fail f : C.Gives scripts W (fun _ _ => False) _ _).bind fun _ _ _ hfalse => hfalse.elim

theorem ofFault {r : Except Fault α} (h : ∀ a, r = .ok a → ∀ W', W ≤ W' → good W' a) :
    C.Gives scripts W good (Eval.ofFault r) (Eval.ofFault r) := by
  cases r with
  | ok a => exact pure (h a rfl)
  | error f => exact fail f

theorem ofError {r : Except RuntimeError α} (h : ∀ a, r = .ok a → ∀ W', W ≤ W' → good W' a) :
    C.Gives scripts W good (Eval.ofError r) (Eval.ofError r) := by
  cases r with
  | ok a => exact pure (h a rfl)
  | error e => exact throw e

theorem get_bind {f g : Machine → Eval β}
    (h : ∀ W', W ≤ W' → ∀ m, C.Ready scripts W' m → C.Gives scripts W' good' (f m) (g m)) :
    C.Gives scripts W good' (do f (← get)) (do g (← get)) :=
  fun W' hW m hm => h W' hW m hm le_rfl hm

end Gives

namespace Agrees

theorem bind {f g : α → Eval β} (h : C.Agrees scripts W x y)
    (hfg : ∀ W', W ≤ W' → ∀ a, C.Gives scripts W' good' (f a) (g a)) :
    C.Gives scripts W good' (x >>= f) (y >>= g) :=
  Gives.bind h fun W' hW a _ => hfg W' hW a

theorem pure (a : α) : C.Agrees scripts W (Pure.pure a) (Pure.pure a) :=
  Gives.pure fun _ _ => trivial

theorem ofFault (r : Except Fault α) : C.Agrees scripts W (Eval.ofFault r) (Eval.ofFault r) :=
  Gives.ofFault fun _ _ _ _ => trivial

theorem modify {f : Machine → Machine}
    (h : ∀ W', W ≤ W' → ∀ m, C.Ready scripts W' m → ∃ W'', W' ≤ W'' ∧ C.Ready scripts W'' (f m)) :
    C.Agrees scripts W (modify f) (modify f) := by
  intro W' hW m hm
  obtain ⟨W'', hW', hm'⟩ := h W' hW m hm
  exact ⟨rfl, .value hW' trivial hm'⟩

theorem moveTo (s : Span) : C.Agrees scripts W (Eval.moveTo s) (Eval.moveTo s) :=
  modify fun W' _ _ hm => ⟨W', le_rfl, hm.holds, hm.importing⟩

theorem report (r : Report) : C.Agrees scripts W (Eval.report r) (Eval.report r) :=
  modify fun W' _ _ hm => ⟨W', le_rfl, hm.holds, hm.importing⟩

theorem warn (text : String) : C.Agrees scripts W (Eval.warn text) (Eval.warn text) :=
  Gives.get_bind fun _ _ _ _ => report _

theorem modifyScopes {change : Scopes → Scopes}
    (h : ∀ W', W ≤ W' → ∀ s r, C.holds W' s r → ∃ W'', W' ≤ W'' ∧ C.holds W'' (change s) r) :
    C.Agrees scripts W (Eval.modifyScopes change) (Eval.modifyScopes change) := by
  refine modify fun W' hW m hm => ?_
  obtain ⟨W'', hW', hholds⟩ := h W' hW _ _ hm.holds
  exact ⟨W'', hW', hholds, hm.importing⟩

end Agrees

namespace Meets

variable {m : Machine}

theorem locating (h : C.Meets scripts W good m x y) :
    C.Meets scripts W good m (Eval.locating x) (Eval.locating y) := by
  obtain ⟨heq, hkeeps⟩ := h
  rw [Meets, Eval.outcome_locating, Eval.outcome_locating, heq]
  refine ⟨rfl, ?_⟩
  generalize x.outcome m = o at hkeeps
  cases hkeeps with
  | value hW ha hm => exact .value hW ha hm
  | @stop _ stop _ hW hstop hm =>
    refine .stop hW (fun hdeep => hstop ?_) hm
    cases stop with
    | error e => cases hdeep
    | tooDeep => rfl

theorem activation {name : String}
    (h : C.Meets scripts W good { m with function := some name } x y) :
    C.Meets scripts W good m (Eval.activation name x) (Eval.activation name y) := by
  obtain ⟨heq, hkeeps⟩ := h.locating
  rw [Meets, Eval.outcome_activation, Eval.outcome_activation, heq]
  refine ⟨rfl, ?_⟩
  generalize (Eval.locating x).outcome _ = o at hkeeps
  cases hkeeps with
  | value hW ha hm => exact .value hW ha ⟨hm.holds, hm.importing⟩
  | stop hW hstop hm => exact .stop hW hstop ⟨hm.holds, hm.importing⟩

end Meets

namespace Gives

theorem locating (h : C.Gives scripts W good x y) :
    C.Gives scripts W good (Eval.locating x) (Eval.locating y) :=
  fun _ hW _ hm => (h hW hm).locating

theorem activation (h : C.Gives scripts W good x y) (name : String) :
    C.Gives scripts W good (Eval.activation name x) (Eval.activation name y) :=
  fun _ hW m hm =>
    Meets.activation (h hW (m := { m with function := some name }) ⟨hm.holds, hm.importing⟩)

theorem importing {path : String} (h : C.Gives (path :: scripts) W good x y) :
    C.Gives scripts W good (Eval.importing path x) (Eval.importing path y) := by
  intro W' hW m hm
  obtain ⟨heq, hkeeps⟩ := h hW
    (m := { m with function := none, importing := path :: m.importing })
    ⟨hm.holds, congrArg (path :: ·) hm.importing⟩
  rw [Meets, Eval.outcome_importing, Eval.outcome_importing, heq]
  refine ⟨rfl, ?_⟩
  generalize x.outcome _ = o at hkeeps
  cases hkeeps with
  | value hW' ha hm' => exact .value hW' ha ⟨hm'.holds, congrArg List.tail hm'.importing⟩
  | stop hW' hstop hm' => exact .stop hW' hstop ⟨hm'.holds, congrArg List.tail hm'.importing⟩

end Gives
end Contract
end ClipScript
