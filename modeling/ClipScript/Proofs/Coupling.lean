/-
Two runs side by side.

A `Coupling` says which trees, functions and stores of scopes may take each other's place in two
runs, and what that asks of the store.  `Coupling.Simulates` then compares two steps of evaluation:
whenever the first comes to an end, the second ends alike, from and in machines that are coupled.
Steps that run out of depth are not compared, so the comparison goes one way; the other way is the
comparison for `Coupling.symm`.

This module has the relations and the rules for putting steps together.  What one level of the
evaluator does under a coupling is in `ClipScript.Proofs.Coupling.Evaluation`.
-/
import ClipScript.Evaluator
import ClipScript.Proofs.Natives
import ClipScript.Proofs.Node.Unplaced
import Mathlib.Data.List.Forall2

namespace ClipScript

variable {α β γ δ : Type}

/-- How a step ends, and the machine it leaves. -/
def Eval.outcome (step : Eval α) (m : Machine) : Except Stop α × Machine := step.run.run m

namespace Eval

theorem outcome_bind (x : Eval α) (f : α → Eval β) (m : Machine) :
    (x >>= f).outcome m = match x.outcome m with
      | (.ok a, n) => (f a).outcome n
      | (.error stop, n) => (.error stop, n) := by
  show (match x.outcome m with | (r, n) => (ExceptT.bindCont f r : StateM Machine _).run n) = _
  rcases x.outcome m with ⟨_ | a, n⟩ <;> rfl

theorem outcome_bind_of_ok {x : Eval α} {m m' : Machine} {a : α} (h : x.outcome m = (.ok a, m'))
    (f : α → Eval β) : (x >>= f).outcome m = (f a).outcome m' := by
  rw [outcome_bind, h]

theorem outcome_bind_of_error {x : Eval α} {m m' : Machine} {stop : Stop}
    (h : x.outcome m = (.error stop, m')) (f : α → Eval β) :
    (x >>= f).outcome m = (.error stop, m') := by
  rw [outcome_bind, h]

theorem exists_of_outcome_bind {x : Eval α} {f : α → Eval β} {m m' : Machine} {b : β}
    (h : (x >>= f).outcome m = (.ok b, m')) :
    ∃ a n, x.outcome m = (.ok a, n) ∧ (f a).outcome n = (.ok b, m') := by
  rw [outcome_bind] at h
  generalize x.outcome m = o at h ⊢
  obtain ⟨r, n⟩ := o
  cases r with
  | error stop => cases h
  | ok a => exact ⟨a, n, rfl, h⟩

theorem outcome_attempt (x : Eval α) (m : Machine) :
    (attempt x).outcome m = (.ok (x.outcome m).1, (x.outcome m).2) := rfl

theorem outcome_locating (x : Eval α) (m : Machine) :
    (locating x).outcome m = match x.outcome m with
      | (.ok a, n) => (.ok a, n)
      | (.error stop, n) => (.error (stop.located n.span n.function), n) := by
  rw [locating, outcome_bind, outcome_attempt]
  rcases x.outcome m with ⟨_ | a, n⟩ <;> rfl

theorem outcome_activation (name : String) (x : Eval α) (m : Machine) :
    (activation name x).outcome m
      = (((locating x).outcome { m with function := some name }).1,
          { ((locating x).outcome { m with function := some name }).2 with
            function := m.function, span := m.span }) := by
  show (resume ((locating x).outcome { m with function := some name }).1).outcome
    { ((locating x).outcome { m with function := some name }).2 with
      function := m.function, span := m.span } = _
  rcases (locating x).outcome { m with function := some name } with ⟨_ | a, n⟩ <;> rfl

theorem outcome_importing (path : String) (x : Eval α) (m : Machine) :
    (importing path x).outcome m
      = ((x.outcome { m with function := none, importing := path :: m.importing }).1,
          let n := (x.outcome { m with function := none, importing := path :: m.importing }).2
          { n with function := m.function, span := m.span, importing := n.importing.tail }) := by
  show (let o := x.outcome { m with function := none, importing := path :: m.importing }
    (resume o.1).outcome
      { o.2 with function := m.function, span := m.span, importing := o.2.importing.tail }) = _
  rcases x.outcome { m with function := none, importing := path :: m.importing } with ⟨_ | a, n⟩
    <;> rfl

end Eval

/-! ## Things that take each other's place

In all of these `exact` says whether places have to be the same. -/

def Report.Alike (exact : Prop) : Report → Report → Prop
  | .message text, .message text' => text = text'
  | .warning line function text, .warning line' function' text' =>
    (exact → line = line') ∧ function = function' ∧ text = text'
  | _, _ => False

def Origin.Alike (exact : Prop) (o o' : Origin) : Prop :=
  (exact → o.span = o'.span) ∧ o.function = o'.function

def RuntimeError.Alike (exact : Prop) (e e' : RuntimeError) : Prop :=
  e.fault = e'.fault ∧ Option.Rel (Origin.Alike exact) e.origin e'.origin

/-- Parameters are compared without their places, unless places have to be the same. -/
def Param.Alike (exact : Prop) (params params' : List Param) : Prop :=
  params.map Param.unplaced = params'.map Param.unplaced ∧ (exact → params = params')

/-- Native functions are themselves on both sides, and bodies of user functions are trees that take
each other's place. -/
inductive Function.Alike (exact scripts : Prop) (node : Node → Node → Prop) :
    Function → Function → Prop where
  | core {name : String} {native : Native} : native.Within exact scripts →
      Alike exact scripts node (.core name native) (.core name native)
  | user {f g : UserFunction} : f.name = g.name →
      Param.Alike exact f.params g.params → f.home = g.home → node f.body g.body →
      Alike exact scripts node (.user f) (.user g)

/-- The same fault, or results that take each other's place. -/
inductive SameFault (related : α → β → Prop) : Except Fault α → Except Fault β → Prop where
  | ok {a : α} {b : β} : related a b → SameFault related (.ok a) (.ok b)
  | error (f : Fault) : SameFault related (.error f) (.error f)

theorem SameFault.refl {related : α → α → Prop} (h : ∀ a, related a a) (r : Except Fault α) :
    SameFault related r r := by
  cases r with
  | ok a => exact .ok (h a)
  | error f => exact .error f

theorem Function.Within.alike {line script : Prop} {f : Function} (h : f.Within line script)
    {node : Node → Node → Prop} (hnode : ∀ n, node n n) : f.Alike line script node f := by
  cases f with
  | core name native => exact .core h
  | user f => exact .user rfl ⟨rfl, fun _ => rfl⟩ rfl (hnode f.body)

theorem Machine.Within.functions_alike {line script : Prop} {m : Machine}
    (h : m.Within line script) {node : Node → Node → Prop} (hnode : ∀ n, node n n) (id : ScopeId)
    (name : String) :
    Option.Rel (Function.Alike line script node) ((m.scopes.get id).functions.find? name)
      ((m.scopes.get id).functions.find? name) := by
  cases hf : (m.scopes.get id).functions.find? name with
  | none => exact .none
  | some f => exact .some ((h.scopes id name f hf).alike hnode)

theorem Report.alike_self (exact : Prop) (r : Report) : r.Alike exact r := by
  cases r with
  | message text => rfl
  | warning line function text => exact ⟨fun _ => rfl, rfl, rfl⟩

theorem Report.forall₂_alike_self (exact : Prop) (reports : List Report) :
    List.Forall₂ (Report.Alike exact) reports reports :=
  List.forall₂_same.mpr fun r _ => r.alike_self exact

theorem RuntimeError.Alike.refl (exact : Prop) (e : RuntimeError) : e.Alike exact e := by
  refine ⟨rfl, ?_⟩
  cases e.origin with
  | none => exact .none
  | some o => exact .some ⟨fun _ => rfl, rfl⟩

/-- Attribution keeps errors alike: both have an origin already, or both get one. -/
theorem RuntimeError.Alike.located {exact : Prop} {e e' : RuntimeError} (h : e.Alike exact e')
    {s s' : Span} (hs : exact → s = s') (function : Option String) :
    (e.located s function).Alike exact (e'.located s' function) := by
  obtain ⟨fault, origin⟩ := e
  obtain ⟨fault', origin'⟩ := e'
  obtain ⟨hfault, horigin⟩ := h
  refine ⟨hfault, ?_⟩
  cases horigin with
  | none => exact .some ⟨hs, rfl⟩
  | some ho => exact .some ho

/-- What may take each other's place in two runs.  The laws say what a store of scopes has to
offer: both answer every question of a run alike, and stay coupled under every change a run
makes. -/
structure Coupling where
  /-- Whether places have to be the same. -/
  exact : Prop
  /-- Whether scripts may be run, by an import or by a native function. -/
  scripts : Prop
  node : Node → Node → Prop
  /-- The scopes in which something may be evaluated. -/
  own : Env → Prop
  scopes : Scopes → Scopes → Prop
  node_refl : ∀ n, node n n
  own_global : scripts → own .global
  contains : ∀ {s t id}, scopes s t → s.contains id = t.contains id
  function? : ∀ {s t}, scopes s t → ∀ env name,
    Option.Rel (Function.Alike exact scripts node) (s.function? env name) (t.function? env name)
  vars : ∀ {s t env}, own env → scopes s t → (s.get env.here).vars = (t.get env.here).vars
  changeVars : ∀ {s t env} (change : Variables → Variables), own env → scopes s t →
    scopes (s.modify env.here fun scope => { scope with vars := change scope.vars })
      (t.modify env.here fun scope => { scope with vars := change scope.vars })
  define : ∀ {s t env f g} (name : String), own env → Function.Alike exact scripts node f g →
    scopes s t → scopes (s.define env name f) (t.define env name g)
  addChild : ∀ {s t} (env : Env), scopes s t → (s.addChild env).1 = (t.addChild env).1 ∧
    own (s.addChild env).1 ∧ scopes (s.addChild env).2 (t.addChild env).2

namespace Coupling

variable (C : Coupling)

def function : Function → Function → Prop := Function.Alike C.exact C.scripts C.node

structure Machines (m n : Machine) : Prop where
  scopes : C.scopes m.scopes n.scopes
  span : C.exact → m.span = n.span
  function : m.function = n.function
  importing : m.importing = n.importing
  plugins : m.plugins = n.plugins
  natives : m.plugins.Within C.exact C.scripts
  reports : List.Forall₂ (Report.Alike C.exact) m.reports.toList n.reports.toList

/-- The second outcome follows the first: it is alike, or the first run gave up. -/
inductive Follows (related : α → β → Prop) :
    Except Stop α × Machine → Except Stop β × Machine → Prop where
  | gaveUp {m : Machine} {o : Except Stop β × Machine} : Follows related (.error .tooDeep, m) o
  | value {a : α} {b : β} {m n : Machine} : related a b → C.Machines m n →
      Follows related (.ok a, m) (.ok b, n)
  | error {e e' : RuntimeError} {m n : Machine} : e.Alike C.exact e' → C.Machines m n →
      Follows related (.error (.error e), m) (.error (.error e'), n)

/-- Whenever the first step comes to an end, the second does, and alike. -/
def Simulates (related : α → β → Prop) (x : Eval α) (y : Eval β) : Prop :=
  ∀ ⦃m n⦄, C.Machines m n → C.Follows related (x.outcome m) (y.outcome n)

def Agrees (x y : Eval α) : Prop := C.Simulates Eq x y

variable {C} {related : α → β → Prop} {related' : γ → δ → Prop}

namespace Simulates

theorem bind {x : Eval α} {y : Eval β} {f : α → Eval γ} {g : β → Eval δ}
    (h : C.Simulates related x y)
    (hfg : ∀ a b, related a b → C.Simulates related' (f a) (g b)) :
    C.Simulates related' (x >>= f) (y >>= g) := by
  intro m n hmn
  rw [Eval.outcome_bind, Eval.outcome_bind]
  have hxy := h hmn
  generalize x.outcome m = o at hxy ⊢
  generalize y.outcome n = o' at hxy ⊢
  cases hxy with
  | gaveUp => exact .gaveUp
  | value hab hmn' => exact hfg _ _ hab hmn'
  | error he hmn' => exact .error he hmn'

theorem pure {a : α} {b : β} (h : related a b) :
    C.Simulates related (Pure.pure a : Eval α) (Pure.pure b : Eval β) :=
  fun _ _ hmn => .value h hmn

theorem fail (f : Fault) : C.Simulates related (Eval.fail f) (Eval.fail f) :=
  fun _ _ hmn => .error (.refl _ _) hmn

theorem fail_bind (f : Fault) (k : α → Eval γ) (k' : β → Eval δ) :
    C.Simulates related' (Eval.fail f >>= k) (Eval.fail f >>= k') :=
  fun _ _ hmn => .error (.refl _ _) hmn

theorem throw {e e' : RuntimeError} (h : e.Alike C.exact e') :
    C.Simulates related (MonadExcept.throw (Stop.error e)) (MonadExcept.throw (Stop.error e')) :=
  fun _ _ hmn => .error h hmn

theorem gaveUp (y : Eval β) :
    C.Simulates related (MonadExcept.throw Stop.tooDeep : Eval α) y :=
  fun _ _ _ => .gaveUp

theorem get : C.Simulates C.Machines get get := fun _ _ hmn => .value hmn hmn

theorem set {m n : Machine} (h : C.Machines m n) : C.Agrees (set m) (set n) :=
  fun _ _ _ => .value rfl h

theorem modify {f g : Machine → Machine} (h : ∀ m n, C.Machines m n → C.Machines (f m) (g n)) :
    C.Agrees (modify f) (modify g) :=
  fun m n hmn => .value rfl (h m n hmn)

theorem ofFault {r : Except Fault α} {r' : Except Fault β} (h : SameFault related r r') :
    C.Simulates related (Eval.ofFault r) (Eval.ofFault r') := by
  cases h with
  | ok hab => exact pure hab
  | error f => exact fail f

theorem get_bind {f : Machine → Eval γ} {g : Machine → Eval δ}
    (h : ∀ m n, C.Machines m n → C.Simulates related' (f m) (g n)) :
    C.Simulates related' (do f (← MonadState.get)) (do g (← MonadState.get)) :=
  bind get h

end Simulates
end Coupling
end ClipScript
