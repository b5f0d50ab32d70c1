/-
Functions belong to the scope they were defined in.

A user function remembers where it was defined, apart from being stored there, and it is called in a
scope inside the one it remembers.  The two always go together: a function that is found from some
scope was defined in that scope or in one of those around it, and the scopes around each other lead
to the global one, whoever called whom.

`nesting` is the contract that says so.  Its worlds list all scopes that were ever made, each with
the scopes around it.  That it holds all the way through is said with an evaluator that looks:
`Evaluator.surveyed` checks it before and after every evaluation of a node, and before every call.
It enters functions without asking whether the place where they were defined is still there, since
some call in progress keeps it (`Interpreter.functions_statically_scoped`).
-/
import ClipScript.Proofs.Contract.Evaluation
import ClipScript.Proofs.Storable

namespace ClipScript

variable {α : Type}

/-! ## Scopes around each other -/

namespace Env

/-- The first of these scopes, inside the others, and so on for the others. -/
def nested : List ScopeId → List Env
  | [] => []
  | id :: rest => ⟨id, rest⟩ :: nested rest

/-- The scope itself and each scope around it. -/
def around (env : Env) : List Env := nested env.chain

theorem map_here_nested (ids : List ScopeId) : (nested ids).map Env.here = ids := by
  induction ids with
  | nil => rfl
  | cons id rest ih => rw [nested, List.map_cons, ih]

theorem self_mem_around (env : Env) : env ∈ env.around := List.mem_cons_self

theorem exists_mem_around {env : Env} {id : ScopeId} (h : id ∈ env.chain) :
    ∃ e ∈ env.around, e.here = id := by
  rw [← map_here_nested env.chain] at h
  exact List.mem_map.mp h

/-- The scopes that are kept while evaluations go on in some scopes: the global one, and all those
around each of them. -/
def kept (active : List Env) : List ScopeId := (global :: active).flatMap chain

end Env

/-- Where a user function was defined. -/
def Function.home? : Function → Option Env
  | .core _ _ => none
  | .user f => some f.home

namespace Scopes

/-- Every user function is stored in the scope where it was defined. -/
def Homed (s : Scopes) : Prop :=
  ∀ id < s.all.size, (s.get id).functions.All fun f => ∀ home ∈ f.home?, home.here = id

/-- The scopes around `env` are there and lead to the global one, and user functions that are stored
in one of them were defined there, inside the others. -/
def Encloses (s : Scopes) (env : Env) : Prop :=
  env.chain.getLast? = some Env.global.here ∧ (∀ id ∈ env.chain, s.contains id) ∧
    ∀ e ∈ env.around, (s.get e.here).functions.All fun f => ∀ home ∈ f.home?, home = e

instance (s : Scopes) : Decidable s.Homed := inferInstanceAs (Decidable (∀ id < _, _))

instance (s : Scopes) (env : Env) : Decidable (s.Encloses env) :=
  inferInstanceAs (Decidable (_ ∧ _ ∧ _))

/-- Whatever is found from a scope was defined there or in a scope around it. -/
theorem home_mem_around {s : Scopes} {env : Env} {name : String} {f : UserFunction}
    (h : s.Encloses env) (hf : s.function? env name = some (.user f)) : f.home ∈ env.around := by
  obtain ⟨id, hid, hfound⟩ := List.exists_of_findSome?_eq_some hf
  obtain ⟨e, he, rfl⟩ := Env.exists_mem_around hid
  rw [h.2.2 e he name _ hfound f.home rfl]
  exact he

theorem functions_get_modify (s : Scopes) (here id : ScopeId) (change : Variables → Variables) :
    ((s.modify here fun scope => { scope with vars := change scope.vars }).get id).functions
      = (s.get id).functions := by
  rw [get_modify]
  split
  · next h => rw [h.1]
  · rfl

theorem functions_get_entered (s : Scopes) (f : UserFunction) (args : ArgList) (id : ScopeId) :
    ((s.entered f args).2.get id).functions = (s.get id).functions := by
  show (((s.addChild f.home).2.modify s.all.size fun scope => { scope with vars := _ }).get
    id).functions = _
  rw [functions_get_modify _ s.all.size id fun _ => _, get_addChild]

end Scopes

/-! ## The scopes that were made -/

/-- A scope that was made, as were all those around it, up to the global one. -/
structure Env.Made (W : List Env) (env : Env) : Prop where
  ends : env.chain.getLast? = some Env.global.here
  known : ∀ e ∈ env.around, W[e.here]? = some e

/-- `W` lists the scopes of a store, each with those around it, and user functions are stored where
they were defined. -/
structure Scopes.Made (W : List Env) (s : Scopes) : Prop where
  size : W.length = s.all.size
  global : W[0]? = some .global
  homes : ∀ id, (s.get id).functions.All fun f => ∀ home ∈ f.home?, home.here = id ∧ home.Made W

variable {W W' : List Env} {s : Scopes} {env : Env}

namespace Env.Made

theorem later (h : env.Made W) (hW : W <+: W') : env.Made W' := by
  obtain ⟨more, rfl⟩ := hW
  refine ⟨h.ends, fun e he => ?_⟩
  rw [List.getElem?_append_left (List.getElem?_eq_some_iff.mp (h.known e he)).1]
  exact h.known e he

theorem global (h : W[0]? = some .global) : Env.global.Made W := by
  refine ⟨rfl, fun e he => ?_⟩
  rw [List.mem_singleton.mp he]
  exact h

theorem child (h : env.Made W) : Env.Made (W ++ [⟨W.length, env.chain⟩]) ⟨W.length, env.chain⟩ := by
  refine ⟨?_, fun e he => ?_⟩
  · show (W.length :: env.chain).getLast? = _
    rw [chain, List.getLast?_cons_cons]
    exact h.ends
  · rcases List.mem_cons.mp he with rfl | he
    · exact List.getElem?_concat_length
    · exact (h.later (List.prefix_append W _)).known e he

end Env.Made

namespace Scopes.Made

theorem homed (h : s.Made W) : s.Homed :=
  fun id _ name f hf home hhome => (h.homes id name f hf home hhome).1

theorem encloses (h : s.Made W) (henv : env.Made W) : s.Encloses env := by
  refine ⟨henv.ends, fun id hid => ?_, fun e he name f hf home hhome => ?_⟩
  · obtain ⟨e, he, rfl⟩ := Env.exists_mem_around hid
    have hlt := (List.getElem?_eq_some_iff.mp (henv.known e he)).1
    rw [h.size] at hlt
    exact decide_eq_true hlt
  · obtain ⟨hhere, hmade⟩ := h.homes e.here name f hf home hhome
    have hknown := hmade.known home home.self_mem_around
    rw [hhere, henv.known e he] at hknown
    exact (Option.some.inj hknown).symm

theorem assign (h : s.Made W) (env : Env) (name : String) (v : Value) :
    (s.assign env name v).Made W := by
  refine ⟨?_, h.global, fun id => ?_⟩
  · rw [Scopes.assign, size_modify]
    exact h.size
  · rw [Scopes.assign, functions_get_modify s env.here id fun vars => vars.assign name v]
    exact h.homes id

theorem define (h : s.Made W) (env : Env) (name : String) {f : Function}
    (hf : ∀ home ∈ f.home?, home.here = env.here ∧ home.Made W) :
    (s.define env name f).Made W := by
  refine ⟨?_, h.global, fun id => ?_⟩
  · rw [Scopes.define, size_modify]
    exact h.size
  · rw [Scopes.define, get_modify]
    split
    · next hid =>
      rw [hid.1]
      exact (h.homes env.here).insert name hf
    · exact h.homes id

theorem entered (h : s.Made W) (f : UserFunction) (args : ArgList) :
    (s.entered f args).2.Made (W ++ [(s.addChild f.home).1]) := by
  have hmore : W <+: W ++ [(s.addChild f.home).1] := List.prefix_append _ _
  refine ⟨?_, ?_, fun id => ?_⟩
  · show _ = ((s.addChild f.home).2.modify s.all.size _).all.size
    rw [size_modify, size_addChild, List.length_append, h.size]
    rfl
  · have hlt := (List.getElem?_eq_some_iff.mp h.global).1
    rw [List.getElem?_append_left hlt]
    exact h.global
  · rw [functions_get_entered]
    exact (h.homes id).imp fun g hg home hhome =>
      ⟨(hg home hhome).1, (hg home hhome).2.later hmore⟩

end Scopes.Made

/-! ## The contract -/

/-- User functions are stored where they were defined, and are called from where they are found. -/
def nesting : Contract where
  World := List Env
  order := {
    le := (· <+: ·)
    le_refl := List.prefix_refl
    le_trans := fun _ _ _ => List.IsPrefix.trans }
  free := True
  holds W s _ := s.Made W
  own W env := env.Made W
  callable W active f := ∀ home ∈ f.home?, home.here ∈ Env.kept active ∧ home.Made W
  own_mono hW h := h.later hW
  own_global h := .global h.global
  callable_mono hW h home hhome := ⟨(h home hhome).1, (h home hhome).2.later hW⟩
  core _ := .inl trivial
  user _ := trivial
  function? {W s r env active name f} h _ hactive hf home hhome := by
    obtain ⟨id, hid, hfound⟩ := List.exists_of_findSome?_eq_some hf
    obtain ⟨rfl, hmade⟩ := h.homes id name f hfound home hhome
    exact ⟨List.mem_flatMap.mpr ⟨env, hactive, hid⟩, hmade⟩
  resolve _ _ _ := nofun
  assign name h _ _ := ⟨_, List.prefix_refl _, h.assign _ name _⟩
  define {W s r f} name _ h hhome := by
    refine ⟨W, List.prefix_refl _, h.define f.home name fun home hf => ?_⟩
    cases hf
    exact ⟨rfl, hhome⟩
  enter {W s r active f} args h hf := by
    have hchild := (hf f.home rfl).2.child
    rw [h.size] at hchild
    exact ⟨W ++ [(s.addChild f.home).1], List.prefix_append _ _, hchild, h.entered f args⟩

theorem hosts_nesting (host : Host) (name : String) : nesting.Hosts host name :=
  fun h _ _ _ => ⟨_, List.prefix_refl _, h⟩

/-! ## Looking all the way through -/

namespace Eval

/-- Raises the alarm unless functions and the scopes around `env` are in order. -/
def survey (alarm : Eval Unit) (env : Env) : Eval Unit := do
  let s := (← get).scopes
  if s.Homed ∧ s.Encloses env then return else alarm

/-- Looks before and after a step, however it ends. -/
def surveying (alarm : Eval Unit) (env : Env) (step : Eval α) : Eval α := do
  survey alarm env
  let result ← attempt step
  survey alarm env
  resume result

theorem outcome_survey (alarm : Eval Unit) {m : Machine} (h : m.scopes.Made W)
    (henv : env.Made W) : (survey alarm env).outcome m = (.ok (), m) := by
  show (if m.scopes.Homed ∧ m.scopes.Encloses env then pure () else alarm : Eval Unit).outcome m = _
  rw [if_pos ⟨h.homed, h.encloses henv⟩]
  rfl

theorem outcome_surveying (alarm : Eval Unit) {m : Machine} {x : Eval α} (hW : W <+: W')
    (henv : env.Made W) (hbefore : m.scopes.Made W) (hafter : (x.outcome m).2.scopes.Made W') :
    (surveying alarm env x).outcome m = x.outcome m := by
  rw [surveying, outcome_bind, outcome_survey alarm hbefore henv]
  dsimp only
  rw [outcome_bind, outcome_attempt]
  dsimp only
  rw [outcome_bind, outcome_survey alarm hafter (henv.later hW)]
  rcases x.outcome m with ⟨_ | a, n⟩ <;> rfl

end Eval

namespace Evaluator

/-- Calls a user function without asking whether the scope where it was defined is there. -/
def enter (parts : Evaluator) (f : UserFunction) (args : ArgList) : Eval Value := do
  let env ← Eval.addScope f.home
  Eval.activation f.name (parts.userBody f args env)

/-- Raises the alarm unless the scope where a function was defined is kept by one of the evaluations
that go on in `active`, and enters it. -/
def enterKept (alarm : Eval Unit) (active : List Env) (parts : Evaluator) (f : UserFunction)
    (args : ArgList) : Eval Value := do
  if f.home.here ∉ Env.kept active then alarm
  parts.enter f args

/-- An evaluator that looks at every evaluation of a node and at every call, for nodes and calls
nested at most `n` deep, while evaluations go on in the scopes `active`. -/
def surveyed (alarm : Eval Unit) (host : Host) : Nat → List Env → Evaluator
  | 0, _ => .inert
  | n + 1, active =>
    { evaluate := fun env tree =>
        Eval.surveying alarm env (node host (surveyed alarm host n (env :: active)) env tree)
      invoke := fun f args =>
        match f with
        | .core name native => (surveyed alarm host n active).callNative name native args
        | .user f => enterKept alarm active (surveyed alarm host n active) f args }

theorem outcome_enterKept (alarm : Eval Unit) {active : List Env} (parts : Evaluator)
    {f : UserFunction} (args : ArgList) {m : Machine} (hkept : f.home.here ∈ Env.kept active)
    (hused : m.scopes.contains f.home.here) :
    (enterKept alarm active parts f args).outcome m = (parts.callUser f args).outcome m := by
  rw [enterKept, if_neg fun hout => hout hkept, outcome_callUser, if_pos hused]
  rfl

end Evaluator

theorem agrees_surveying {scripts : List String} {W : nesting.World} {x y : Eval α}
    (h : nesting.Agrees scripts W x y) (alarm : Eval Unit) (henv : nesting.own W env) :
    nesting.Agrees scripts W x (Eval.surveying alarm env y) := by
  intro W₁ h₁ m hm
  obtain ⟨heq, hkeeps⟩ := h h₁ hm
  obtain ⟨W₂, h₂, hm'⟩ := hkeeps.ready
  have hafter : (y.outcome m).2.scopes.Made W₂ := by
    rw [heq]
    exact hm'.holds
  refine ⟨?_, hkeeps⟩
  rw [Eval.outcome_surveying alarm h₂ (henv.later h₁) hm.holds hafter, heq]

theorem agrees_enterKept {scripts : List String} {W : nesting.World} {active : List Env}
    {P Q : Evaluator} {f : UserFunction} {args : ArgList}
    (h : nesting.Agrees scripts W (P.callUser f args) (Q.callUser f args)) (alarm : Eval Unit)
    (hf : nesting.callable W active (.user f)) :
    nesting.Agrees scripts W (P.callUser f args) (Q.enterKept alarm active f args) := by
  intro W₁ h₁ m hm
  obtain ⟨heq, hkeeps⟩ := h h₁ hm
  obtain ⟨hkept, hmade⟩ := hf f.home rfl
  have hused : m.scopes.contains f.home.here :=
    (hm.holds.encloses (hmade.later h₁)).2.1 _ List.mem_cons_self
  refine ⟨?_, hkeeps⟩
  rw [Evaluator.outcome_enterKept alarm Q args hkept hused, heq]

theorem parts_surveyed (alarm : Eval Unit) (host : Host) (depth : Nat) (active : List Env)
    (scripts : List String) :
    nesting.Parts active scripts (fun _ => True) (.ofDepth host depth)
      (.surveyed alarm host depth active) := by
  induction depth generalizing active scripts with
  | zero => exact .inert trivial
  | succ depth ih =>
    refine ⟨fun {W env n} henv _ => ?_, fun {W f} hf args => ?_⟩
    · have hnode : nesting.Agrees scripts W ((Evaluator.ofDepth host depth).node host env n)
          ((Evaluator.surveyed alarm host depth (env :: active)).node host env n) :=
        Contract.Parts.node_of_free trivial (fun name _ => hosts_nesting host name)
          (fun scripts => ih (env :: active) scripts) henv List.mem_cons_self
      exact agrees_surveying hnode alarm henv
    · have hcall := Contract.Parts.call (fun _ => ih active scripts) hf args
      cases f with
      | core name native => exact hcall
      | user f => exact agrees_enterKept hcall alarm hf

/-! ## Runs -/

namespace Interpreter

/-- An interpreter between two runs. -/
structure Nests (host : Host) (depth : Nat) (i : Interpreter) : Prop where
  host : i.host = host
  depth : i.depth = depth
  made : ∃ W, i.machine.scopes.Made W

variable {host : Host} {depth : Nat} {i : Interpreter}

theorem nests_fresh (host : Host) (depth : Nat) (natives : List (String × Native)) :
    (fresh host depth natives).Nests host depth := by
  have hstart : Scopes.start.Made [.global] := by
    refine ⟨rfl, rfl, fun id name f hf => ?_⟩
    have hnone : Scopes.start.All fun _ => False := .start
    exact (hnone id name f hf).elim
  have hinitial : Scopes.initial.Made [.global] :=
    List.foldlRecOn Builtins.all _ hstart fun s hs entry _ =>
      hs.define .global entry.1 (f := .core entry.1 entry.2) nofun
  have hbegin : ({ host, depth } : Interpreter).Nests host depth := ⟨rfl, rfl, _, hinitial⟩
  refine List.foldlRecOn natives _ hbegin fun i hi entry _ => ⟨hi.host, hi.depth, ?_⟩
  obtain ⟨W, hmade⟩ := hi.made
  exact ⟨W, hmade.define .global entry.1 (f := .core entry.1 entry.2) nofun⟩

/-- However it is looked at, a run is the same, and functions are in order afterwards. -/
theorem Nests.runSource (h : i.Nests host depth) (alarm : Eval Unit) (source : String) :
    i.perform ((Evaluator.surveyed alarm host depth []).runSource source) = i.runSource source ∧
      (i.runSource source).2.Nests host depth := by
  obtain ⟨rfl, rfl, W, hmade⟩ := h
  have hrun :=
    (parts_surveyed alarm i.host i.depth [] i.machine.importing).runSource (W := W) source
  obtain ⟨heq, hkeeps⟩ := hrun le_rfl (m := i.machine) ⟨hmade, rfl⟩
  obtain ⟨W', -, hready⟩ := hkeeps.ready
  refine ⟨?_, rfl, rfl, W', hready.holds⟩
  show (((Evaluator.surveyed alarm i.host i.depth []).runSource source).outcome i.machine).map id
    (fun machine => { i with machine })
    = ((i.evaluator.runSource source).outcome i.machine).map id fun machine => { i with machine }
  rw [heq]
  rfl

theorem Nests.runSources (h : i.Nests host depth) (sources : List String) :
    (i.runSources sources).Nests host depth := by
  induction sources generalizing i with
  | nil => exact h
  | cons source rest ih => exact ih (h.runSource (pure ()) source).2

/-- After any scripts, failed or not, every user function is stored in the scope where it was
defined.  During the next one, too: whoever looks, before and after each evaluation of a node, finds
functions in order and the scopes around the evaluation leading to the global one.  Every user
function that is called was defined in a scope that an evaluation in progress keeps, so nobody ever
raises an alarm, and nothing is lost by not asking whether that scope is there.  What is found from
a scope that is in order was defined in it or around it. -/
theorem functions_statically_scoped (host : Host) (depth : Nat) (natives : List (String × Native))
    (sources : List String) :
    let i := (fresh host depth natives).runSources sources
    i.machine.scopes.Homed ∧ i.machine.scopes.Encloses .global ∧
    (∀ alarm source,
      i.perform ((Evaluator.surveyed alarm host depth []).runSource source) = i.runSource source) ∧
    ∀ (s : Scopes) env name f, s.Encloses env → s.function? env name = some (.user f) →
      f.home ∈ env.around := by
  intro i
  have hnests : i.Nests host depth := (nests_fresh host depth natives).runSources sources
  obtain ⟨W, hmade⟩ := hnests.made
  exact ⟨hmade.homed, hmade.encloses (.global hmade.global),
    fun alarm source => (hnests.runSource alarm source).1,
    fun s env name f => Scopes.home_mem_around⟩

/-- A script that calls a function inside another, and then fails. -/
def nestedScript : String :=
  "function f() \x7b function g() \x7b return \"in\"; \x7d return g(); \x7d x = f(); y;"

theorem functions_statically_scoped_nestedScript :
    let host : Host := { pluginDir := "", scriptExtension := "" }
    let i := (fresh host 20 []).runSources [nestedScript]
    i.global? "x" = some (.string "in") ∧ i.machine.scopes.all.size = 3 ∧
    (i.machine.scopes.function? .global "f").bind Function.home? = some .global ∧
    i.machine.scopes.Homed ∧ i.machine.scopes.Encloses .global ∧
    (∀ alarm source,
      i.perform ((Evaluator.surveyed alarm host 20 []).runSource source) = i.runSource source) ∧
    ∀ (s : Scopes) env name f, s.Encloses env → s.function? env name = some (.user f) →
      f.home ∈ env.around := by
  have hread : (((fresh { pluginDir := "", scriptExtension := "" } 20 []).runSources
      [nestedScript]).global? "x").bind Value.string? = some "in" := by decide +kernel
  obtain ⟨v, hfound, hv⟩ := Option.bind_eq_some_iff.mp hread
  obtain rfl := Value.string?_eq_some_iff.mp hv
  exact ⟨hfound, by decide +kernel, by decide +kernel,
    functions_statically_scoped _ 20 [] [nestedScript]⟩

end Interpreter
end ClipScript
