/-
The place that is recorded when a node fails.

A machine records one place, the place of the node that was reached last.  Evaluating a node moves
it there and then to the parts of the node, and a call puts back the place it was made from.  So
however the evaluation of a node ends, the place is that of the node or of a tree within it
(`Evaluator.exists_place`).

An error of a node whose operands have been evaluated is located at the node only if that moves back
to its own place first.  Binary and unary operators do.  Assignments, calls, ternaries and
conditions do not, and their errors are located at the place that the operands left
(`Evaluator.error_recorded`).
-/
import ClipScript.Proofs.Bookkeeping
import ClipScript.Proofs.Inertness
import ClipScript.Proofs.Node.Standing

namespace ClipScript

variable {α β : Type}

/-! ## Steps that stay at certain places -/

/-- However the step ends, it is at one of the places if it started from one. -/
def Eval.StaysIn (places : Span → Prop) (x : Eval α) : Prop :=
  ∀ m, places m.span → places (x.outcome m).2.span

variable {places : Span → Prop}

namespace Eval.StaysIn

theorem of_keepsPlace {x : Eval α} (h : x.KeepsPlace) : x.StaysIn places := by
  intro m hm
  rw [h m]
  exact hm

theorem bind {x : Eval α} {f : α → Eval β} (h : x.StaysIn places)
    (hf : ∀ a, (f a).StaysIn places) : (x >>= f).StaysIn places := by
  intro m hm
  have hx := h m hm
  rw [Eval.outcome_bind]
  generalize x.outcome m = o at hx ⊢
  obtain ⟨r, n⟩ := o
  cases r with
  | ok a => exact hf a n hx
  | error stop => exact hx

theorem moveTo {s : Span} (hs : places s) {x : Eval α} (h : x.StaysIn places) :
    (do Eval.moveTo s; x).StaysIn places :=
  fun m _ => h { m with span := s } hs

theorem ofFault_bind {r : Except Fault α} {f : α → Eval β}
    (h : ∀ a, r = .ok a → (f a).StaysIn places) : (Eval.ofFault r >>= f).StaysIn places := by
  cases r with
  | error fault => exact of_keepsPlace fun _ => rfl
  | ok a => exact h a rfl

theorem get_bind {f : Machine → Eval α} (h : ∀ m, (f m).StaysIn places) :
    ((get : Eval Machine) >>= f).StaysIn places :=
  fun m hm => h m m hm

end Eval.StaysIn

namespace Evaluator

/-- Evaluating a tree ends at one of the places if the tree stands there, and calls put the place
back. -/
structure Stays (places : Span → Prop) (parts : Evaluator) : Prop where
  evaluate : ∀ env {n : Node}, n.StandsIn places → (parts.evaluate env n).StaysIn places
  invoke : ∀ f args, (parts.invoke f args).KeepsPlace

open Eval (StaysIn KeepsPlace)

/-! ## Evaluation stays within a tree -/

theorem keepsPlace_pure (a : α) : (pure a : Eval α).KeepsPlace := fun _ => rfl

theorem keepsPlace_fail (f : Fault) : (Eval.fail f : Eval α).KeepsPlace := fun _ => rfl

theorem keepsPlace_functionNamed (env : Env) (name : String) :
    (functionNamed env name).KeepsPlace := by
  refine KeepsPlace.bind (fun _ => rfl) fun m => ?_
  dsimp only
  split
  · exact keepsPlace_pure _
  · split <;> exact keepsPlace_fail _

theorem keepsPlace_define (env : Env) (name : String) (params : List Param) (body : Node) :
    (define env name params body).KeepsPlace := by
  refine (KeepsPlace.ofFault _).bind fun _ => KeepsPlace.bind (fun _ => rfl) fun m => ?_
  dsimp only
  split
  · exact KeepsPlace.bind (fun _ => rfl) fun _ _ => rfl
  · exact fun _ => rfl

theorem keepsPlace_store (env : Env) (name : String) (v : Value) :
    (store env name v).KeepsPlace := by
  intro m
  unfold store
  split <;> rfl

namespace Stays

variable {parts : Evaluator} {env : Env}

theorem valueOf (h : Stays places parts) {n : Node} (hn : n.StandsIn places) :
    (parts.valueOf env n).StaysIn places :=
  (h.evaluate env hn).bind fun _ => .of_keepsPlace (keepsPlace_pure _)

theorem arguments (h : Stays places parts) {args : List (Labelled Node)}
    (hargs : ∀ n ∈ args.map (·.content), n.StandsIn places) (acc : ArgList) :
    (parts.arguments env args acc).StaysIn places := by
  induction args generalizing acc with
  | nil => exact .of_keepsPlace (keepsPlace_pure acc)
  | cons a rest ih =>
    rw [List.map_cons, List.forall_mem_cons] at hargs
    refine (h.valueOf hargs.1).bind fun v => ?_
    exact StaysIn.ofFault_bind fun acc _ => ih hargs.2 acc

theorem callTo (h : Stays places parts) (callee : Callee) {args : List (Labelled Node)}
    (hargs : ∀ n ∈ args.map (·.content), n.StandsIn places) :
    (parts.callTo env callee args).StaysIn places := by
  refine (h.arguments hargs .empty).bind fun args => ?_
  cases callee with
  | named name =>
    refine (StaysIn.of_keepsPlace (keepsPlace_functionNamed env name)).bind fun f => ?_
    exact .of_keepsPlace (h.invoke f args)
  | plugin owner function =>
    refine StaysIn.get_bind fun m => StaysIn.ofFault_bind fun native _ => ?_
    exact .of_keepsPlace (h.invoke _ args)

theorem lookup (h : Stays places parts) (name : String) :
    (parts.lookup env name).StaysIn places := by
  refine StaysIn.get_bind fun m => ?_
  dsimp only
  split
  · exact .of_keepsPlace (keepsPlace_pure _)
  · split
    · exact .of_keepsPlace (h.invoke _ .empty)
    · exact .of_keepsPlace (keepsPlace_fail _)

theorem assign (h : Stays places parts) {target value : Node} (op : AssignOp)
    (htarget : target.StandsIn places) (hvalue : value.StandsIn places) :
    (parts.assign env target op value).StaysIn places := by
  unfold Evaluator.assign
  split
  · exact .of_keepsPlace (keepsPlace_fail _)
  · next name _ =>
    have hstore : ∀ v, (do store env name v; return v : Eval Value).StaysIn places := fun v =>
      (StaysIn.of_keepsPlace (keepsPlace_store env name v)).bind fun _ =>
        .of_keepsPlace (keepsPlace_pure v)
    cases op with
    | assign => exact (h.valueOf hvalue).bind hstore
    | update op =>
      refine (h.valueOf htarget).bind fun current => (h.valueOf hvalue).bind fun operand => ?_
      exact StaysIn.ofFault_bind fun v _ => hstore v
    | chain =>
      have hspan : places value.span := (Node.standsIn_iff.mp hvalue).1
      refine StaysIn.ofFault_bind fun call hcall => ?_
      exact (h.valueOf (htarget.unchainAs hspan hvalue hcall)).bind hstore

theorem setDefault (h : Stays places parts) (name : String) {value : Node}
    (hvalue : value.StandsIn places) : (parts.setDefault env name value).StaysIn places := by
  unfold Evaluator.setDefault
  dsimp only
  split
  · exact .of_keepsPlace fun _ => rfl
  · refine StaysIn.get_bind fun m => ?_
    split
    · exact (h.valueOf hvalue).bind fun v => .of_keepsPlace (keepsPlace_store env name v)
    · exact .of_keepsPlace (keepsPlace_pure ())
    · exact .of_keepsPlace (keepsPlace_fail _)
    · exact .of_keepsPlace (keepsPlace_fail _)

theorem sequence (h : Stays places parts) {body : List Node}
    (hbody : ∀ n ∈ body, n.StandsIn places) (last : Value) :
    (parts.sequence env body last).StaysIn places := by
  induction body generalizing last with
  | nil => exact .of_keepsPlace (keepsPlace_pure _)
  | cons n rest ih =>
    rw [List.forall_mem_cons] at hbody
    refine (h.evaluate env hbody.1).bind fun flow => ?_
    cases flow with
    | proceed v => exact ih hbody.2 v
    | leave v => exact .of_keepsPlace (keepsPlace_pure _)

theorem node (h : Stays places parts) (host : Host) {n : Node} (hn : n.StandsIn places) :
    (Evaluator.node host parts env n).StaysIn places := by
  obtain ⟨hs, hparts⟩ := Node.standsIn_iff.mp hn
  have hflow : ∀ {x : Eval Value} (flow : Value → Flow), x.StaysIn places →
      (do return flow (← x)).StaysIn places :=
    fun flow hx => hx.bind fun v => .of_keepsPlace (keepsPlace_pure (flow v))
  have hdone : (return Flow.proceed .void : Eval Flow).StaysIn places :=
    .of_keepsPlace (keepsPlace_pure _)
  refine .moveTo hs ?_
  cases n with
  | leaf s v =>
    cases v with
    | identifier name => exact hflow .proceed (h.lookup name)
    | _ => exact .of_keepsPlace (keepsPlace_pure _)
  | sequence s body => exact h.sequence hparts .void
  | assign s target op value =>
    exact hflow .proceed (h.assign op (hparts target (by simp [Node.parts]))
      (hparts value (by simp [Node.parts])))
  | binary s op lhs rhs =>
    refine (h.valueOf (hparts lhs (by simp [Node.parts]))).bind fun a => ?_
    refine (h.valueOf (hparts rhs (by simp [Node.parts]))).bind fun b => ?_
    exact .moveTo hs (hflow .proceed (.of_keepsPlace (.ofFault _)))
  | unary s op operand =>
    refine (h.valueOf (hparts operand (by simp [Node.parts]))).bind fun v => ?_
    exact .moveTo hs (hflow .proceed (.of_keepsPlace (.ofFault _)))
  | ternary s condition yes no =>
    refine (h.valueOf (hparts condition (by simp [Node.parts]))).bind fun v => ?_
    split
    · exact hflow .proceed (h.valueOf (hparts yes (by simp [Node.parts])))
    · exact hflow .proceed (h.valueOf (hparts no (by simp [Node.parts])))
    · exact .of_keepsPlace (keepsPlace_fail _)
  | ifElse s condition yes no =>
    refine (h.valueOf (hparts condition (by simp [Node.parts]))).bind fun v => ?_
    split
    · exact h.evaluate env (hparts yes (by simp [Node.parts]))
    · cases no with
      | none => exact hdone
      | some no => exact h.evaluate env (hparts no (by simp [Node.parts]))
    · exact .of_keepsPlace (keepsPlace_fail _)
  | call s callee args => exact hflow .proceed (h.callTo callee hparts)
  | chain s value link =>
    have hvalue : value.StandsIn places := hparts value (by simp [Node.parts])
    have hlink : link.StandsIn places := hparts link (by simp [Node.parts])
    have hvalued : (do
        let call ← Eval.ofFault (Node.unchainAs s value link)
        parts.evaluate env call).StaysIn places :=
      .ofFault_bind fun call hcall => h.evaluate env (hvalue.unchainAs hs hlink hcall)
    dsimp only
    split
    · next name _ =>
      have hnames : (namesPlugin env name).KeepsPlace := fun _ => rfl
      refine (StaysIn.of_keepsPlace hnames).bind fun plugin => ?_
      split
      · exact .ofFault_bind fun call hcall => h.evaluate env (hlink.pluginCall hs hcall)
      · exact hvalued
    · exact hvalued
  | functionDef s name params body =>
    exact (StaysIn.of_keepsPlace (keepsPlace_define env name params body)).bind fun _ => hdone
  | defaultValue s name value =>
    exact (h.setDefault name (hparts value (by simp [Node.parts]))).bind fun _ => hdone
  | returnValue s value =>
    cases value with
    | none => exact .of_keepsPlace (keepsPlace_pure _)
    | some value => exact hflow .leave (h.valueOf (hparts value (by simp [Node.parts])))
  | importName s name =>
    exact (StaysIn.of_keepsPlace (keepsPlace_importNamed host parts name)).bind fun _ => hdone

end Stays

theorem stays_ofDepth (places : Span → Prop) (host : Host) (d : Nat) :
    Stays places (ofDepth host d) := by
  induction d with
  | zero => exact ⟨fun _ _ _ => .of_keepsPlace fun _ => rfl, keepsPlace_invoke host 0⟩
  | succ d ih => exact ⟨fun _ _ => ih.node host, keepsPlace_invoke host (d + 1)⟩

/-- However the evaluation of a tree ends, the place is that of the tree or of one within it. -/
theorem exists_place (host : Host) (d : Nat) (env : Env) (n : Node) (m : Machine) :
    ∃ u ∈ n.subtrees, ((node host (ofDepth host d) env n).outcome m).2.span = u.span := by
  let places (s : Span) : Prop := ∃ u ∈ n.subtrees, s = u.span
  have hn : n.StandsIn places := fun u hu => ⟨u, hu, rfl⟩
  have hstart : places n.span := ⟨n, n.self_mem_subtrees, rfl⟩
  exact (stays_ofDepth places host d).node host hn { m with span := n.span } hstart

end Evaluator

/-! ## Nodes that fail by themselves -/

/-- Operators, which move back to their own place before they are applied. -/
def Node.isOperator : Node → Bool
  | binary _ _ _ _ | unary _ _ _ => true
  | _ => false

/-- What is said of a name that is called and has no function. -/
def Machine.calleeFault (m : Machine) (env : Env) (name : String) : Fault :=
  match m.scopes.value? env name with
  | some v => .notAFunction name v.kind
  | none => .undefinedFunction name

/-- The node first evaluates operands, and in a machine in which these have been evaluated to
certain values it fails by itself: the operator is not defined for the values, the value cannot be
stored, there is no such function, or the condition is not a boolean. -/
inductive Node.Raises (env : Env) (m : Machine) :
    Node → (operands : List Node) → List Value → Fault → Prop where
  | binary {s : Span} {op : BinaryOp} {lhs rhs : Node} {a b : Value} {f : Fault} :
      Value.binary op a b = .error f → Raises env m (.binary s op lhs rhs) [lhs, rhs] [a, b] f
  | unary {s : Span} {op : UnaryOp} {operand : Node} {v : Value} {f : Fault} :
      Value.unary op v = .error f → Raises env m (.unary s op operand) [operand] [v] f
  | update {s : Span} {target value : Node} {name : String} {op : Arithmetic} {a b : Value}
      {f : Fault} : target.asIdentifier? = some name →
      Value.binary (.arithmetic op) a b = .error f →
      Raises env m (.assign s target (.update op) value) [target, value] [a, b] f
  | store {s : Span} {target value : Node} {name : String} {v : Value} :
      target.asIdentifier? = some name → v.isStorable = false →
      Raises env m (.assign s target .assign value) [value] [v] (.unstorable v.kind)
  | storePiped {s : Span} {target link call : Node} {name : String} {v : Value} :
      target.asIdentifier? = some name → Node.unchainAs link.span target link = .ok call →
      v.isStorable = false →
      Raises env m (.assign s target .chain link) [call] [v] (.unstorable v.kind)
  | named {s : Span} {name : String} {args : List (Labelled Node)} {values : List Value} :
      Labelled.Ordered args → m.scopes.function? env name = none →
      Raises env m (.call s (.named name) args) (args.map (·.content)) values
        (m.calleeFault env name)
  | plugin {s : Span} {owner function : String} {args : List (Labelled Node)} {values : List Value}
      {f : Fault} : Labelled.Ordered args → m.plugins.resolve owner function = .error f →
      Raises env m (.call s (.plugin owner function) args) (args.map (·.content)) values f
  | ternary {s : Span} {condition yes no : Node} {v : Value} : v.kind ≠ .boolean →
      Raises env m (.ternary s condition yes no) [condition] [v] (.ternaryCondition v.kind)
  | ifElse {s : Span} {condition yes : Node} {no : Option Node} {v : Value} : v.kind ≠ .boolean →
      Raises env m (.ifElse s condition yes no) [condition] [v] (.ifCondition v.kind)

namespace Evaluator

/-- The values of operands, one after the other. -/
def valuesOf (parts : Evaluator) (env : Env) : List Node → Eval (List Value)
  | [] => return []
  | n :: rest => do
    let v ← valueOf parts env n
    let values ← valuesOf parts env rest
    return v :: values

section Operands

variable {parts : Evaluator} {env : Env} {m m' : Machine}

theorem outcome_of_valuesOf_cons {n : Node} {rest : List Node} {values : List Value}
    (h : (valuesOf parts env (n :: rest)).outcome m = (.ok values, m')) :
    ∃ v more mid, values = v :: more ∧ (valueOf parts env n).outcome m = (.ok v, mid) ∧
      (valuesOf parts env rest).outcome mid = (.ok more, m') := by
  obtain ⟨v, mid, hv, h⟩ := Eval.exists_of_outcome_bind h
  obtain ⟨more, last, hmore, h⟩ := Eval.exists_of_outcome_bind h
  cases h
  exact ⟨v, more, mid, rfl, hv, hmore⟩

theorem outcome_of_valuesOf_singleton {n : Node} {v : Value}
    (h : (valuesOf parts env [n]).outcome m = (.ok [v], m')) :
    (valueOf parts env n).outcome m = (.ok v, m') := by
  obtain ⟨_, _, mid, hvalues, hv, h⟩ := outcome_of_valuesOf_cons h
  cases hvalues
  cases h
  exact hv

theorem outcome_of_valuesOf_pair {n n' : Node} {v v' : Value}
    (h : (valuesOf parts env [n, n']).outcome m = (.ok [v, v'], m')) :
    ∃ mid, (valueOf parts env n).outcome m = (.ok v, mid) ∧
      (valueOf parts env n').outcome mid = (.ok v', m') := by
  obtain ⟨_, _, mid, hvalues, hv, h⟩ := outcome_of_valuesOf_cons h
  cases hvalues
  exact ⟨mid, hv, outcome_of_valuesOf_singleton h⟩

/-- Arguments in order are evaluated like any other operands, as none of them is refused. -/
theorem outcome_arguments {args : List (Labelled Node)} (horder : Labelled.Ordered args)
    {values : List Value}
    (h : (valuesOf parts env (args.map (·.content))).outcome m = (.ok values, m'))
    (acc : ArgList) (hacc : acc.named ≠ [] → ∀ a ∈ args, a.label.isSome) :
    ∃ more, (arguments parts env args acc).outcome m = (.ok more, m') := by
  induction args generalizing acc m values with
  | nil =>
    cases h
    exact ⟨acc, rfl⟩
  | cons a rest ih =>
    obtain ⟨v, more, mid, -, hv, h⟩ := outcome_of_valuesOf_cons h
    obtain ⟨hfirst, hrest⟩ := List.pairwise_cons.mp horder
    have hpush : ∃ next, acc.push a.label v = .ok next ∧
        (next.named ≠ [] → ∀ b ∈ rest, b.label.isSome) := by
      cases hlabel : a.label with
      | none =>
        have hnamed : acc.named = [] := by
          by_contra hne
          have hsome := hacc hne a List.mem_cons_self
          rw [hlabel] at hsome
          cases hsome
        refine ⟨{ acc with unnamed := acc.unnamed ++ [v] }, ?_, fun hne => absurd hnamed hne⟩
        rw [ArgList.push, hnamed]
        rfl
      | some name =>
        refine ⟨_, rfl, fun _ b hb => hfirst b hb ?_⟩
        rw [hlabel]
        rfl
    obtain ⟨next, hnext, hnamed⟩ := hpush
    obtain ⟨all, hall⟩ := ih hrest h next hnamed
    refine ⟨all, ?_⟩
    show Eval.outcome (do
      let v ← valueOf parts env a.content
      let acc ← Eval.ofFault (acc.push a.label v)
      arguments parts env rest acc) m = _
    rw [Eval.outcome_bind_of_ok hv, hnext]
    exact hall

theorem outcome_store_of_not_isStorable (env : Env) (name : String) {v : Value}
    (hv : v.isStorable = false) (m : Machine) :
    (store env name v).outcome m = (.error (.error ⟨.unstorable v.kind, none⟩), m) := by
  rw [store, hv]
  rfl

theorem outcome_functionNamed_of_none {name : String} (h : m.scopes.function? env name = none) :
    (functionNamed env name).outcome m
      = (.error (.error ⟨m.calleeFault env name, none⟩), m) := by
  have hget : (get : Eval Machine).outcome m = (.ok m, m) := rfl
  rw [functionNamed, Eval.outcome_bind_of_ok hget, Machine.calleeFault]
  simp only [h]
  cases m.scopes.value? env name <;> rfl

end Operands

/-- A node that fails by itself does so at its own place if it is an operator, and otherwise at the
place that its operands left. -/
theorem outcome_node_of_raises (host : Host) (parts : Evaluator) {env : Env} {n : Node}
    {operands : List Node} {values : List Value} {f : Fault} {m m' : Machine}
    (hoperands : (valuesOf parts env operands).outcome { m with span := n.span }
      = (.ok values, m'))
    (h : n.Raises env m' operands values f) :
    (node host parts env n).outcome m = (.error (.error ⟨f, none⟩),
      { m' with span := if n.isOperator then n.span else m'.span }) := by
  cases h with
  | @binary s op lhs rhs a b _ hf =>
    obtain ⟨mid, hlhs, hrhs⟩ := outcome_of_valuesOf_pair hoperands
    refine (Eval.outcome_bind_of_ok hlhs _).trans ((Eval.outcome_bind_of_ok hrhs _).trans ?_)
    show Eval.outcome (do
      Eval.moveTo s
      return Flow.proceed (← Eval.ofFault (Value.binary op a b))) m' = _
    rw [hf]
    rfl
  | @unary s op operand v _ hf =>
    have hoperand := outcome_of_valuesOf_singleton hoperands
    refine (Eval.outcome_bind_of_ok hoperand _).trans ?_
    show Eval.outcome (do
      Eval.moveTo s
      return Flow.proceed (← Eval.ofFault (Value.unary op v))) m' = _
    rw [hf]
    rfl
  | @update s target value name op a b _ hname hf =>
    obtain ⟨mid, htarget, hvalue⟩ := outcome_of_valuesOf_pair hoperands
    show Eval.outcome (do
      return Flow.proceed (← assign parts env target (.update op) value)) { m with span := s } = _
    refine Eval.outcome_bind_of_error ?_ _
    rw [assign, hname]
    refine (Eval.outcome_bind_of_ok htarget _).trans ((Eval.outcome_bind_of_ok hvalue _).trans ?_)
    show Eval.outcome (do
      let v ← Eval.ofFault (Value.binary (.arithmetic op) a b)
      store env name v
      return v) m' = _
    rw [hf]
    rfl
  | @store s target value name v hname hv =>
    have hvalue := outcome_of_valuesOf_singleton hoperands
    show Eval.outcome (do
      return Flow.proceed (← assign parts env target .assign value)) { m with span := s } = _
    refine Eval.outcome_bind_of_error ?_ _
    rw [assign, hname]
    refine (Eval.outcome_bind_of_ok hvalue _).trans ?_
    exact Eval.outcome_bind_of_error (outcome_store_of_not_isStorable env name hv m') _
  | @storePiped s target link call name v hname hcall hv =>
    have hvalue := outcome_of_valuesOf_singleton hoperands
    show Eval.outcome (do
      return Flow.proceed (← assign parts env target .chain link)) { m with span := s } = _
    refine Eval.outcome_bind_of_error ?_ _
    rw [assign, hname]
    dsimp only
    rw [hcall]
    refine (Eval.outcome_bind_of_ok hvalue _).trans ?_
    exact Eval.outcome_bind_of_error (outcome_store_of_not_isStorable env name hv m') _
  | @named s name args _ horder hfunction =>
    obtain ⟨all, hall⟩ := outcome_arguments horder hoperands .empty (absurd rfl)
    show Eval.outcome (do
      return Flow.proceed (← callTo parts env (.named name) args)) { m with span := s } = _
    refine Eval.outcome_bind_of_error ?_ _
    refine (Eval.outcome_bind_of_ok hall _).trans (Eval.outcome_bind_of_error ?_ _)
    exact outcome_functionNamed_of_none hfunction
  | @plugin s owner function args _ _ horder hf =>
    obtain ⟨all, hall⟩ := outcome_arguments horder hoperands .empty (absurd rfl)
    show Eval.outcome (do
      return Flow.proceed (← callTo parts env (.plugin owner function) args))
        { m with span := s } = _
    refine Eval.outcome_bind_of_error ?_ _
    refine (Eval.outcome_bind_of_ok hall _).trans ?_
    show Eval.outcome (do
      let native ← Eval.ofFault (m'.plugins.resolve owner function)
      parts.invoke (.core _ native) all) m' = _
    rw [hf]
    rfl
  | @ternary s condition yes no v hv =>
    have hcondition := outcome_of_valuesOf_singleton hoperands
    refine (Eval.outcome_bind_of_ok hcondition _).trans ?_
    cases v with
    | boolean b => exact absurd rfl hv
    | _ => rfl
  | @ifElse s condition yes no v hv =>
    have hcondition := outcome_of_valuesOf_singleton hoperands
    refine (Eval.outcome_bind_of_ok hcondition _).trans ?_
    cases v with
    | boolean b => exact absurd rfl hv
    | _ => rfl

/-- Where an error is located that a node raises by itself, after its operands have succeeded.  If
the node is an operator, that is its own place.  If it is an assignment, a call, a ternary or a
condition it is the place that the operands left, and so that of the node only if they left it
there.  In every case it is the place of the node or of a tree within it. -/
theorem error_recorded (host : Host) (d : Nat) (env : Env) (n : Node) (operands : List Node)
    (values : List Value) (f : Fault) (m m' : Machine)
    (hoperands : (valuesOf (ofDepth host d) env operands).outcome { m with span := n.span }
      = (.ok values, m'))
    (h : n.Raises env m' operands values f) :
    let place := if n.isOperator then n.span else m'.span
    let step := (ofDepth host (d + 1)).evaluate env n
    step.outcome m = (.error (.error ⟨f, none⟩), { m' with span := place }) ∧
    (Eval.locating step).outcome m
      = (.error (.error ⟨f, some ⟨place, m'.function⟩⟩), { m' with span := place }) ∧
    ∃ u ∈ n.subtrees, place = u.span := by
  intro place step
  have hstep : step.outcome m = (.error (.error ⟨f, none⟩), { m' with span := place }) :=
    outcome_node_of_raises host (ofDepth host d) hoperands h
  refine ⟨hstep, ?_, ?_⟩
  · rw [Eval.outcome_locating, hstep]
    rfl
  · obtain ⟨u, hu, hplace⟩ := exists_place host d env n m
    have hplace : (step.outcome m).2.span = u.span := hplace
    rw [hstep] at hplace
    exact ⟨u, hu, hplace⟩

section Example

/-- The variable `x` holds a string. -/
def namedMachine : Machine where
  scopes := Scopes.initial.assign .global "x" (.string "a")

/-- Nodes on the first line that have an operand on the second: `x = assert(true)`, `x += true`,
`missing(true)`, `fx.missing(true)`, `"a" ? x | x` and `if ("a") x`. -/
def brokenLines : List Node :=
  let own : Span := ⟨0, 9, 1, 1⟩
  let x : Node := .identifier own "x"
  let below (v : Value) : Node := .leaf ⟨5, 9, 2, 1⟩ v
  let args : List (Labelled Node) := [⟨none, below (.boolean true)⟩]
  [.assign own x .assign (.call ⟨5, 9, 2, 1⟩ (.named "assert") args),
    .assign own x (.update .add) (below (.boolean true)),
    .call own (.named "missing") args,
    .call own (.plugin "fx" "missing") args,
    .ternary own (below (.string "a")) x x,
    .ifElse own (below (.string "a")) x none]

/-- The error of `-"a"`, with the operand on the second line, is located on the first. -/
theorem error_recorded_negation :
    let n : Node := .unary ⟨0, 9, 1, 1⟩ .negate (.leaf ⟨5, 9, 2, 1⟩ (.string "a"))
    (Eval.locating ((ofDepth bareHost 2).evaluate .global n)).outcome namedMachine
      = (.error (.error ⟨.unaryOperand .negate .string, some ⟨n.span, none⟩⟩),
        { namedMachine with span := n.span }) := by
  intro n
  have hraises : n.Raises .global { namedMachine with span := ⟨5, 9, 2, 1⟩ }
      [.leaf ⟨5, 9, 2, 1⟩ (.string "a")] [.string "a"] (.unaryOperand .negate .string) := .unary rfl
  exact (error_recorded bareHost 1 .global n _ _ _ namedMachine _ rfl hraises).2.1

/-- The operands of the node succeed, and the node then fails on another line than its own. -/
def MissesItsLine (n : Node) : Prop :=
  ∃ operands values f m',
    (valuesOf (ofDepth bareHost 3) .global operands).outcome { namedMachine with span := n.span }
      = (.ok values, m') ∧
    n.Raises .global m' operands values f ∧
    ((ofDepth bareHost 4).evaluate .global n).outcome namedMachine
      = (.error (.error ⟨f, none⟩), m') ∧
    m'.span.line ≠ n.span.line

/-- The others are not located at their own place, nor even on its line. -/
theorem error_recorded_elsewhere : brokenLines.Forall MissesItsLine :=
  ⟨⟨_, _, _, _, rfl, .store rfl rfl, rfl, by decide⟩,
    ⟨_, _, _, _, rfl, .update rfl rfl, rfl, by decide⟩,
    ⟨_, _, _, _, rfl, .named (by decide) rfl, rfl, by decide⟩,
    ⟨_, _, _, _, rfl, .plugin (by decide) rfl, rfl, by decide⟩,
    ⟨_, _, _, _, rfl, .ternary (by decide), rfl, by decide⟩,
    ⟨_, _, _, _, rfl, .ifElse (by decide), rfl, by decide⟩⟩

end Example
end Evaluator
end ClipScript
