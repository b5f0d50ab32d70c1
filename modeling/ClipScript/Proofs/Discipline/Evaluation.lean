/-
One level of the evaluator under a discipline.

If the evaluators of the parts agree, and keep the discipline, then so does everything that is put
together from them (`Parts.node`, `Parts.call`).  An import runs its script with no function
running, whoever asks for it, so it takes evaluators that agree under that condition.
-/
import ClipScript.Proofs.Discipline
import ClipScript.Proofs.Importless

namespace ClipScript

variable {α : Type}

/-! ## Calls of user functions -/

def Evaluator.userBody (parts : Evaluator) (f : UserFunction) (args : ArgList) (env : Env) :
    Eval Value := do
  Eval.bindIn env (f.bind args)
  return (← parts.evaluate env f.body).result

/-- A function whose home is gone is not entered.  Otherwise its body runs in a new scope. -/
theorem Evaluator.outcome_callUser (parts : Evaluator) (f : UserFunction) (args : ArgList)
    (m : Machine) :
    (parts.callUser f args).outcome m =
      if m.scopes.contains f.home.here then
        (Eval.activation f.name (parts.userBody f args (m.scopes.addChild f.home).1)).outcome
          { m with scopes := (m.scopes.addChild f.home).2 }
      else (.error (.error ⟨.undefinedFunction f.name, none⟩), m) := by
  show (Eval.outcome (do
    if !m.scopes.contains f.home.here then Eval.fail (.undefinedFunction f.name)
    let env ← Eval.addScope f.home
    Eval.activation f.name (parts.userBody f args env)) m) = _
  cases m.scopes.contains f.home.here <;> rfl

theorem Eval.outcome_bindIn (f : UserFunction) (args : ArgList) (m : Machine) :
    (Eval.bindIn (m.scopes.addChild f.home).1 (f.bind args)).outcome
        { m with scopes := (m.scopes.addChild f.home).2 } =
      (Eval.ofFault (m.scopes.entered f args).1).outcome
        { m with scopes := (m.scopes.entered f args).2 } :=
  rfl

/-! ## Errors of scripts -/

theorem Evaluator.settled_runAll (P : Evaluator) (statements : List Node) :
    (P.runAll statements).Settled := by
  induction statements with
  | nil => exact .pure ()
  | cons statement rest ih =>
    have hmove : (Eval.moveTo statement.span).Settled := by
      intro m e he
      cases he
    refine hmove.bind fun _ => ?_
    cases statement.unchain with
    | error f =>
      intro m e he
      cases he
      rfl
    | ok u =>
      refine (Eval.Settled.locating _).bind fun flow => ?_
      cases flow with
      | proceed v => exact ih
      | leave v => exact .pure ()

theorem Evaluator.settled_runSource (P : Evaluator) (source : String) :
    (P.runSource source).Settled := by
  refine Eval.Settled.bind ?_ fun program => Evaluator.settled_runAll P program.statements
  unfold Program.ofSource
  split
  · intro m e he
    cases he
    rfl
  · split
    · intro m e he
      cases he
      rfl
    · exact .pure _

namespace Discipline

/-- Evaluators that agree on good trees and functions, wherever `who` is running. -/
structure Parts (D : Discipline) (active : List Env) (who : Option String) (P Q : Evaluator) :
    Prop where
  evaluate : ∀ (env : Env) {n : Node}, n.Declares D.param →
    D.Agrees (env :: active) who (fun flow => D.value flow.value) (P.evaluate env n)
      (Q.evaluate env n)
  invoke : ∀ {f : Function}, f.Fits D.value D.user → ∀ args,
    D.Agrees active who D.value (P.invoke f args) (Q.invoke f args)

variable {D : Discipline}

theorem value_void : D.value .void := D.value_of_kind nofun

theorem value_result {flow : Flow} (h : D.value flow.value) : D.value flow.result := by
  cases flow with
  | proceed v => exact value_void
  | leave v => exact h

namespace Parts

open Evaluator

variable {active : List Env} {who : Option String} {P Q : Evaluator} {env : Env}

theorem inert : D.Parts active who .inert .inert := ⟨fun _ _ _ => .throw _, fun _ _ => .throw _⟩

theorem evaluateIn (h : D.Parts active who P Q) (henv : env ∈ active) {n : Node}
    (hn : n.Declares D.param) :
    D.Agrees active who (fun flow => D.value flow.value) (P.evaluate env n) (Q.evaluate env n) :=
  (h.evaluate env hn).drop fun _ hm => hm.own env henv

theorem valueOf (h : D.Parts active who P Q) (henv : env ∈ active) {n : Node}
    (hn : n.Declares D.param) :
    D.Agrees active who D.value (valueOf P env n) (valueOf Q env n) :=
  (h.evaluateIn henv hn).bind fun _ hflow => .pure hflow

/-! ## Scripts -/

theorem runAll (h : D.Parts active who P Q) {statements : List Node}
    (hstatements : ∀ n ∈ statements, n.Declares D.param) :
    D.Agrees active who (fun _ => True) (runAll P statements) (runAll Q statements) := by
  induction statements with
  | nil => exact .pure trivial
  | cons statement rest ih =>
    rw [List.forall_mem_cons] at hstatements
    refine (Agrees.moveTo statement.span).bind fun _ _ => ?_
    cases hu : statement.unchain with
    | error f => exact .throw _
    | ok u =>
      have hrun := (h.evaluate .global (hstatements.1.unchain hu)).drop
        fun m hm => D.own_global hm.store
      refine hrun.locating.bind fun flow _ => ?_
      cases flow with
      | proceed v => exact ih hstatements.2
      | leave v => exact .pure trivial

theorem runSource (h : D.Parts active who P Q) (source : String) :
    D.Agrees active who (fun _ => True) (runSource P source) (runSource Q source) :=
  (Agrees.ofError fun _ hprogram => D.script hprogram).bind fun _ hstatements =>
    h.runAll hstatements

theorem importNamed (h : D.Parts active none P Q) {host : Host}
    (hhost : host.All (Native.Yields D.value)) (name : String) :
    D.Agrees active who (fun _ => True) (importNamed host P name) (importNamed host Q name) := by
  refine (Agrees.ofFault_any _).bind fun target _ => ?_
  refine .get_bind fun m _ => ?_
  cases target with
  | plugin path =>
    dsimp only
    split
    · exact .pure trivial
    · refine (Agrees.ofFault fun plugin hload => hhost name path plugin hload).bind
        fun plugin hplugin => ?_
      refine .modify (fun m hm => ?_) (fun _ => rfl) fun _ => rfl
      exact { hm with plugins := hm.plugins.register hplugin name }
  | script path =>
    dsimp only
    split
    · exact .fail_bind _ _ _
    · split
      · exact .fail _
      · refine (Agrees.ofError fun _ hprogram => D.script hprogram).bind fun program hprogram => ?_
        exact (h.runAll hprogram).importing path (settled_runAll P _) (settled_runAll Q _)

/-! ## Calls -/

theorem perform (h : D.Parts active who P Q) {action : Action} (haction : action.Yields D.value) :
    D.Agrees active who D.value (perform P action) (perform Q action) := by
  induction haction with
  | value hv => exact .pure hv
  | fault f => exact .fail f
  | message _ ih => exact (Agrees.report _).bind fun _ _ => ih
  | warn _ ih => exact (Agrees.warn _).bind fun _ _ => ih
  | place _ ih => exact .get_bind fun m _ => ih _ _
  | @call name args missing next _ _ ihmissing ihnext =>
    simp only [Evaluator.perform]
    refine .get_bind fun m hm => ?_
    split
    · exact ihmissing
    · next f hf => exact (h.invoke (D.function? hm.store hf) args).bind fun v hv => ihnext v hv
  | run _ ih => exact (h.runSource _).bind fun _ _ => ih

/-- A body runs in a scope of its own, which counts as active as soon as the arguments are bound. -/
theorem userBody {f : UserFunction} (h : D.Parts active who P Q) (hf : D.user f) (args : ArgList)
    {m : Machine} (hready : D.Ready active m) (hwho : m.function = who) :
    D.Meets active who m.importing D.value
      ((P.userBody f args (m.scopes.addChild f.home).1).outcome
        { m with scopes := (m.scopes.addChild f.home).2 })
      ((Q.userBody f args (m.scopes.addChild f.home).1).outcome
        { m with scopes := (m.scopes.addChild f.home).2 }) := by
  obtain ⟨hstore, hown⟩ := D.entered args hready.store hf
  let bound : Machine := { m with scopes := (m.scopes.entered f args).2 }
  rw [Evaluator.userBody, Evaluator.userBody, Eval.outcome_bind, Eval.outcome_bind,
    Eval.outcome_bindIn]
  cases hresult : (m.scopes.entered f args).1 with
  | error fault =>
    exact ⟨rfl, ⟨hstore, fun e he => hown e (hready.own e he), hready.plugins⟩, hwho, rfl,
      .error rfl⟩
  | ok _ =>
    have hentered : D.Ready ((m.scopes.addChild f.home).1 :: active) bound := by
      refine ⟨hstore, List.forall_mem_cons.mpr ⟨?_, fun e he => hown e (hready.own e he)⟩,
        hready.plugins⟩
      exact D.own_entered hready.store hf hresult
    have hbody := h.evaluate (m.scopes.addChild f.home).1 (D.body_of_user hf) bound hentered hwho
    exact (hbody.bind fun flow hflow => .pure (value_result hflow)).drop

theorem callUser {f : UserFunction} (h : D.Parts active (some f.name) P Q) (hf : D.user f)
    (args : ArgList) : D.Agrees active who D.value (callUser P f args) (callUser Q f args) := by
  intro m hready hwho
  subst hwho
  rw [outcome_callUser, outcome_callUser]
  split
  · exact Meets.activation (m := { m with scopes := (m.scopes.addChild f.home).2 })
      (h.userBody hf args (m := { m with function := some f.name }) { hready with } rfl)
  · exact ⟨rfl, hready, rfl, rfl, .error rfl⟩

theorem call {f : Function} (h : D.Parts active (some f.name) P Q) (hf : f.Fits D.value D.user)
    (args : ArgList) : D.Agrees active who D.value (call P f args) (call Q f args) := by
  cases f with
  | core name native => exact (h.perform (hf args)).activation name
  | user f => exact h.callUser hf args

theorem arguments (h : D.Parts active who P Q) (henv : env ∈ active)
    {nodes : List (Labelled Node)} (hnodes : ∀ a ∈ nodes, a.content.Declares D.param)
    (args : ArgList) :
    D.Agrees active who (fun _ => True) (arguments P env nodes args)
      (arguments Q env nodes args) := by
  induction nodes generalizing args with
  | nil => exact .pure trivial
  | cons a rest ih =>
    rw [List.forall_mem_cons] at hnodes
    refine (h.valueOf henv hnodes.1).bind fun v _ => ?_
    exact (Agrees.ofFault_any _).bind fun args _ => ih hnodes.2 args

theorem functionNamed (name : String) :
    D.Agrees active who (Function.Fits D.value D.user) (functionNamed env name)
      (functionNamed env name) := by
  refine .get_bind fun m hm => ?_
  dsimp only
  split
  · next f hf => exact .pure (D.function? hm.store hf)
  · split
    · exact .fail _
    · exact .fail _

theorem callTo (h : D.Parts active who P Q) (henv : env ∈ active) (callee : Callee)
    {nodes : List (Labelled Node)} (hnodes : ∀ a ∈ nodes, a.content.Declares D.param) :
    D.Agrees active who D.value (callTo P env callee nodes) (callTo Q env callee nodes) := by
  refine (h.arguments henv hnodes .empty).bind fun args _ => ?_
  cases callee with
  | named name => exact (functionNamed name).bind fun f hf => h.invoke hf args
  | plugin owner function =>
    refine .get_bind fun m hm => ?_
    refine (Agrees.ofFault fun native hnative => hm.plugins.resolve hnative).bind
      fun native hnative => ?_
    exact h.invoke (f := .core _ native) hnative args

/-! ## Names and variables -/

theorem lookup (h : D.Parts active who P Q) (henv : env ∈ active) (name : String) :
    D.Agrees active who D.value (lookup P env name) (lookup Q env name) := by
  refine .get_bind fun m hm => ?_
  dsimp only
  split
  · next v hv => exact .pure (D.value? hm.store (hm.own env henv) hv)
  · split
    · next f hf => exact h.invoke (D.function? hm.store hf) .empty
    · exact .fail _

theorem namesPlugin (name : String) :
    D.Agrees active who (fun _ => True) (namesPlugin env name) (namesPlugin env name) :=
  .get_bind fun _ _ => .pure trivial

theorem store (henv : env ∈ active) (name : String) (value : Value) :
    D.Agrees active who (fun _ => True) (Evaluator.store env name value)
      (Evaluator.store env name value) := by
  rw [Evaluator.store]
  split
  · exact .fail_bind _ _ _
  · next hstorable =>
    refine .modifyScopes fun m hm => ?_
    obtain ⟨hstore, hown⟩ :=
      D.assign name hm.store (hm.own env henv) (by simpa using hstorable)
    exact ⟨hstore, fun e he => hown e (hm.own e he)⟩

theorem assign (h : D.Parts active who P Q) (henv : env ∈ active) {target value : Node}
    (op : AssignOp) (htarget : target.Declares D.param) (hvalue : value.Declares D.param) :
    D.Agrees active who D.value (Evaluator.assign P env target op value)
      (Evaluator.assign Q env target op value) := by
  rw [Evaluator.assign, Evaluator.assign]
  split
  · exact .fail _
  · next name _ =>
    have hstore : ∀ v, D.value v → D.Agrees active who D.value
        (do Evaluator.store env name v; return v) (do Evaluator.store env name v; return v) :=
      fun v hv => (Parts.store henv name v).bind fun _ _ => .pure hv
    cases op with
    | assign => exact (h.valueOf henv hvalue).bind hstore
    | update op =>
      refine (h.valueOf henv htarget).bind fun current _ => ?_
      refine (h.valueOf henv hvalue).bind fun operand _ => ?_
      refine (Agrees.ofFault fun v hv => D.value_of_kind ?_).bind hstore
      have hstorable := Value.isStorable_of_binary hv
      cases v with
      | identifier name => cases hstorable
      | _ =>
        intro hkind
        cases hkind
    | chain =>
      refine (Agrees.ofFault fun call hcall => htarget.unchainAs hvalue hcall).bind
        fun call hcall => ?_
      exact (h.valueOf henv hcall).bind hstore

theorem define (name : String) {params : List Param} (hparams : ∀ p ∈ params, D.param p)
    {body : Node} (hbody : body.Declares D.param) :
    D.Agrees active who (fun _ => True) (Evaluator.define env name params body)
      (Evaluator.define env name params body) := by
  let f : UserFunction := { name, params, body, home := env }
  have horder : D.Agrees active who (fun _ => D.user f) (Eval.ofFault f.checkOrder)
      (Eval.ofFault f.checkOrder) :=
    .ofFault fun _ horder => D.user_of_order horder hparams hbody
  refine horder.bind fun _ hf => ?_
  have hdefine : D.Agrees active who (fun _ => True)
      (Eval.modifyScopes fun s => s.define env name (.user f))
      (Eval.modifyScopes fun s => s.define env name (.user f)) := by
    refine .modifyScopes fun m hm => ?_
    obtain ⟨hstore, hown⟩ := D.define (f := .user f) env name hm.store hf
    exact ⟨hstore, fun e he => hown e (hm.own e he)⟩
  refine .get_bind fun m _ => ?_
  dsimp only
  split
  · exact (Agrees.warn _).bind fun _ _ => hdefine
  · exact hdefine

theorem setDefault (h : D.Parts active who P Q) (henv : env ∈ active) (name : String)
    {value : Node} (hvalue : value.Declares D.param) :
    D.Agrees active who (fun _ => True) (setDefault P env name value)
      (setDefault Q env name value) := by
  rw [Evaluator.setDefault, Evaluator.setDefault]
  split
  · exact .fail_bind _ _ _
  · refine .get_bind fun m _ => ?_
    split
    · exact (h.valueOf henv hvalue).bind fun v _ => Parts.store henv name v
    · exact .pure trivial
    · exact .fail _
    · exact .fail _

theorem sequence (h : D.Parts active who P Q) (henv : env ∈ active) {body : List Node}
    (hbody : ∀ n ∈ body, n.Declares D.param) {last : Value} (hlast : D.value last) :
    D.Agrees active who (fun flow => D.value flow.value) (sequence P env body last)
      (sequence Q env body last) := by
  induction body generalizing last with
  | nil => exact .pure hlast
  | cons n rest ih =>
    rw [List.forall_mem_cons] at hbody
    refine (h.evaluateIn henv hbody.1).bind fun flow hflow => ?_
    cases flow with
    | proceed v => exact ih hbody.2 hflow
    | leave v => exact .pure hflow

/-! ## Nodes -/

theorem node_of_not_import {host : Host} {n : Node} (h : D.Parts active who P Q)
    (henv : env ∈ active) (hn : n.Declares D.param) (himport : n.isImport = false) :
    D.Agrees active who (fun flow => D.value flow.value) (node host P env n)
      (node host Q env n) := by
  have proceed : ∀ {x y : Eval Value}, D.Agrees active who D.value x y →
      D.Agrees active who (fun flow => D.value flow.value) (do return Flow.proceed (← x))
        (do return Flow.proceed (← y)) :=
    fun hxy => hxy.bind fun _ hv => .pure hv
  have nothing : ∀ {x y : Eval Unit}, D.Agrees active who (fun _ => True) x y →
      D.Agrees active who (fun flow => D.value flow.value) (do x; return Flow.proceed .void)
        (do y; return Flow.proceed .void) :=
    fun hxy => hxy.bind fun _ _ => .pure value_void
  have hstorable : ∀ {v : Value}, v.isStorable → D.value v := by
    intro v hv
    refine D.value_of_kind fun hkind => ?_
    rw [Value.isStorable, hkind] at hv
    cases hv
  refine (Agrees.moveTo n.span).bind fun _ _ => ?_
  cases hn with
  | @leaf s v =>
    cases v with
    | identifier name => exact proceed (h.lookup henv name)
    | _ => exact .pure (D.value_of_kind nofun)
  | sequence hbody => exact h.sequence henv hbody value_void
  | assign htarget hvalue => exact proceed (h.assign henv _ htarget hvalue)
  | binary hlhs hrhs =>
    refine (h.valueOf henv hlhs).bind fun v _ => ?_
    refine (h.valueOf henv hrhs).bind fun w _ => ?_
    refine (Agrees.moveTo _).bind fun _ _ => ?_
    exact proceed (.ofFault fun r hr => hstorable (Value.isStorable_of_binary hr))
  | unary hoperand =>
    refine (h.valueOf henv hoperand).bind fun v _ => ?_
    refine (Agrees.moveTo _).bind fun _ _ => ?_
    exact proceed (.ofFault fun r hr => hstorable (Value.isStorable_of_unary hr))
  | ternary hcondition hyes hno =>
    refine (h.valueOf henv hcondition).bind fun v _ => ?_
    split
    · exact proceed (h.valueOf henv hyes)
    · exact proceed (h.valueOf henv hno)
    · exact .fail _
  | call hargs => exact proceed (h.callTo henv _ hargs)
  | @chain s value link hvalue hlink =>
    have hevaluate : ∀ {r : Except Fault Node}, (∀ u, r = .ok u → u.Declares D.param) →
        D.Agrees active who (fun flow => D.value flow.value)
          (do P.evaluate env (← Eval.ofFault r)) (do Q.evaluate env (← Eval.ofFault r)) :=
      fun hr => (Agrees.ofFault hr).bind fun _ hu => h.evaluateIn henv hu
    dsimp only
    split
    · next name _ =>
      refine (namesPlugin name).bind fun isPlugin _ => ?_
      cases isPlugin with
      | true => exact hevaluate fun u hu => hlink.pluginCall hu
      | false => exact hevaluate fun u hu => hvalue.unchainAs hlink hu
    · exact hevaluate fun u hu => hvalue.unchainAs hlink hu
  | functionDef hparams hbody => exact nothing (Parts.define _ hparams hbody)
  | defaultValue hvalue => exact nothing (h.setDefault henv _ hvalue)
  | @returnValue s value hvalue =>
    cases value with
    | none => exact .pure value_void
    | some value => exact (h.valueOf henv (hvalue value rfl)).bind fun _ hv => .pure hv
  | @ifElse s condition yes no hcondition hyes hno =>
    refine (h.valueOf henv hcondition).bind fun v _ => ?_
    split
    · exact h.evaluateIn henv hyes
    · cases no with
      | none => exact .pure value_void
      | some no => exact h.evaluateIn henv (hno no rfl)
    · exact .fail _
  | importName => cases himport

/-- One level of evaluation agrees if its parts do.  What an import runs is not run by `who`. -/
theorem node {host : Host} {n : Node} (h : D.Parts active (if n.isImport then none else who) P Q)
    (hhost : host.All (Native.Yields D.value)) (henv : env ∈ active) (hn : n.Declares D.param) :
    D.Agrees active who (fun flow => D.value flow.value) (node host P env n)
      (node host Q env n) := by
  cases himport : n.isImport with
  | false =>
    rw [himport, if_neg nofun] at h
    exact h.node_of_not_import henv hn himport
  | true =>
    rw [himport, if_pos rfl] at h
    cases n with
    | importName s name =>
      refine (Agrees.moveTo s).bind fun _ _ => ?_
      exact (h.importNamed hhost name).bind fun _ _ => .pure value_void
    | _ => cases himport

end Parts

theorem parts_ofDepth {host : Host} (hhost : host.All (Native.Yields D.value)) (depth : Nat)
    (active : List Env) (who : Option String) :
    D.Parts active who (.ofDepth host depth) (.ofDepth host depth) := by
  induction depth generalizing active who with
  | zero => exact .inert
  | succ depth ih =>
    refine ⟨fun env n hn => ?_, fun hf args => (ih active _).call hf args⟩
    exact (ih (env :: active) _).node hhost List.mem_cons_self hn

end Discipline
end ClipScript
