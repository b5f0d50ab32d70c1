/-
One level of the evaluator under a coupling.

Every operation of the evaluator keeps two runs alike if the evaluators of their parts do
(`Coupling.Parts`).  `Coupling.Like` says which trees have the same outermost form with parts that
take each other's place, and `node_of_like` is the statement for them.  It is the one walk through
the cases of the evaluator: what a coupling of its own has to add is only how its trees come to be
`Like`.
-/
import ClipScript.Proofs.Coupling

namespace ClipScript

variable {α β : Type}

/-! ## Parameters without their places -/

namespace UserFunction

/-- Nothing but names, kinds and optionality of parameters counts when a function is called. -/
def bare (f : UserFunction) : UserFunction :=
  { name := f.name, params := f.params.map Param.unplaced, body := .sequence .nowhere [],
    home := .global }

theorem mandatoryCount_bare (f : UserFunction) : f.bare.mandatoryCount = f.mandatoryCount := by
  simp only [mandatoryCount, bare, List.takeWhile_map, List.length_map]
  rfl

theorem checkOrder_bare (f : UserFunction) : f.bare.checkOrder = f.checkOrder := by
  rw [checkOrder, checkOrder, mandatoryCount_bare]
  simp only [bare, ← List.map_drop, List.any_map]
  rfl

theorem declareParams_bare (f : UserFunction) (vars : Variables) :
    f.bare.declareParams vars = f.declareParams vars := by
  simp only [declareParams, bare, List.foldl_map]
  rfl

theorem bindUnnamed_bare (f : UserFunction) (params : List Param) (values : List Value) (i : Nat) :
    f.bare.bindUnnamed i (params.map Param.unplaced) values = f.bindUnnamed i params values := by
  induction params generalizing values i with
  | nil => cases values <;> rfl
  | cons p params ih =>
    cases values with
    | nil => rfl
    | cons value values =>
      simp only [List.map_cons, bindUnnamed, ih]
      rfl

theorem bindNamed_bare (f : UserFunction) (named : List (String × Value)) :
    f.bare.bindNamed named = f.bindNamed named := by
  induction named with
  | nil => rfl
  | cons arg rest ih =>
    obtain ⟨name, value⟩ := arg
    have hfind : f.bare.params.find? (fun p => p.optional && p.name == name)
        = (f.params.find? fun p => p.optional && p.name == name).map Param.unplaced :=
      List.find?_map ..
    rw [bindNamed, bindNamed, hfind, ih]
    cases f.params.find? fun p => p.optional && p.name == name <;> rfl

theorem bind_bare (f : UserFunction) (args : ArgList) : f.bare.bind args = f.bind args := by
  have hdeclare : f.bare.declareParams = f.declareParams := funext f.declareParams_bare
  have hunnamed : f.bare.bindUnnamed 0 f.bare.params args.unnamed
      = f.bindUnnamed 0 f.params args.unnamed := f.bindUnnamed_bare ..
  rw [bind, bind, hdeclare, mandatoryCount_bare, bindNamed_bare, hunnamed]

theorem bare_eq {f g : UserFunction} (hname : f.name = g.name)
    (hparams : f.params.map Param.unplaced = g.params.map Param.unplaced) : f.bare = g.bare := by
  rw [bare, bare, hname, hparams]

end UserFunction

namespace Coupling

variable {C : Coupling} {related : α → β → Prop}

/-! ## Steps of the machine -/

namespace Simulates

theorem moveTo {s s' : Span} (hs : C.exact → s = s') :
    C.Agrees (Eval.moveTo s) (Eval.moveTo s') :=
  modify fun _ _ h => { h with span := hs }

theorem report {r r' : Report} (hr : r.Alike C.exact r') :
    C.Agrees (Eval.report r) (Eval.report r') := by
  refine modify fun m n h => { h with reports := ?_ }
  rw [Array.toList_push, Array.toList_push]
  exact List.rel_append h.reports (.cons hr .nil)

theorem warn (text : String) : C.Agrees (Eval.warn text) (Eval.warn text) := by
  refine get_bind fun m n h => report ⟨fun hexact => ?_, h.function, rfl⟩
  rw [h.span hexact]

theorem changeVars {env : Env} (henv : C.own env) (change : Variables → Variables) :
    C.Agrees
      (Eval.modifyScopes fun s =>
        s.modify env.here fun scope => { scope with vars := change scope.vars })
      (Eval.modifyScopes fun s =>
        s.modify env.here fun scope => { scope with vars := change scope.vars }) :=
  modify fun _ _ h => { h with scopes := C.changeVars change henv h.scopes }

theorem addScope (env : Env) :
    C.Simulates (fun a b => a = b ∧ C.own a) (Eval.addScope env) (Eval.addScope env) := by
  refine get_bind fun m n h => ?_
  obtain ⟨hchild, hown, hscopes⟩ := C.addChild env h.scopes
  exact bind (set { h with scopes := hscopes }) fun _ _ _ => pure ⟨hchild, hown⟩

theorem bindIn {env : Env} (henv : C.own env) (binder : Binder Unit) :
    C.Agrees (Eval.bindIn env binder) (Eval.bindIn env binder) := by
  refine get_bind fun m n h => ?_
  rw [C.vars henv h.scopes]
  exact bind (changeVars henv fun _ => _) fun _ _ _ => ofFault (SameFault.refl (fun _ => rfl) _)

theorem locating {x : Eval α} {y : Eval β} (h : C.Simulates related x y) :
    C.Simulates related (Eval.locating x) (Eval.locating y) := by
  intro m n hmn
  rw [Eval.outcome_locating, Eval.outcome_locating]
  have hxy := h hmn
  generalize x.outcome m = o at hxy ⊢
  generalize y.outcome n = o' at hxy ⊢
  cases hxy with
  | gaveUp => exact .gaveUp
  | value hab hmn' => exact .value hab hmn'
  | error he hmn' =>
    refine .error ?_ hmn'
    rw [hmn'.function]
    exact he.located hmn'.span _

theorem activation {x : Eval α} {y : Eval β} (name : String) (h : C.Simulates related x y) :
    C.Simulates related (Eval.activation name x) (Eval.activation name y) := by
  intro m n hmn
  rw [Eval.outcome_activation, Eval.outcome_activation]
  have hcall : C.Machines { m with function := some name } { n with function := some name } :=
    { hmn with function := rfl }
  have hxy := h.locating hcall
  generalize (Eval.locating x).outcome _ = o at hxy ⊢
  generalize (Eval.locating y).outcome _ = o' at hxy ⊢
  -- the caller's function and place come back on both sides
  cases hxy with
  | gaveUp => exact .gaveUp
  | value hab h' => exact .value hab { h' with function := hmn.function, span := hmn.span }
  | error he h' => exact .error he { h' with function := hmn.function, span := hmn.span }

theorem importing {x : Eval α} {y : Eval β} (path : String) (h : C.Simulates related x y) :
    C.Simulates related (Eval.importing path x) (Eval.importing path y) := by
  intro m n hmn
  rw [Eval.outcome_importing, Eval.outcome_importing]
  have hscript : C.Machines { m with function := none, importing := path :: m.importing }
      { n with function := none, importing := path :: n.importing } :=
    { hmn with function := rfl, importing := by rw [hmn.importing] }
  have hxy := h hscript
  generalize x.outcome _ = o at hxy ⊢
  generalize y.outcome _ = o' at hxy ⊢
  cases hxy with
  | gaveUp => exact .gaveUp
  | value hab h' =>
    exact .value hab { h' with function := hmn.function, span := hmn.span,
                               importing := congrArg List.tail h'.importing }
  | error he h' =>
    exact .error he { h' with function := hmn.function, span := hmn.span,
                              importing := congrArg List.tail h'.importing }

end Simulates

/-! ## Calls and scripts -/

/-- Evaluators whose runs are alike on trees and functions that take each other's place. -/
structure Parts (C : Coupling) (P Q : Evaluator) : Prop where
  evaluate : ∀ {env n n'}, C.own env → C.node n n' → C.Agrees (P.evaluate env n) (Q.evaluate env n')
  invoke : ∀ {f g}, C.function f g → ∀ args, C.Agrees (P.invoke f args) (Q.invoke g args)

namespace Parts

open Evaluator

variable {P Q : Evaluator} {env : Env}

theorem valueOf (h : C.Parts P Q) (henv : C.own env) {n n' : Node} (hn : C.node n n') :
    C.Agrees (valueOf P env n) (valueOf Q env n') := by
  refine Simulates.bind (h.evaluate henv hn) fun a b hab => ?_
  rw [hab]
  exact Simulates.pure rfl

theorem runAll (h : C.Parts P Q) (hscripts : C.scripts) (statements : List Node) :
    C.Agrees (runAll P statements) (runAll Q statements) := by
  induction statements with
  | nil => exact Simulates.pure rfl
  | cons statement rest ih =>
    refine Simulates.bind (Simulates.moveTo fun _ => rfl) fun _ _ _ => ?_
    cases statement.unchain with
    | error f => exact Simulates.throw (.refl _ _)
    | ok u =>
      have hrun := h.evaluate (C.own_global hscripts) (C.node_refl u)
      refine Simulates.bind hrun.locating fun flow flow' hflow => ?_
      subst hflow
      cases flow with
      | proceed v => exact ih
      | leave v => exact Simulates.pure rfl

theorem runSource (h : C.Parts P Q) (hscripts : C.scripts) (source : String) :
    C.Agrees (runSource P source) (runSource Q source) := by
  rw [Evaluator.runSource, Evaluator.runSource]
  cases Program.ofSource source with
  | error e => exact Simulates.throw (.refl _ _)
  | ok program => exact h.runAll hscripts program.statements

theorem importNamed (h : C.Parts P Q) (hscripts : C.scripts) {host : Host}
    (hhost : host.Within C.exact C.scripts) (name : String) :
    C.Agrees (importNamed host P name) (importNamed host Q name) := by
  refine Simulates.bind (Simulates.ofFault (SameFault.refl (fun _ => rfl) _)) fun target _ ht => ?_
  subst ht
  refine Simulates.get_bind fun m n hmn => ?_
  cases target with
  | plugin path =>
    simp only [hmn.plugins]
    split
    · exact Simulates.pure rfl
    · cases hload : host.load name path with
      | error f => exact Simulates.fail f
      | ok plugin =>
        refine Simulates.modify fun m n hmn => { hmn with plugins := ?_, natives := ?_ }
        · rw [hmn.plugins]
        · exact hmn.natives.register (hhost name path plugin hload) name
  | script path =>
    simp only [hmn.importing]
    split
    · exact Simulates.fail _
    · cases host.files.readText path with
      | error e => exact Simulates.fail _
      | ok source =>
        show C.Agrees (do let program ← Eval.ofError (Program.ofSource source); _)
          (do let program ← Eval.ofError (Program.ofSource source); _)
        cases Program.ofSource source with
        | error e => exact Simulates.throw (.refl _ _)
        | ok program => exact (h.runAll hscripts program.statements).importing path

/-- A native function does the same in both runs, whatever it wants done, as long as it asks for no
line where lines may differ. -/
theorem perform (h : C.Parts P Q) {action : Action} (haction : action.Within C.exact C.scripts) :
    C.Agrees (perform P action) (perform Q action) := by
  induction haction with
  | done result => exact Simulates.ofFault (SameFault.refl (fun _ => rfl) _)
  | message hnext ih => exact Simulates.bind (Simulates.report rfl) fun _ _ _ => ih
  | warn hnext ih => exact Simulates.bind (Simulates.warn _) fun _ _ _ => ih
  | @place next hnext hline ih =>
    refine Simulates.get_bind fun m n hmn => ?_
    have hsame : next n.span.line n.function = next m.span.line m.function := by
      rcases hline with hexact | hblind
      · rw [hmn.span hexact, hmn.function]
      · rw [hmn.function, hblind]
    rw [hsame]
    exact ih _ _
  | @call name args missing next hmissing hnext ihmissing ihnext =>
    simp only [Evaluator.perform]
    refine Simulates.get_bind fun m n hmn => ?_
    have hfunction := C.function? hmn.scopes .global name
    generalize m.scopes.function? .global name = f at hfunction ⊢
    generalize n.scopes.function? .global name = g at hfunction ⊢
    cases hfunction with
    | none => exact ihmissing
    | some hfg =>
      refine Simulates.bind (h.invoke hfg args) fun v w hvw => ?_
      subst hvw
      exact ihnext v
  | run hscripts hnext ih =>
    exact Simulates.bind (h.runSource hscripts _) fun _ _ _ => ih

theorem callNative (h : C.Parts P Q) {native : Native} (hnative : native.Within C.exact C.scripts)
    (name : String) (args : ArgList) :
    C.Agrees (callNative P name native args) (callNative Q name native args) :=
  (h.perform (hnative args)).activation name

theorem callUser (h : C.Parts P Q) {f g : UserFunction} (hfg : C.function (.user f) (.user g))
    (args : ArgList) : C.Agrees (callUser P f args) (callUser Q g args) := by
  cases hfg with
  | user hname hparams hhome hbody =>
    have hbind : f.bind args = g.bind args := by
      rw [← f.bind_bare, UserFunction.bare_eq hname hparams.1, g.bind_bare]
    have hactivation : C.Agrees
        (do
          let env ← Eval.addScope g.home
          Eval.activation g.name do
            Eval.bindIn env (f.bind args)
            return (← P.evaluate env f.body).result)
        (do
          let env ← Eval.addScope g.home
          Eval.activation g.name do
            Eval.bindIn env (g.bind args)
            return (← Q.evaluate env g.body).result) := by
      refine Simulates.bind (Simulates.addScope g.home) fun env _ henv => ?_
      obtain ⟨rfl, hown⟩ := henv
      refine Simulates.activation g.name ?_
      rw [hbind]
      refine Simulates.bind (Simulates.bindIn hown _) fun _ _ _ => ?_
      refine Simulates.bind (h.evaluate hown hbody) fun flow _ hflow => ?_
      subst hflow
      exact Simulates.pure rfl
    refine Simulates.get_bind fun m n hmn => ?_
    have hcontains : m.scopes.contains f.home.here = n.scopes.contains g.home.here := by
      rw [hhome]
      exact C.contains hmn.scopes
    rw [hcontains, hname, hhome]
    split
    · exact Simulates.fail_bind _ _ _
    · exact hactivation

theorem call (h : C.Parts P Q) {f g : Function} (hfg : C.function f g) (args : ArgList) :
    C.Agrees (call P f args) (call Q g args) := by
  cases hfg with
  | core hnative => exact h.callNative hnative _ args
  | user hname hparams hhome hbody => exact h.callUser (.user hname hparams hhome hbody) args

/-! ## Names, variables and arguments -/

theorem var?_eq (henv : C.own env) {m n : Machine} (h : C.Machines m n) (name : String) :
    m.scopes.var? env name = n.scopes.var? env name := by
  rw [Scopes.var?, Scopes.var?, C.vars henv h.scopes]

theorem value?_eq (henv : C.own env) {m n : Machine} (h : C.Machines m n) (name : String) :
    m.scopes.value? env name = n.scopes.value? env name := by
  rw [Scopes.value?, Scopes.value?, var?_eq henv h]

/-- An argument keeps its label. -/
def Argument (C : Coupling) (a b : Labelled Node) : Prop :=
  a.label = b.label ∧ C.node a.content b.content

theorem arguments (h : C.Parts P Q) (henv : C.own env) {nodes nodes' : List (Labelled Node)}
    (hnodes : List.Forall₂ (Argument C) nodes nodes') (args : ArgList) :
    C.Agrees (arguments P env nodes args) (arguments Q env nodes' args) := by
  induction hnodes generalizing args with
  | nil => exact Simulates.pure rfl
  | cons ha hrest ih =>
    obtain ⟨hlabel, hcontent⟩ := ha
    refine Simulates.bind (h.valueOf henv hcontent) fun v _ hv => ?_
    rw [← hv, hlabel]
    refine Simulates.bind (Simulates.ofFault (SameFault.refl (fun _ => rfl) _)) fun more _ hm => ?_
    rw [← hm]
    exact ih more

theorem functionNamed (henv : C.own env) (name : String) :
    C.Simulates C.function (functionNamed env name) (functionNamed env name) := by
  refine Simulates.get_bind fun m n hmn => ?_
  have hfunction := C.function? hmn.scopes env name
  have hvalue := value?_eq henv hmn name
  simp only [hvalue]
  generalize m.scopes.function? env name = f at hfunction ⊢
  generalize n.scopes.function? env name = g at hfunction ⊢
  cases hfunction with
  | some hfg => exact Simulates.pure hfg
  | none =>
    cases n.scopes.value? env name with
    | some v => exact Simulates.fail _
    | none => exact Simulates.fail _

theorem callTo (h : C.Parts P Q) (henv : C.own env) {nodes nodes' : List (Labelled Node)}
    (hnodes : List.Forall₂ (Argument C) nodes nodes') (callee : Callee) :
    C.Agrees (callTo P env callee nodes) (callTo Q env callee nodes') := by
  refine Simulates.bind (h.arguments henv hnodes .empty) fun args _ hargs => ?_
  rw [← hargs]
  cases callee with
  | named name =>
    exact Simulates.bind (functionNamed henv name) fun f g hfg => h.invoke hfg args
  | plugin owner function =>
    refine Simulates.get_bind fun m n hmn => ?_
    rw [← hmn.plugins]
    cases hresolve : m.plugins.resolve owner function with
    | error f => exact Simulates.fail_bind _ _ _
    | ok native => exact h.invoke (.core (hmn.natives.resolve hresolve)) args

theorem lookup (h : C.Parts P Q) (henv : C.own env) (name : String) :
    C.Agrees (lookup P env name) (lookup Q env name) := by
  refine Simulates.get_bind fun m n hmn => ?_
  have hfunction := C.function? hmn.scopes env name
  have hvalue := value?_eq henv hmn name
  simp only [hvalue]
  generalize m.scopes.function? env name = f at hfunction ⊢
  generalize n.scopes.function? env name = g at hfunction ⊢
  cases n.scopes.value? env name with
  | some v => exact Simulates.pure rfl
  | none =>
    cases hfunction with
    | some hfg => exact h.invoke hfg .empty
    | none => exact Simulates.fail _

theorem namesPlugin (henv : C.own env) (name : String) :
    C.Agrees (namesPlugin env name) (namesPlugin env name) := by
  refine Simulates.get_bind fun m n hmn => Simulates.pure ?_
  have hfunction := C.function? hmn.scopes env name
  rw [hmn.plugins, value?_eq henv hmn]
  generalize m.scopes.function? env name = f at hfunction ⊢
  generalize n.scopes.function? env name = g at hfunction ⊢
  cases hfunction <;> rfl

theorem store (henv : C.own env) (name : String) (value : Value) :
    C.Agrees (store env name value) (store env name value) := by
  rw [Evaluator.store]
  split
  · exact Simulates.fail_bind _ _ _
  · exact Simulates.changeVars henv fun vars => vars.assign name value

/-- Targets that take each other's place: the same name, or no name and the same complaint. -/
structure Target (C : Coupling) (n n' : Node) : Prop where
  name : n.asIdentifier? = n'.asIdentifier?
  kind : n.kindName = n'.kindName
  node : C.node n n'

theorem assign (h : C.Parts P Q) (henv : C.own env) {target target' value value' : Node}
    {op : AssignOp} (hop : op ≠ .chain) (htarget : Target C target target')
    (hvalue : C.node value value') :
    C.Agrees (assign P env target op value) (assign Q env target' op value') := by
  rw [Evaluator.assign, Evaluator.assign, htarget.name, htarget.kind]
  cases target'.asIdentifier? with
  | none => exact Simulates.fail _
  | some name =>
    have hstore : ∀ v : Value, C.Agrees
        (do Evaluator.store env name v; return v) (do Evaluator.store env name v; return v) :=
      fun v => Simulates.bind (store henv name v) fun _ _ _ => Simulates.pure rfl
    cases op with
    | chain => exact absurd rfl hop
    | assign =>
      refine Simulates.bind (h.valueOf henv hvalue) fun v _ hv => ?_
      subst hv
      exact hstore v
    | update op =>
      refine Simulates.bind (h.valueOf henv htarget.node) fun current _ hcurrent => ?_
      refine Simulates.bind (h.valueOf henv hvalue) fun operand _ hoperand => ?_
      subst hcurrent hoperand
      refine Simulates.bind (Simulates.ofFault (SameFault.refl (fun _ => rfl) _)) fun v _ hv => ?_
      subst hv
      exact hstore v

theorem assignChain (h : C.Parts P Q) (henv : C.own env) {target target' link link' : Node}
    (htarget : Target C target target')
    (hlink : SameFault C.node (Node.unchainAs link.span target link)
      (Node.unchainAs link'.span target' link')) :
    C.Agrees (Evaluator.assign P env target .chain link)
      (Evaluator.assign Q env target' .chain link') := by
  rw [Evaluator.assign, Evaluator.assign, htarget.name, htarget.kind]
  cases target'.asIdentifier? with
  | none => exact Simulates.fail _
  | some name =>
    refine Simulates.bind (Simulates.ofFault hlink) fun call call' hcall => ?_
    refine Simulates.bind (h.valueOf henv hcall) fun v _ hv => ?_
    subst hv
    exact Simulates.bind (store henv name v) fun _ _ _ => Simulates.pure rfl

theorem define (henv : C.own env) (name : String) {params params' : List Param}
    (hparams : Param.Alike C.exact params params') {body body' : Node} (hbody : C.node body body') :
    C.Agrees (Evaluator.define env name params body) (Evaluator.define env name params' body') := by
  let f : UserFunction := { name, params, body, home := env }
  let g : UserFunction := { name, params := params', body := body', home := env }
  have hbare : f.bare = g.bare := UserFunction.bare_eq rfl hparams.1
  have horder : f.checkOrder = g.checkOrder := by
    rw [← f.checkOrder_bare, hbare, g.checkOrder_bare]
  have hfg : C.function (.user f) (.user g) := .user rfl hparams rfl hbody
  have hstore : C.Agrees (Eval.modifyScopes fun s => s.define env name (.user f))
      (Eval.modifyScopes fun s => s.define env name (.user g)) :=
    Simulates.modify fun _ _ hmn => { hmn with scopes := C.define name henv hfg hmn.scopes }
  show C.Agrees (do Eval.ofFault f.checkOrder; _) (do Eval.ofFault g.checkOrder; _)
  rw [horder]
  refine Simulates.bind (Simulates.ofFault (SameFault.refl (fun _ => rfl) _)) fun _ _ _ => ?_
  refine Simulates.get_bind fun m n hmn => ?_
  have hfunction := C.function? hmn.scopes env name
  have hvalue := value?_eq henv hmn name
  simp only [hvalue]
  generalize m.scopes.function? env name = old at hfunction ⊢
  generalize n.scopes.function? env name = old' at hfunction ⊢
  have hsome : old.isSome = old'.isSome := by cases hfunction <;> rfl
  rw [hsome]
  split
  · exact Simulates.bind (Simulates.warn _) fun _ _ _ => hstore
  · exact hstore

theorem setDefault (h : C.Parts P Q) (henv : C.own env) (name : String) {value value' : Node}
    (hvalue : C.node value value') :
    C.Agrees (setDefault P env name value) (setDefault Q env name value') := by
  rw [Evaluator.setDefault, Evaluator.setDefault]
  split
  · exact Simulates.fail_bind _ _ _
  · refine Simulates.get_bind fun m n hmn => ?_
    rw [var?_eq henv hmn]
    split
    · refine Simulates.bind (h.valueOf henv hvalue) fun v _ hv => ?_
      subst hv
      exact store henv name v
    · exact Simulates.pure rfl
    · exact Simulates.fail _
    · exact Simulates.fail _

theorem sequence (h : C.Parts P Q) (henv : C.own env) {body body' : List Node}
    (hbody : List.Forall₂ C.node body body') (last : Value) :
    C.Agrees (sequence P env body last) (sequence Q env body' last) := by
  induction hbody generalizing last with
  | nil => exact Simulates.pure rfl
  | cons hn hrest ih =>
    refine Simulates.bind (h.evaluate henv hn) fun flow _ hflow => ?_
    subst hflow
    cases flow with
    | proceed v => exact ih v
    | leave v => exact Simulates.pure rfl

end Parts

/-! ## Nodes -/

/-- Trees of the same outermost form whose parts take each other's place.  Where a chain is replaced
by a call on the fly, the two calls take each other's place, or there is the same complaint. -/
inductive Like (C : Coupling) : Node → Node → Prop where
  | leaf {s s' : Span} (v : Value) : (C.exact → s = s') → Like C (.leaf s v) (.leaf s' v)
  | sequence {s s' : Span} {body body' : List Node} : (C.exact → s = s') →
      List.Forall₂ C.node body body' → Like C (.sequence s body) (.sequence s' body')
  | assign {s s' : Span} {target target' value value' : Node} {op : AssignOp} :
      (C.exact → s = s') → op ≠ .chain → Parts.Target C target target' → C.node value value' →
      Like C (.assign s target op value) (.assign s' target' op value')
  | assignChain {s s' : Span} {target target' link link' : Node} : (C.exact → s = s') →
      Parts.Target C target target' →
      SameFault C.node (Node.unchainAs link.span target link)
        (Node.unchainAs link'.span target' link') →
      Like C (.assign s target .chain link) (.assign s' target' .chain link')
  | binary {s s' : Span} {lhs lhs' rhs rhs' : Node} (op : BinaryOp) : (C.exact → s = s') →
      C.node lhs lhs' → C.node rhs rhs' → Like C (.binary s op lhs rhs) (.binary s' op lhs' rhs')
  | unary {s s' : Span} {operand operand' : Node} (op : UnaryOp) : (C.exact → s = s') →
      C.node operand operand' → Like C (.unary s op operand) (.unary s' op operand')
  | ternary {s s' : Span} {condition condition' yes yes' no no' : Node} : (C.exact → s = s') →
      C.node condition condition' → C.node yes yes' → C.node no no' →
      Like C (.ternary s condition yes no) (.ternary s' condition' yes' no')
  | call {s s' : Span} {args args' : List (Labelled Node)} (callee : Callee) :
      (C.exact → s = s') → List.Forall₂ (Parts.Argument C) args args' →
      Like C (.call s callee args) (.call s' callee args')
  | chain {s s' : Span} {value value' link link' : Node} : (C.exact → s = s') →
      value.asIdentifier? = value'.asIdentifier? →
      (∀ owner, SameFault C.node (Node.pluginCall owner s link) (Node.pluginCall owner s' link')) →
      SameFault C.node (Node.unchainAs s value link) (Node.unchainAs s' value' link') →
      Like C (.chain s value link) (.chain s' value' link')
  | functionDef {s s' : Span} {params params' : List Param} {body body' : Node} (name : String) :
      (C.exact → s = s') → Param.Alike C.exact params params' → C.node body body' →
      Like C (.functionDef s name params body) (.functionDef s' name params' body')
  | defaultValue {s s' : Span} {value value' : Node} (name : String) : (C.exact → s = s') →
      C.node value value' → Like C (.defaultValue s name value) (.defaultValue s' name value')
  | returnValue {s s' : Span} {value value' : Option Node} : (C.exact → s = s') →
      Option.Rel C.node value value' → Like C (.returnValue s value) (.returnValue s' value')
  | ifElse {s s' : Span} {condition condition' yes yes' : Node} {no no' : Option Node} :
      (C.exact → s = s') → C.node condition condition' → C.node yes yes' →
      Option.Rel C.node no no' →
      Like C (.ifElse s condition yes no) (.ifElse s' condition' yes' no')
  | importName {s s' : Span} (name : String) : (C.exact → s = s') → C.scripts →
      Like C (.importName s name) (.importName s' name)

/-- A tree is like itself, unless it is an import and no scripts may be run. -/
theorem Like.refl (n : Node) (h : C.scripts ∨ ∀ s name, n ≠ .importName s name) : C.Like n n := by
  have hnodes : ∀ body : List Node, List.Forall₂ C.node body body :=
    fun body => List.forall₂_same.mpr fun n _ => C.node_refl n
  have hoption : ∀ value : Option Node, Option.Rel C.node value value := by
    intro value
    cases value with
    | none => exact .none
    | some n => exact .some (C.node_refl n)
  have hfault : ∀ r : Except Fault Node, SameFault C.node r r := SameFault.refl C.node_refl
  have htarget : ∀ target : Node, Parts.Target C target target :=
    fun target => ⟨rfl, rfl, C.node_refl target⟩
  cases n with
  | leaf s v => exact .leaf v fun _ => rfl
  | sequence s body => exact .sequence (fun _ => rfl) (hnodes body)
  | assign s target op value =>
    by_cases hop : op = .chain
    · subst hop
      exact .assignChain (fun _ => rfl) (htarget target) (hfault _)
    · exact .assign (fun _ => rfl) hop (htarget target) (C.node_refl value)
  | binary s op lhs rhs => exact .binary op (fun _ => rfl) (C.node_refl lhs) (C.node_refl rhs)
  | unary s op operand => exact .unary op (fun _ => rfl) (C.node_refl operand)
  | ternary s condition yes no =>
    exact .ternary (fun _ => rfl) (C.node_refl condition) (C.node_refl yes) (C.node_refl no)
  | call s callee args =>
    exact .call callee (fun _ => rfl)
      (List.forall₂_same.mpr fun a _ => ⟨rfl, C.node_refl a.content⟩)
  | chain s value link => exact .chain (fun _ => rfl) rfl (fun _ => hfault _) (hfault _)
  | functionDef s name params body =>
    exact .functionDef name (fun _ => rfl) ⟨rfl, fun _ => rfl⟩ (C.node_refl body)
  | defaultValue s name value => exact .defaultValue name (fun _ => rfl) (C.node_refl value)
  | returnValue s value => exact .returnValue (fun _ => rfl) (hoption value)
  | ifElse s condition yes no =>
    exact .ifElse (fun _ => rfl) (C.node_refl condition) (C.node_refl yes) (hoption no)
  | importName s name =>
    rcases h with hscripts | hne
    · exact .importName name (fun _ => rfl) hscripts
    · exact absurd rfl (hne s name)

theorem Parts.node_of_like {P Q : Evaluator} {host : Host} {env : Env} {n n' : Node}
    (h : C.Parts P Q) (hhost : C.scripts → host.Within C.exact C.scripts) (henv : C.own env)
    (hn : C.Like n n') : C.Agrees (Evaluator.node host P env n) (Evaluator.node host Q env n') := by
  have proceed : ∀ {x y : Eval Value}, C.Agrees x y →
      C.Agrees (do return Flow.proceed (← x)) (do return Flow.proceed (← y)) := by
    intro x y hxy
    refine Simulates.bind hxy fun v _ hv => ?_
    subst hv
    exact Simulates.pure rfl
  have nothing : ∀ {x y : Eval Unit}, C.Agrees x y →
      C.Agrees (do x; return Flow.proceed .void) (do y; return Flow.proceed .void) :=
    fun hxy => Simulates.bind hxy fun _ _ _ => Simulates.pure rfl
  cases hn with
  | leaf v hs =>
    refine Simulates.bind (Simulates.moveTo hs) fun _ _ _ => ?_
    cases v with
    | identifier name => exact proceed (h.lookup henv name)
    | _ => exact Simulates.pure rfl
  | sequence hs hbody =>
    exact Simulates.bind (Simulates.moveTo hs) fun _ _ _ => h.sequence henv hbody .void
  | assign hs hop htarget hvalue =>
    exact Simulates.bind (Simulates.moveTo hs) fun _ _ _ =>
      proceed (h.assign henv hop htarget hvalue)
  | assignChain hs htarget hlink =>
    exact Simulates.bind (Simulates.moveTo hs) fun _ _ _ =>
      proceed (h.assignChain henv htarget hlink)
  | binary op hs hlhs hrhs =>
    refine Simulates.bind (Simulates.moveTo hs) fun _ _ _ => ?_
    refine Simulates.bind (h.valueOf henv hlhs) fun v _ hv => ?_
    refine Simulates.bind (h.valueOf henv hrhs) fun w _ hw => ?_
    subst hv hw
    refine Simulates.bind (Simulates.moveTo hs) fun _ _ _ => ?_
    exact proceed (Simulates.ofFault (SameFault.refl (fun _ => rfl) _))
  | unary op hs hoperand =>
    refine Simulates.bind (Simulates.moveTo hs) fun _ _ _ => ?_
    refine Simulates.bind (h.valueOf henv hoperand) fun v _ hv => ?_
    subst hv
    refine Simulates.bind (Simulates.moveTo hs) fun _ _ _ => ?_
    exact proceed (Simulates.ofFault (SameFault.refl (fun _ => rfl) _))
  | ternary hs hcondition hyes hno =>
    refine Simulates.bind (Simulates.moveTo hs) fun _ _ _ => ?_
    refine Simulates.bind (h.valueOf henv hcondition) fun v _ hv => ?_
    subst hv
    split
    · exact proceed (h.valueOf henv hyes)
    · exact proceed (h.valueOf henv hno)
    · exact Simulates.fail _
  | call callee hs hargs =>
    exact Simulates.bind (Simulates.moveTo hs) fun _ _ _ => proceed (h.callTo henv hargs callee)
  | chain hs hhead hplugin hcall =>
    refine Simulates.bind (Simulates.moveTo hs) fun _ _ _ => ?_
    have hevaluate : ∀ {r r' : Except Fault Node}, SameFault C.node r r' →
        C.Agrees (do P.evaluate env (← Eval.ofFault r)) (do Q.evaluate env (← Eval.ofFault r')) :=
      fun hr => Simulates.bind (Simulates.ofFault hr) fun _ _ hcall => h.evaluate henv hcall
    dsimp only
    rw [hhead]
    split
    · next name _ =>
      refine Simulates.bind (namesPlugin henv name) fun isPlugin _ hb => ?_
      subst hb
      cases isPlugin with
      | true => exact hevaluate (hplugin name)
      | false => exact hevaluate hcall
    · exact hevaluate hcall
  | functionDef name hs hparams hbody =>
    exact Simulates.bind (Simulates.moveTo hs) fun _ _ _ =>
      nothing (define henv name hparams hbody)
  | defaultValue name hs hvalue =>
    exact Simulates.bind (Simulates.moveTo hs) fun _ _ _ =>
      nothing (h.setDefault henv name hvalue)
  | returnValue hs hvalue =>
    refine Simulates.bind (Simulates.moveTo hs) fun _ _ _ => ?_
    cases hvalue with
    | none => exact Simulates.pure rfl
    | some hvalue =>
      refine Simulates.bind (h.valueOf henv hvalue) fun v _ hv => ?_
      subst hv
      exact Simulates.pure rfl
  | ifElse hs hcondition hyes hno =>
    refine Simulates.bind (Simulates.moveTo hs) fun _ _ _ => ?_
    refine Simulates.bind (h.valueOf henv hcondition) fun v _ hv => ?_
    subst hv
    split
    · exact h.evaluate henv hyes
    · cases hno with
      | none => exact Simulates.pure rfl
      | some hno => exact h.evaluate henv hno
    · exact Simulates.fail _
  | importName name hs hscripts =>
    exact Simulates.bind (Simulates.moveTo hs) fun _ _ _ =>
      nothing (h.importNamed hscripts (hhost hscripts) name)

end Coupling
end ClipScript
