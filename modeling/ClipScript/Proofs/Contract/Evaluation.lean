/-
One level of the evaluator under a contract.

Every operation of the evaluator keeps a contract if the evaluators of its parts do, on the trees
that are handed to them (`Contract.Parts`, `Contract.Hands`).  `Parts.node` and `Parts.call` are the
statements for a node and for a call.  An import is left to the caller of `Parts.node`:
`Parts.importNamed` says what it takes.
-/
import ClipScript.Proofs.Contract
import ClipScript.Proofs.Node.Formed

namespace ClipScript
namespace Contract

variable {α : Type} {C : Contract}

/-- Evaluators that end alike and keep the contract on certain trees, while evaluations go on in
`active` and `scripts` are being imported. -/
structure Parts (C : Contract) (active : List Env) (scripts : List String) (tree : Node → Prop)
    (P Q : Evaluator) : Prop where
  evaluate : ∀ {W env n}, C.own W env → tree n →
    C.Agrees scripts W (P.evaluate env n) (Q.evaluate env n)
  invoke : ∀ {W f}, C.callable W active f → ∀ args,
    C.Agrees scripts W (P.invoke f args) (Q.invoke f args)

/-- Whatever the evaluation of a node hands to the evaluator of its parts is a certain tree: a part,
or a call that takes the place of a chain. -/
def Hands (C : Contract) (tree : Node → Prop) : Node → Prop
  | .leaf _ _ | .importName _ _ => True
  | .sequence _ body => ∀ n ∈ body, tree n
  | .assign _ target .chain link => ∀ u, Node.unchainAs link.span target link = .ok u → tree u
  | .assign _ target _ value => tree target ∧ tree value
  | .binary _ _ lhs rhs => tree lhs ∧ tree rhs
  | .unary _ _ operand => tree operand
  | .ternary _ condition yes no => tree condition ∧ tree yes ∧ tree no
  | .call _ _ args => ∀ a ∈ args, tree a.content
  | .chain s value link => (∀ u, Node.unchainAs s value link = .ok u → tree u) ∧
      ∀ owner ∈ value.asIdentifier?, ∀ u, Node.pluginCall owner s link = .ok u → tree u
  | .functionDef _ _ _ _ => C.free
  | .defaultValue _ _ value => tree value
  | .returnValue _ value => ∀ n ∈ value, tree n
  | .ifElse _ condition yes no => tree condition ∧ tree yes ∧ ∀ n ∈ no, tree n

theorem hands_of_free (h : C.free) {tree : Node → Prop} (htree : ∀ n, tree n) (n : Node) :
    C.Hands tree n := by
  cases n with
  | assign s target op value => cases op <;> simp [Hands, htree]
  | _ => simp [Hands, htree, h]

/-- What a contract asks of a host: the plugin that it loads for a name may be registered. -/
def Hosts (C : Contract) (host : Host) (name : String) : Prop :=
  ∀ {W s r path plugin}, C.holds W s r → r.contains name = false →
    ImportTarget.locate host.files host.pluginDir name host.scriptExtension = .ok (.plugin path) →
    host.load name path = .ok plugin → ∃ W', W ≤ W' ∧ C.holds W' s (r.register name plugin)

namespace Parts

open Evaluator

variable {active : List Env} {scripts : List String} {tree : Node → Prop} {P Q : Evaluator}
  {W : C.World} {env : Env}

theorem inert (h : C.free) : C.Parts active scripts tree .inert .inert :=
  ⟨fun _ _ => Gives.tooDeep h, fun _ _ => Gives.tooDeep h⟩

theorem valueOf (h : C.Parts active scripts tree P Q) (henv : C.own W env) {n : Node}
    (hn : tree n) : C.Agrees scripts W (valueOf P env n) (valueOf Q env n) :=
  (h.evaluate henv hn).bind fun _ _ _ => Agrees.pure _

/-! ## Scripts -/

theorem runAll (h : C.Parts active scripts tree P Q) {statements : List Node}
    (hstatements : ∀ n ∈ statements, ∀ u, n.unchain = .ok u → tree u) :
    C.Agrees scripts W (runAll P statements) (runAll Q statements) := by
  induction statements generalizing W with
  | nil => exact Agrees.pure ()
  | cons n rest ih =>
    rw [List.forall_mem_cons] at hstatements
    refine (Agrees.moveTo n.span).bind fun W₁ h₁ _ => ?_
    cases hunchain : n.unchain with
    | error f => exact Gives.throw _
    | ok u =>
      -- something may be evaluated in the global scope in whatever world the statement is reached
      have hrun : C.Agrees scripts W₁ (P.evaluate .global u) (Q.evaluate .global u) :=
        fun W₂ _ m hm => h.evaluate (C.own_global hm.holds) (hstatements.1 u hunchain) le_rfl hm
      refine Agrees.bind (Gives.locating hrun) fun W₂ _ flow => ?_
      cases flow with
      | proceed v => exact ih hstatements.2
      | leave v => exact Agrees.pure ()

theorem runSource (h : C.Parts active scripts (fun _ => True) P Q) (source : String) :
    C.Agrees scripts W (runSource P source) (runSource Q source) := by
  have hread : C.Agrees scripts W (Eval.ofError (Program.ofSource source))
      (Eval.ofError (Program.ofSource source)) :=
    Gives.ofError fun _ _ _ _ => trivial
  exact hread.bind fun _ _ _ => h.runAll fun _ _ _ _ => trivial

/-- An import keeps the contract if the host's plugins may be registered and the script that it
finds, which is not being imported already, keeps it. -/
theorem importNamed {host : Host} {name : String} (hhost : C.Hosts host name)
    (hscript : ∀ {W path source program},
      ImportTarget.locate host.files host.pluginDir name host.scriptExtension
        = .ok (.script path) →
      scripts.any (Path.same path) = false → host.files.readText path = .ok source →
      Program.ofSource source = .ok program →
      C.Agrees (path :: scripts) W (Evaluator.runAll P program.statements)
        (Evaluator.runAll Q program.statements)) :
    C.Agrees scripts W (importNamed host P name) (importNamed host Q name) := by
  have hlocated : C.Gives scripts W (fun _ target =>
      ImportTarget.locate host.files host.pluginDir name host.scriptExtension = .ok target)
      (Eval.ofFault (ImportTarget.locate host.files host.pluginDir name host.scriptExtension))
      (Eval.ofFault (ImportTarget.locate host.files host.pluginDir name host.scriptExtension)) :=
    .ofFault fun _ htarget _ _ => htarget
  refine hlocated.bind fun W₁ _ target htarget => ?_
  cases target with
  | plugin path =>
    -- what is registered is what was looked at, so this is about one machine
    intro W₂ _ m hm
    refine ⟨rfl, ?_⟩
    show C.Keeps scripts W₂ _ ((if m.plugins.contains name then pure () else
      do
        let plugin ← Eval.ofFault (host.load name path)
        modify fun m => { m with plugins := m.plugins.register name plugin }
      : Eval Unit).outcome m)
    split
    · exact .value le_rfl trivial hm
    · next hnew =>
      cases hload : host.load name path with
      | error f => exact .error le_rfl hm
      | ok plugin =>
        obtain ⟨W', hW, hholds⟩ := hhost hm.holds (by simpa using hnew) htarget hload
        exact .value hW trivial ⟨hholds, hm.importing⟩
  | script path =>
    refine Gives.get_bind fun W₂ _ m hm => ?_
    dsimp only
    rw [hm.importing]
    split
    · exact Gives.fail_bind _ _ _
    · next hout =>
      cases hread : host.files.readText path with
      | error e => exact Gives.fail _
      | ok source =>
        show C.Agrees scripts W₂ (do let program ← Eval.ofError (Program.ofSource source); _)
          (do let program ← Eval.ofError (Program.ofSource source); _)
        cases hprogram : Program.ofSource source with
        | error e => exact Gives.throw e
        | ok program =>
          exact Gives.importing (hscript htarget (by simpa using hout) hread hprogram)

/-! ## Calls -/

/-- Only where anything may happen does a native function have something evaluated. -/
theorem perform (h : C.free → C.Parts active scripts (fun _ => True) P Q) {action : Action}
    (haction : C.free ∨ action.Alone) :
    C.Agrees scripts W (perform P action) (perform Q action) := by
  induction action generalizing W with
  | done result => exact Agrees.ofFault result
  | message text next ih =>
    refine (Agrees.report _).bind fun _ _ _ => ih (haction.imp_right fun halone => ?_)
    cases halone with
    | message hnext => exact hnext
  | warn text next ih =>
    refine (Agrees.warn _).bind fun _ _ _ => ih (haction.imp_right fun halone => ?_)
    cases halone with
    | warn hnext => exact hnext
  | place next ih =>
    refine Gives.get_bind fun W' _ m _ => ih _ _ (haction.imp_right fun halone => ?_)
    cases halone with
    | place hnext => exact hnext _ _
  | call name args missing next ihmissing ihnext =>
    have hfree : C.free := haction.resolve_right fun halone => by cases halone
    simp only [Evaluator.perform]
    refine Gives.get_bind fun W' _ m hm => ?_
    split
    · exact ihmissing (.inl hfree)
    · next f hf =>
      have hcall : C.callable W' active f :=
        C.function? hm.holds (C.own_global hm.holds) List.mem_cons_self hf
      exact ((h hfree).invoke hcall args).bind fun _ _ v => ihnext v (.inl hfree)
  | run source next ih =>
    have hfree : C.free := haction.resolve_right fun halone => by cases halone
    exact ((h hfree).runSource source).bind fun _ _ _ => ih (.inl hfree)

theorem userBody (h : C.Parts active scripts (fun _ => True) P Q) {f : UserFunction}
    (hf : C.callable W active (.user f)) (args : ArgList) {m : Machine}
    (hm : C.Ready scripts W m) :
    C.Meets scripts W (fun _ _ => True) { m with scopes := (m.scopes.addChild f.home).2 }
      (P.userBody f args (m.scopes.addChild f.home).1)
      (Q.userBody f args (m.scopes.addChild f.home).1) := by
  obtain ⟨W', hW, hown, hholds⟩ := C.enter args hm.holds hf
  have hentered : C.Ready scripts W' { m with scopes := (m.scopes.entered f args).2 } :=
    ⟨hholds, hm.importing⟩
  rw [Meets, Evaluator.userBody, Evaluator.userBody, Eval.outcome_bind, Eval.outcome_bind,
    Eval.outcome_bindIn]
  cases (m.scopes.entered f args).1 with
  | error fault => exact ⟨rfl, .error hW hentered⟩
  | ok _ =>
    have hrun : C.Agrees scripts W'
        (do return (← P.evaluate (m.scopes.addChild f.home).1 f.body).result)
        (do return (← Q.evaluate (m.scopes.addChild f.home).1 f.body).result) :=
      (h.evaluate hown trivial).bind fun _ _ _ => Agrees.pure _
    obtain ⟨heq, hkeeps⟩ := hrun le_rfl hentered
    exact ⟨heq, hkeeps.earlier hW⟩

theorem callUser (h : C.Parts active scripts (fun _ => True) P Q) {f : UserFunction}
    (hf : C.callable W active (.user f)) (args : ArgList) :
    C.Agrees scripts W (callUser P f args) (callUser Q f args) := by
  intro W' hW m hm
  rw [Meets, outcome_callUser, outcome_callUser]
  split
  · exact Meets.activation (m := { m with scopes := (m.scopes.addChild f.home).2 })
      (h.userBody (C.callable_mono hW hf) args (m := { m with function := some f.name })
        ⟨hm.holds, hm.importing⟩)
  · exact ⟨rfl, .error le_rfl hm⟩

theorem call (h : C.free → C.Parts active scripts (fun _ => True) P Q) {f : Function}
    (hf : C.callable W active f) (args : ArgList) :
    C.Agrees scripts W (call P f args) (call Q f args) := by
  cases f with
  | core name native =>
    exact Gives.activation (perform h ((C.core hf).imp_right fun halone => halone args)) name
  | user f => exact (h (C.user hf)).callUser hf args

theorem arguments (h : C.Parts active scripts tree P Q) (henv : C.own W env)
    {nodes : List (Labelled Node)} (hnodes : ∀ a ∈ nodes, tree a.content) (args : ArgList) :
    C.Agrees scripts W (arguments P env nodes args) (arguments Q env nodes args) := by
  induction nodes generalizing args W with
  | nil => exact Agrees.pure args
  | cons a rest ih =>
    rw [List.forall_mem_cons] at hnodes
    refine (h.valueOf henv hnodes.1).bind fun W₁ h₁ v => ?_
    refine (Agrees.ofFault _).bind fun W₂ h₂ more => ?_
    exact ih (C.own_mono (h₁.trans h₂) henv) hnodes.2 more

theorem functionNamed (henv : C.own W env) (hactive : env ∈ active) (name : String) :
    C.Gives scripts W (fun W' f => C.callable W' active f) (functionNamed env name)
      (functionNamed env name) := by
  refine Gives.get_bind fun W' hW m hm => ?_
  dsimp only
  split
  · next f hf =>
    have hcall : C.callable W' active f :=
      C.function? hm.holds (C.own_mono hW henv) (List.mem_cons_of_mem _ hactive) hf
    exact Gives.pure fun _ hW' => C.callable_mono hW' hcall
  · split
    · exact Gives.fail _
    · exact Gives.fail _

theorem callTo (h : C.Parts active scripts tree P Q) (henv : C.own W env) (hactive : env ∈ active)
    (callee : Callee) {nodes : List (Labelled Node)} (hnodes : ∀ a ∈ nodes, tree a.content) :
    C.Agrees scripts W (callTo P env callee nodes) (callTo Q env callee nodes) := by
  refine (h.arguments henv hnodes .empty).bind fun W₁ h₁ args => ?_
  cases callee with
  | named name =>
    exact (functionNamed (C.own_mono h₁ henv) hactive name).bind fun _ _ f hf => h.invoke hf args
  | plugin owner function =>
    refine Gives.get_bind fun W₂ _ m hm => ?_
    have hresolved : C.Gives scripts W₂
        (fun W' native =>
          C.callable W' active (.core (Callee.plugin owner function).display native))
        (Eval.ofFault (m.plugins.resolve owner function))
        (Eval.ofFault (m.plugins.resolve owner function)) :=
      .ofFault fun native hnative _ hW' => C.callable_mono hW' (C.resolve _ hm.holds hnative)
    exact hresolved.bind fun _ _ native hnative => h.invoke hnative args

/-! ## Names and variables -/

theorem lookup (h : C.Parts active scripts tree P Q) (henv : C.own W env) (hactive : env ∈ active)
    (name : String) : C.Agrees scripts W (lookup P env name) (lookup Q env name) := by
  refine Gives.get_bind fun W' hW m hm => ?_
  dsimp only
  split
  · exact Agrees.pure _
  · split
    · next f hf =>
      exact h.invoke
        (C.function? hm.holds (C.own_mono hW henv) (List.mem_cons_of_mem _ hactive) hf) .empty
    · exact Gives.fail _

theorem store (henv : C.own W env) (name : String) (value : Value) :
    C.Agrees scripts W (store env name value) (store env name value) := by
  rw [Evaluator.store]
  split
  · exact Gives.fail_bind _ _ _
  · next hstorable =>
    exact Agrees.modifyScopes fun W' hW s r hholds =>
      C.assign name hholds (C.own_mono hW henv) (by simpa using hstorable)

theorem storing (henv : C.own W env) (name : String) (v : Value) :
    C.Agrees scripts W (do Evaluator.store env name v; return v)
      (do Evaluator.store env name v; return v) :=
  (store henv name v).bind fun _ _ _ => Agrees.pure v

theorem assign (h : C.Parts active scripts tree P Q) (henv : C.own W env) {s : Span}
    {target value : Node} {op : AssignOp} (hn : C.Hands tree (.assign s target op value)) :
    C.Agrees scripts W (Evaluator.assign P env target op value)
      (Evaluator.assign Q env target op value) := by
  rw [Evaluator.assign, Evaluator.assign]
  split
  · exact Gives.fail _
  · next name _ =>
    cases op with
    | assign =>
      exact (h.valueOf henv hn.2).bind fun W₁ h₁ v => storing (C.own_mono h₁ henv) name v
    | update op =>
      refine (h.valueOf henv hn.1).bind fun W₁ h₁ current => ?_
      refine (h.valueOf (C.own_mono h₁ henv) hn.2).bind fun W₂ h₂ operand => ?_
      refine (Agrees.ofFault _).bind fun W₃ h₃ v => ?_
      exact storing (C.own_mono ((h₁.trans h₂).trans h₃) henv) name v
    | chain =>
      refine (Gives.ofFault fun call hcall _ _ => hn call hcall).bind fun W₁ h₁ call hcall => ?_
      refine (h.valueOf (C.own_mono h₁ henv) hcall).bind fun W₂ h₂ v => ?_
      exact storing (C.own_mono (h₁.trans h₂) henv) name v

theorem define (hfree : C.free) (henv : C.own W env) (name : String) (params : List Param)
    (body : Node) :
    C.Agrees scripts W (Evaluator.define env name params body)
      (Evaluator.define env name params body) := by
  have hdefine : ∀ W', W ≤ W' → C.Agrees scripts W'
      (Eval.modifyScopes fun s => s.define env name (.user { name, params, body, home := env }))
      (Eval.modifyScopes fun s => s.define env name (.user { name, params, body, home := env })) :=
    fun W' hW => Agrees.modifyScopes fun W'' hW' s r hholds =>
      C.define (f := { name, params, body, home := env }) name hfree hholds
        (C.own_mono (hW.trans hW') henv)
  refine (Agrees.ofFault _).bind fun W₁ h₁ _ => ?_
  refine Gives.get_bind fun W₂ h₂ m _ => ?_
  dsimp only
  split
  · exact (Agrees.warn _).bind fun W₃ h₃ _ => hdefine W₃ ((h₁.trans h₂).trans h₃)
  · exact hdefine W₂ (h₁.trans h₂)

theorem setDefault (h : C.Parts active scripts tree P Q) (henv : C.own W env) (name : String)
    {value : Node} (hvalue : tree value) :
    C.Agrees scripts W (setDefault P env name value) (setDefault Q env name value) := by
  rw [Evaluator.setDefault, Evaluator.setDefault]
  split
  · exact Gives.fail_bind _ _ _
  · refine Gives.get_bind fun W₁ h₁ m _ => ?_
    split
    · refine (h.valueOf (C.own_mono h₁ henv) hvalue).bind fun W₂ h₂ v => ?_
      exact store (C.own_mono (h₁.trans h₂) henv) name v
    · exact Agrees.pure ()
    · exact Gives.fail _
    · exact Gives.fail _

theorem sequence (h : C.Parts active scripts tree P Q) (henv : C.own W env) {body : List Node}
    (hbody : ∀ n ∈ body, tree n) (last : Value) :
    C.Agrees scripts W (sequence P env body last) (sequence Q env body last) := by
  induction body generalizing last W with
  | nil => exact Agrees.pure _
  | cons n rest ih =>
    rw [List.forall_mem_cons] at hbody
    refine (h.evaluate henv hbody.1).bind fun W₁ h₁ flow => ?_
    cases flow with
    | proceed v => exact ih (C.own_mono h₁ henv) hbody.2 v
    | leave v => exact Agrees.pure _

/-! ## Nodes -/

theorem node {host : Host} {n : Node} (h : C.Parts active scripts tree P Q) (henv : C.own W env)
    (hactive : env ∈ active) (hn : C.Hands tree n)
    (himport : ∀ {W' name}, name ∈ n.imported? →
      C.Agrees scripts W' (Evaluator.importNamed host P name)
        (Evaluator.importNamed host Q name)) :
    C.Agrees scripts W (node host P env n) (node host Q env n) := by
  have proceed : ∀ {W : C.World} {x y : Eval Value}, C.Agrees scripts W x y →
      C.Agrees scripts W (do return Flow.proceed (← x)) (do return Flow.proceed (← y)) :=
    fun hxy => hxy.bind fun _ _ _ => Agrees.pure _
  have nothing : ∀ {W : C.World} {x y : Eval Unit}, C.Agrees scripts W x y →
      C.Agrees scripts W (do x; return Flow.proceed .void) (do y; return Flow.proceed .void) :=
    fun hxy => hxy.bind fun _ _ _ => Agrees.pure _
  refine (Agrees.moveTo n.span).bind fun W₁ h₁ _ => ?_
  replace henv := C.own_mono h₁ henv
  cases n with
  | leaf s v =>
    cases v with
    | identifier name => exact proceed (h.lookup henv hactive name)
    | _ => exact Agrees.pure _
  | sequence s body => exact h.sequence henv hn _
  | assign s target op value => exact proceed (h.assign henv hn)
  | binary s op lhs rhs =>
    refine (h.valueOf henv hn.1).bind fun W₂ h₂ v => ?_
    refine (h.valueOf (C.own_mono h₂ henv) hn.2).bind fun W₃ h₃ w => ?_
    exact (Agrees.moveTo _).bind fun _ _ _ => proceed (Agrees.ofFault _)
  | unary s op operand =>
    refine (h.valueOf henv hn).bind fun W₂ h₂ v => ?_
    exact (Agrees.moveTo _).bind fun _ _ _ => proceed (Agrees.ofFault _)
  | ternary s condition yes no =>
    refine (h.valueOf henv hn.1).bind fun W₂ h₂ v => ?_
    split
    · exact proceed (h.valueOf (C.own_mono h₂ henv) hn.2.1)
    · exact proceed (h.valueOf (C.own_mono h₂ henv) hn.2.2)
    · exact Gives.fail _
  | call s callee args => exact proceed (h.callTo henv hactive callee hn)
  | chain s value link =>
    have made : ∀ {W} {r : Except Fault Node}, W₁ ≤ W → (∀ u, r = .ok u → tree u) →
        C.Agrees scripts W (do P.evaluate env (← Eval.ofFault r))
          (do Q.evaluate env (← Eval.ofFault r)) :=
      fun hW hr => (Gives.ofFault fun u hu _ _ => hr u hu).bind fun _ hW' _ hu =>
        h.evaluate (C.own_mono (hW.trans hW') henv) hu
    dsimp only
    split
    · next name hname =>
      have hnames : C.Agrees scripts W₁ (namesPlugin env name) (namesPlugin env name) :=
        Gives.get_bind fun _ _ _ _ => Agrees.pure _
      refine hnames.bind fun W₂ h₂ isPlugin => ?_
      cases isPlugin with
      | true => exact made h₂ (hn.2 name hname)
      | false => exact made h₂ hn.1
    · exact made le_rfl hn.1
  | functionDef s name params body => exact nothing (define hn henv name params body)
  | defaultValue s name value => exact nothing (h.setDefault henv name hn)
  | returnValue s value =>
    cases value with
    | none => exact Agrees.pure _
    | some value => exact (h.valueOf henv (hn value rfl)).bind fun _ _ _ => Agrees.pure _
  | ifElse s condition yes no =>
    refine (h.valueOf henv hn.1).bind fun W₂ h₂ v => ?_
    have henv₂ := C.own_mono h₂ henv
    split
    · exact h.evaluate henv₂ hn.2.1
    · cases no with
      | none => exact Agrees.pure _
      | some no => exact h.evaluate henv₂ (hn.2.2 no rfl)
    · exact Gives.fail _
  | importName s name => exact nothing (himport rfl)

/-- Where anything may happen, all trees are evaluated alike and imports ask for nothing more. -/
theorem node_of_free {host : Host} {n : Node} (hfree : C.free)
    (hhost : ∀ name ∈ n.imported?, C.Hosts host name)
    (h : ∀ scripts, C.Parts active scripts (fun _ => True) P Q) (henv : C.own W env)
    (hactive : env ∈ active) : C.Agrees scripts W (Evaluator.node host P env n)
      (Evaluator.node host Q env n) :=
  (h scripts).node henv hactive (hands_of_free hfree (fun _ => trivial) n) fun hname =>
    importNamed (hhost _ hname) fun _ _ _ _ => (h _).runAll fun _ _ _ _ => trivial

end Parts
end Contract
end ClipScript
