/-
One level of the evaluator under a regime.

Every operation of the evaluator keeps two runs alike, and both within the regime, if the evaluators
of their parts do (`Regime.Parts`).  `Regime.Like` says which trees have the same outermost form
with parts that take each other's place, and `Parts.node_of_like` is the statement for them.
-/
import ClipScript.Proofs.Coupling.Evaluation
import ClipScript.Proofs.Regime

namespace ClipScript
namespace Regime

variable {α β : Type} {R : Regime}

/-- Evaluators whose runs are alike on trees and functions that take each other's place. -/
structure Parts (R : Regime) (P Q : Evaluator) : Prop where
  evaluate : ∀ {W z env n n'}, R.zoned W z env → R.node z n n' →
    R.Agrees W (P.evaluate env n) (Q.evaluate env n')
  invoke : ∀ {W f g}, R.function W f g → ∀ args, R.Agrees W (P.invoke f args) (Q.invoke g args)

/-- Statements whose rewritten forms take each other's place, or that are refused alike. -/
structure Statement (R : Regime) (n n' : Node) : Prop where
  span : R.place n.span n'.span
  unchain : SameFault (R.node R.outside) n.unchain n'.unchain

namespace Parts

open Evaluator

variable {P Q : Evaluator} {W : R.World} {z : R.Zone} {env : Env}

theorem inert : R.Parts .inert .inert :=
  ⟨fun _ _ => Simulates.tooDeep, fun _ _ => Simulates.tooDeep⟩

theorem valueOf (h : R.Parts P Q) (henv : R.zoned W z env) {n n' : Node} (hn : R.node z n n') :
    R.Agrees W (valueOf P env n) (valueOf Q env n') :=
  (h.evaluate henv hn).bind fun _ _ _ => Agrees.pure _

/-! ## Scripts -/

theorem runAll (h : R.Parts P Q) {statements statements' : List Node}
    (hstatements : List.Forall₂ R.Statement statements statements') :
    R.Agrees W (runAll P statements) (runAll Q statements') := by
  induction hstatements generalizing W with
  | nil => exact Agrees.pure ()
  | @cons n n' rest rest' hn _ ih =>
    refine (Agrees.moveTo hn.span).bind fun W₁ h₁ _ => ?_
    have hfault := Node.orderly_unchain n
    have hsame := hn.unchain
    generalize n.unchain = r at hfault hsame ⊢
    generalize n'.unchain = r' at hsame ⊢
    cases hsame with
    | error f =>
      exact Simulates.throw
        ⟨rfl, R.fault_of_orderly (hfault f rfl), .some ⟨hn.span, rfl⟩⟩
    | @ok u u' hu =>
      -- the global scope has its zone in whatever world the statement is reached
      have hrun : R.Agrees W₁ (P.evaluate .global u) (Q.evaluate .global u') :=
        fun W₂ _ m n hmn => h.evaluate (R.zoned_global hmn.scopes) hu le_rfl hmn
      refine Agrees.bind (Simulates.locating hrun) fun W₂ _ flow => ?_
      cases flow with
      | proceed v => exact ih
      | leave v => exact Agrees.pure ()

theorem statements_self {source : String} {program : Program} (htext : R.text source)
    (h : Program.ofSource source = .ok program) :
    List.Forall₂ R.Statement program.statements program.statements :=
  List.forall₂_same.mpr fun n hn => ⟨R.place_refl _, R.script htext h n hn⟩

theorem runSource (h : R.Parts P Q) {source : String} (htext : R.text source) :
    R.Agrees W (runSource P source) (runSource Q source) := by
  rw [Evaluator.runSource, Evaluator.runSource]
  cases hread : Program.ofSource source with
  | error e => exact Simulates.throw (.refl (R.unread htext hread))
  | ok program => exact h.runAll (statements_self htext hread)

theorem importNamed (h : R.Parts P Q) {host : Host} (hhost : R.Hosts host) {name : String}
    (hname : R.imported name) :
    R.Agrees W (importNamed host P name) (importNamed host Q name) := by
  have hlocated : R.Simulates W
      (fun _ target target' => target = target' ∧
        ImportTarget.locate host.files host.pluginDir name host.scriptExtension = .ok target)
      (Eval.ofFault (ImportTarget.locate host.files host.pluginDir name host.scriptExtension))
      (Eval.ofFault (ImportTarget.locate host.files host.pluginDir name host.scriptExtension)) := by
    have horderly := ImportTarget.orderly_locate host.files host.pluginDir name host.scriptExtension
    cases hlocate : ImportTarget.locate host.files host.pluginDir name host.scriptExtension with
    | error f => exact Simulates.fail (R.fault_of_orderly (horderly f hlocate))
    | ok target => exact Simulates.pure fun _ _ => ⟨rfl, rfl⟩
  refine hlocated.bind fun W₁ _ target _ htarget => ?_
  obtain ⟨rfl, hlocate⟩ := htarget
  refine Simulates.get_bind fun W₂ _ m n hmn => ?_
  cases target with
  | plugin path =>
    simp only [hmn.plugins]
    split
    · exact Agrees.pure ()
    · cases hload : host.load name path with
      | error f => exact Simulates.fail_bind (hhost.load name path f hload) _ _
      | ok plugin =>
        refine Agrees.modify fun W₂ _ m n hmn =>
          { hmn with plugins := ?_, natives := ?_, registry := ?_ }
        · rw [hmn.plugins]
        · exact hmn.natives.register (hhost.natives name path plugin hload) name
        · exact R.register name plugin hmn.registry
  | script path =>
    simp only [hmn.importing]
    split
    · exact Simulates.fail_bind (R.fault_of_orderly (f := .importCycle name) (.of rfl)) _ _
    · cases hread : host.files.readText path with
      | error e => exact Simulates.fail (R.fault_of_orderly (.of rfl))
      | ok source =>
        have htext := hhost.script hname hlocate hread
        show R.Agrees W₂ (do let program ← Eval.ofError (Program.ofSource source); _)
          (do let program ← Eval.ofError (Program.ofSource source); _)
        cases hsource : Program.ofSource source with
        | error e => exact Simulates.throw (.refl (R.unread htext hsource))
        | ok program =>
          exact Simulates.importing path (h.runAll (statements_self htext hsource))

/-! ## Calls -/

theorem perform (h : R.Parts P Q) {action : Action} (haction : action.Keeps R.fault R.text) :
    R.Agrees W (perform P action) (perform Q action) := by
  induction haction generalizing W with
  | value v => exact Agrees.pure v
  | fault hf => exact Simulates.fail hf
  | message _ ih => exact (Agrees.report _).bind fun _ _ _ => ih
  | warn _ ih => exact (Agrees.warn _).bind fun _ _ _ => ih
  | place _ ih =>
    refine Simulates.get_bind fun W' _ m n hmn => ?_
    rw [R.line hmn.span, hmn.function]
    exact ih _ _
  | @call name args missing next _ _ ihmissing ihnext =>
    simp only [Evaluator.perform]
    refine Simulates.get_bind fun W' _ m n hmn => ?_
    have hfunction := R.function? hmn.scopes .global name
    generalize m.scopes.function? .global name = f at hfunction ⊢
    generalize n.scopes.function? .global name = g at hfunction ⊢
    cases hfunction with
    | none => exact ihmissing
    | some hfg => exact (h.invoke hfg args).bind fun _ _ v => ihnext v
  | run htext _ ih => exact (h.runSource htext).bind fun _ _ _ => ih

theorem entered_eq {f g : UserFunction} (hfg : R.user W f g) (args : ArgList) (s t : Scopes) :
    (t.entered g args).1 = (s.entered f args).1 := by
  obtain ⟨hname, hparams, -⟩ := R.user_eq hfg
  have hbind : g.bind args = f.bind args := by
    rw [← g.bind_bare, ← UserFunction.bare_eq hname (congrArg _ hparams), f.bind_bare]
  have hempty : ∀ (s : Scopes) (home : Env), ((s.addChild home).2.get s.all.size).vars = {} := by
    intro s home
    simp [Scopes.addChild, Scopes.get]
  show ((g.bind args).run.run ((t.addChild g.home).2.get t.all.size).vars).1
    = ((f.bind args).run.run ((s.addChild f.home).2.get s.all.size).vars).1
  rw [hempty, hempty, hbind]

theorem userBody (h : R.Parts P Q) {f g : UserFunction} (hfg : R.user W f g) (args : ArgList)
    {m n : Machine} (hmn : R.Machines W m n) :
    R.Follows (fun _ => Eq) W
      ((P.userBody f args (m.scopes.addChild f.home).1).outcome
        { m with scopes := (m.scopes.addChild f.home).2 })
      ((Q.userBody g args (n.scopes.addChild g.home).1).outcome
        { n with scopes := (n.scopes.addChild g.home).2 }) := by
  obtain ⟨z, W', hW, hzoned, hbody, hscopes⟩ := R.enter args hmn.scopes hfg
  have henv : (n.scopes.addChild g.home).1 = (m.scopes.addChild f.home).1 := by
    rw [Scopes.addChild, Scopes.addChild, R.size hmn.scopes, (R.user_eq hfg).2.2]
  have hentered : R.Machines W' { m with scopes := (m.scopes.entered f args).2 }
      { n with scopes := (n.scopes.entered g args).2 } := { hmn with scopes := hscopes }
  rw [Evaluator.userBody, Evaluator.userBody, Eval.outcome_bind, Eval.outcome_bind,
    Eval.outcome_bindIn, Eval.outcome_bindIn, entered_eq hfg args m.scopes, henv]
  cases hresult : (m.scopes.entered f args).1 with
  | error fault =>
    have hadds : (f.bind args).Adds fun _ => True := UserFunction.adds_bind args fun _ _ => trivial
    exact .error hW (.refl (R.fault_of_orderly ((hadds _).2 fault hresult))) hentered
  | ok _ =>
    have hrun : R.Agrees W'
        (do return (← P.evaluate (m.scopes.addChild f.home).1 f.body).result)
        (do return (← Q.evaluate (m.scopes.addChild f.home).1 g.body).result) :=
      (h.evaluate hzoned hbody).bind fun _ _ _ => Agrees.pure _
    exact (hrun le_rfl hentered).earlier hW

theorem callUser (h : R.Parts P Q) {f g : UserFunction} (hfg : R.user W f g) (args : ArgList) :
    R.Agrees W (callUser P f args) (callUser Q g args) := by
  intro W₁ h₁ m n hmn
  have hfg := R.user_mono h₁ hfg
  obtain ⟨hname, -, hhome⟩ := R.user_eq hfg
  have hcontains : n.scopes.contains g.home.here = m.scopes.contains f.home.here := by
    rw [Scopes.contains, Scopes.contains, R.size hmn.scopes, hhome]
  rw [outcome_callUser, outcome_callUser, hcontains, ← hname]
  split
  · exact Follows.activation hmn.span hmn.function
      (h.userBody hfg args (m := { m with function := some f.name })
        (n := { n with function := some f.name }) { hmn with function := rfl })
  · exact .error le_rfl (.refl (R.fault_of_orderly (.of rfl))) hmn

theorem call (h : R.Parts P Q) {f g : Function} (hfg : R.function W f g) (args : ArgList) :
    R.Agrees W (call P f args) (call Q g args) := by
  cases hfg with
  | core hnative => exact Simulates.activation _ (h.perform (hnative args))
  | user huser => exact h.callUser huser args

/-! ## Names, variables and arguments -/

theorem var?_eq {m n : Machine} (hmn : R.Machines W m n) (env : Env) (name : String) :
    m.scopes.var? env name = n.scopes.var? env name := by
  rw [Scopes.var?, Scopes.var?, R.vars hmn.scopes]

theorem value?_eq {m n : Machine} (hmn : R.Machines W m n) (env : Env) (name : String) :
    m.scopes.value? env name = n.scopes.value? env name := by
  rw [Scopes.value?, Scopes.value?, var?_eq hmn]

theorem isSome_function? {m n : Machine} (hmn : R.Machines W m n) (env : Env) (name : String) :
    (m.scopes.function? env name).isSome = (n.scopes.function? env name).isSome := by
  have hfunction := R.function? hmn.scopes env name
  generalize m.scopes.function? env name = f at hfunction ⊢
  generalize n.scopes.function? env name = g at hfunction ⊢
  cases hfunction <;> rfl

/-- An argument keeps its label. -/
def Argument (R : Regime) (z : R.Zone) (a b : Labelled Node) : Prop :=
  a.label = b.label ∧ R.node z a.content b.content

/-- An argument is refused only where the regime allows for it. -/
theorem push {args : ArgList} {a : Labelled Node} {rest : List (Labelled Node)}
    (horder : R.fault .argumentOrder ∨ args.Admits (a :: rest)) (v : Value) :
    R.Simulates W
      (fun _ more more' => more = more' ∧ (R.fault .argumentOrder ∨ more.Admits rest))
      (Eval.ofFault (args.push a.label v)) (Eval.ofFault (args.push a.label v)) := by
  rcases horder with hallowed | hadmits
  · have hpush : ∀ f, args.push a.label v = .error f → f = .argumentOrder := by
      intro f hf
      unfold ArgList.push at hf
      grind
    cases hresult : args.push a.label v with
    | error f => exact Simulates.fail (hpush f hresult ▸ hallowed)
    | ok more => exact Simulates.pure fun _ _ => ⟨rfl, .inl hallowed⟩
  · obtain ⟨more, hmore, hrest⟩ := hadmits.push v
    rw [hmore]
    exact Simulates.pure fun _ _ => ⟨rfl, .inr hrest⟩

theorem arguments (h : R.Parts P Q) (henv : R.zoned W z env) {nodes nodes' : List (Labelled Node)}
    (hnodes : List.Forall₂ (Argument R z) nodes nodes') {args : ArgList}
    (horder : R.fault .argumentOrder ∨ args.Admits nodes) :
    R.Agrees W (arguments P env nodes args) (arguments Q env nodes' args) := by
  induction hnodes generalizing args W with
  | nil => exact Agrees.pure args
  | cons ha _ ih =>
    obtain ⟨hlabel, hcontent⟩ := ha
    refine (h.valueOf henv hcontent).bind fun W₁ h₁ v => ?_
    rw [← hlabel]
    refine (push horder v).bind fun W₂ h₂ more _ hmore => ?_
    rw [← hmore.1]
    exact ih (R.zoned_mono (h₁.trans h₂) henv) hmore.2

theorem functionNamed (env : Env) (name : String) :
    R.Simulates W R.function (functionNamed env name) (functionNamed env name) := by
  refine Simulates.get_bind fun W' _ m n hmn => ?_
  have hfunction := R.function? hmn.scopes env name
  simp only [value?_eq hmn env name]
  generalize m.scopes.function? env name = f at hfunction ⊢
  generalize n.scopes.function? env name = g at hfunction ⊢
  cases hfunction with
  | some hfg => exact Simulates.pure fun _ hW => function_mono hW hfg
  | none =>
    cases n.scopes.value? env name with
    | some v => exact Simulates.fail (R.fault_of_orderly (.of rfl))
    | none => exact Simulates.fail (R.fault_of_orderly (.of rfl))

theorem callTo (h : R.Parts P Q) (henv : R.zoned W z env) {nodes nodes' : List (Labelled Node)}
    (hnodes : List.Forall₂ (Argument R z) nodes nodes')
    (horder : R.fault .argumentOrder ∨ Labelled.Ordered nodes) (callee : Callee) :
    R.Agrees W (callTo P env callee nodes) (callTo Q env callee nodes') := by
  refine (h.arguments henv hnodes (horder.imp_right ArgList.admits_empty)).bind
    fun W₁ _ args => ?_
  cases callee with
  | named name => exact (functionNamed env name).bind fun _ _ f g hfg => h.invoke hfg args
  | plugin owner function =>
    refine Simulates.get_bind fun W₂ _ m n hmn => ?_
    rw [← hmn.plugins]
    have horderly := Registry.orderly_resolve m.plugins owner function
    cases hresolve : m.plugins.resolve owner function with
    | error f => exact Simulates.fail_bind (R.fault_of_orderly (horderly f hresolve)) _ _
    | ok native => exact h.invoke (.core (hmn.natives.resolve hresolve)) args

theorem lookup (h : R.Parts P Q) (env : Env) (name : String) :
    R.Agrees W (lookup P env name) (lookup Q env name) := by
  refine Simulates.get_bind fun W' _ m n hmn => ?_
  have hfunction := R.function? hmn.scopes env name
  simp only [value?_eq hmn env name]
  generalize m.scopes.function? env name = f at hfunction ⊢
  generalize n.scopes.function? env name = g at hfunction ⊢
  cases n.scopes.value? env name with
  | some v => exact Agrees.pure v
  | none =>
    cases hfunction with
    | some hfg => exact h.invoke hfg .empty
    | none => exact Simulates.fail (R.fault_of_orderly (.of rfl))

theorem namesPlugin (env : Env) (name : String) :
    R.Agrees W (namesPlugin env name) (namesPlugin env name) := by
  refine Simulates.get_bind fun W' _ m n hmn => Simulates.pure fun _ _ => ?_
  rw [hmn.plugins, value?_eq hmn, ← Option.not_isSome, ← Option.not_isSome, ← Option.not_isSome,
    isSome_function? hmn]

theorem store (henv : R.zoned W z env) {name : String} (hname : R.bound z name) (value : Value) :
    R.Agrees W (store env name value) (store env name value) := by
  rw [Evaluator.store]
  split
  · exact Simulates.fail_bind (R.fault_of_orderly (f := .unstorable value.kind) (.of rfl)) _ _
  · exact Agrees.modify fun W' hW m n hmn =>
      { hmn with scopes := R.assign value hmn.scopes (R.zoned_mono hW henv) hname }

/-- Targets that take each other's place: the same name, which may be bound, or no name and the same
complaint. -/
structure Target (R : Regime) (z : R.Zone) (n n' : Node) : Prop where
  name : n.asIdentifier? = n'.asIdentifier?
  kind : n.kindName = n'.kindName
  bound : ∀ name ∈ n.asIdentifier?, R.bound z name
  node : R.node z n n'

theorem storing (henv : R.zoned W z env) {name : String} (hname : R.bound z name) (v : Value) :
    R.Agrees W (do Evaluator.store env name v; return v)
      (do Evaluator.store env name v; return v) :=
  (store henv hname v).bind fun _ _ _ => Agrees.pure v

theorem assign (h : R.Parts P Q) (henv : R.zoned W z env) {target target' value value' : Node}
    {op : AssignOp} (hop : op ≠ .chain) (htarget : Target R z target target')
    (hvalue : R.node z value value') :
    R.Agrees W (Evaluator.assign P env target op value)
      (Evaluator.assign Q env target' op value') := by
  have hbound := htarget.bound
  rw [Evaluator.assign, Evaluator.assign, htarget.kind]
  rw [htarget.name] at hbound ⊢
  cases htarget' : target'.asIdentifier? with
  | none => exact Simulates.fail (R.fault_of_orderly (.of rfl))
  | some name =>
    have hname := hbound name htarget'
    cases op with
    | chain => exact absurd rfl hop
    | assign =>
      exact (h.valueOf henv hvalue).bind fun W₁ h₁ v => storing (R.zoned_mono h₁ henv) hname v
    | update op =>
      refine (h.valueOf henv htarget.node).bind fun W₁ h₁ current => ?_
      have henv₁ := R.zoned_mono h₁ henv
      refine (h.valueOf henv₁ hvalue).bind fun W₂ h₂ operand => ?_
      have henv₂ := R.zoned_mono h₂ henv₁
      refine (Agrees.ofFault (Value.orderly_binary _ current operand)).bind fun W₃ h₃ v => ?_
      exact storing (R.zoned_mono h₃ henv₂) hname v

theorem assignChain (h : R.Parts P Q) (henv : R.zoned W z env) {target target' link link' : Node}
    (htarget : Target R z target target')
    (hlink : SameFault (R.node z) (Node.unchainAs link.span target link)
      (Node.unchainAs link'.span target' link')) :
    R.Agrees W (Evaluator.assign P env target .chain link)
      (Evaluator.assign Q env target' .chain link') := by
  have hbound := htarget.bound
  rw [Evaluator.assign, Evaluator.assign, htarget.kind]
  rw [htarget.name] at hbound ⊢
  cases htarget' : target'.asIdentifier? with
  | none => exact Simulates.fail (R.fault_of_orderly (.of rfl))
  | some name =>
    refine (Simulates.ofFault hlink (Node.orderly_unchainAs _ _ _)).bind fun W₁ h₁ _ _ hcall => ?_
    have henv₁ := R.zoned_mono h₁ henv
    exact (h.valueOf henv₁ hcall).bind fun W₂ h₂ v =>
      storing (R.zoned_mono h₂ henv₁) (hbound name htarget') v

theorem define (henv : R.zoned W z env) {name : String} (hname : R.bound z name)
    {params : List Param} (horder : R.fault (.parameterOrder name) ∨ Param.Ordered params)
    {body body' : Node} (huser : R.user W ⟨name, params, body, env⟩ ⟨name, params, body', env⟩) :
    R.Agrees W (Evaluator.define env name params body)
      (Evaluator.define env name params body') := by
  let f : UserFunction := { name, params, body, home := env }
  let g : UserFunction := { name, params, body := body', home := env }
  have hcheck : R.Agrees W (Eval.ofFault f.checkOrder) (Eval.ofFault g.checkOrder) := by
    show R.Agrees W (Eval.ofFault f.checkOrder) (Eval.ofFault f.checkOrder)
    rcases horder with hallowed | hordered
    · rw [UserFunction.checkOrder]
      split
      · exact Simulates.fail hallowed
      · exact Agrees.pure ()
    · rw [(UserFunction.checkOrder_eq_ok_iff f).mpr hordered]
      exact Agrees.pure ()
  refine hcheck.bind fun W₁ h₁ _ => ?_
  have hstore : ∀ W', W ≤ W' → R.Agrees W' (Eval.modifyScopes fun s => s.define env name (.user f))
      (Eval.modifyScopes fun s => s.define env name (.user g)) :=
    fun W' h' => Agrees.modify fun W'' h'' m n hmn =>
      have hW := h'.trans h''
      { hmn with
        scopes := R.define hmn.scopes (R.zoned_mono hW henv) hname (R.user_mono hW huser) }
  refine Simulates.get_bind fun W₂ h₂ m n hmn => ?_
  simp only [value?_eq hmn, isSome_function? hmn]
  split
  · exact (Agrees.warn _).bind fun W₃ h₃ _ => hstore W₃ ((h₁.trans h₂).trans h₃)
  · exact hstore W₂ (h₁.trans h₂)

theorem setDefault (h : R.Parts P Q) (henv : R.zoned W z env) (name : String)
    {value value' : Node} (hvalue : R.node z value value') :
    R.Agrees W (setDefault P env name value) (setDefault Q env name value') := by
  rw [Evaluator.setDefault, Evaluator.setDefault]
  split
  · exact Simulates.fail_bind (R.fault_of_orderly (f := .defaultOutsideFunction) (.of rfl)) _ _
  · refine Simulates.get_bind fun W₁ h₁ m n hmn => ?_
    have henv₁ := R.zoned_mono h₁ henv
    have hbound : ∀ v, m.scopes.var? env name = some v → R.bound z name :=
      fun v => R.bound_of_var hmn.scopes henv₁
    rw [var?_eq hmn] at hbound ⊢
    split
    · next hvar =>
      refine (h.valueOf henv₁ hvalue).bind fun W₂ h₂ v => ?_
      exact store (R.zoned_mono h₂ henv₁) (hbound _ hvar) v
    · exact Agrees.pure ()
    · exact Simulates.fail (R.fault_of_orderly (.of rfl))
    · exact Simulates.fail (R.fault_of_orderly (.of rfl))

theorem sequence (h : R.Parts P Q) (henv : R.zoned W z env) {body body' : List Node}
    (hbody : List.Forall₂ (R.node z) body body') (last : Value) :
    R.Agrees W (sequence P env body last) (sequence Q env body' last) := by
  induction hbody generalizing last W with
  | nil => exact Agrees.pure _
  | cons hn _ ih =>
    refine (h.evaluate henv hn).bind fun W₁ h₁ flow => ?_
    cases flow with
    | proceed v => exact ih (R.zoned_mono h₁ henv) v
    | leave v => exact Agrees.pure _

end Parts

/-! ## Nodes -/

/-- Trees of the same outermost form whose parts take each other's place, and that do what the
regime allows.  Where a chain is replaced by a call on the fly, the two calls take each other's
place, or there is the same complaint. -/
inductive Like (R : Regime) (z : R.Zone) : Node → Node → Prop where
  | leaf {s s' : Span} (v : Value) : R.place s s' → Like R z (.leaf s v) (.leaf s' v)
  | sequence {s s' : Span} {body body' : List Node} : R.place s s' →
      List.Forall₂ (R.node z) body body' → Like R z (.sequence s body) (.sequence s' body')
  | assign {s s' : Span} {target target' value value' : Node} {op : AssignOp} :
      R.place s s' → op ≠ .chain → Parts.Target R z target target' → R.node z value value' →
      Like R z (.assign s target op value) (.assign s' target' op value')
  | assignChain {s s' : Span} {target target' link link' : Node} : R.place s s' →
      Parts.Target R z target target' →
      SameFault (R.node z) (Node.unchainAs link.span target link)
        (Node.unchainAs link'.span target' link') →
      Like R z (.assign s target .chain link) (.assign s' target' .chain link')
  | binary {s s' : Span} {lhs lhs' rhs rhs' : Node} (op : BinaryOp) : R.place s s' →
      R.node z lhs lhs' → R.node z rhs rhs' →
      Like R z (.binary s op lhs rhs) (.binary s' op lhs' rhs')
  | unary {s s' : Span} {operand operand' : Node} (op : UnaryOp) : R.place s s' →
      R.node z operand operand' → Like R z (.unary s op operand) (.unary s' op operand')
  | ternary {s s' : Span} {condition condition' yes yes' no no' : Node} : R.place s s' →
      R.node z condition condition' → R.node z yes yes' → R.node z no no' →
      Like R z (.ternary s condition yes no) (.ternary s' condition' yes' no')
  | call {s s' : Span} {args args' : List (Labelled Node)} (callee : Callee) : R.place s s' →
      R.fault .argumentOrder ∨ Labelled.Ordered args →
      List.Forall₂ (Parts.Argument R z) args args' →
      Like R z (.call s callee args) (.call s' callee args')
  | chain {s s' : Span} {value value' link link' : Node} : R.place s s' →
      value.asIdentifier? = value'.asIdentifier? →
      (∀ owner ∈ value.asIdentifier?,
        SameFault (R.node z) (Node.pluginCall owner s link) (Node.pluginCall owner s' link')) →
      SameFault (R.node z) (Node.unchainAs s value link) (Node.unchainAs s' value' link') →
      Like R z (.chain s value link) (.chain s' value' link')
  | functionDef {s s' : Span} {name : String} {params : List Param} {body body' : Node} :
      R.place s s' → R.bound z name → R.fault (.parameterOrder name) ∨ Param.Ordered params →
      (∀ W env, R.zoned W z env →
        R.user W ⟨name, params, body, env⟩ ⟨name, params, body', env⟩) →
      Like R z (.functionDef s name params body) (.functionDef s' name params body')
  | defaultValue {s s' : Span} {value value' : Node} (name : String) : R.place s s' →
      R.node z value value' → Like R z (.defaultValue s name value) (.defaultValue s' name value')
  | returnValue {s s' : Span} {value value' : Option Node} : R.place s s' →
      Option.Rel (R.node z) value value' → Like R z (.returnValue s value) (.returnValue s' value')
  | ifElse {s s' : Span} {condition condition' yes yes' : Node} {no no' : Option Node} :
      R.place s s' → R.node z condition condition' → R.node z yes yes' →
      Option.Rel (R.node z) no no' →
      Like R z (.ifElse s condition yes no) (.ifElse s' condition' yes' no')
  | importName {s s' : Span} {name : String} : R.place s s' → R.imported name →
      Like R z (.importName s name) (.importName s' name)

theorem Parts.node_of_like {P Q : Evaluator} {host : Host} {W : R.World} {z : R.Zone} {env : Env}
    {n n' : Node} (h : R.Parts P Q) (hhost : R.Hosts host) (henv : R.zoned W z env)
    (hn : R.Like z n n') :
    R.Agrees W (Evaluator.node host P env n) (Evaluator.node host Q env n') := by
  have proceed : ∀ {W : R.World} {x y : Eval Value}, R.Agrees W x y →
      R.Agrees W (do return Flow.proceed (← x)) (do return Flow.proceed (← y)) :=
    fun hxy => hxy.bind fun _ _ _ => Agrees.pure _
  have nothing : ∀ {W : R.World} {x y : Eval Unit}, R.Agrees W x y →
      R.Agrees W (do x; return Flow.proceed .void) (do y; return Flow.proceed .void) :=
    fun hxy => hxy.bind fun _ _ _ => Agrees.pure _
  cases hn with
  | leaf v hs =>
    refine (Agrees.moveTo hs).bind fun W₁ h₁ _ => ?_
    cases v with
    | identifier name => exact proceed (h.lookup env name)
    | _ => exact Agrees.pure _
  | sequence hs hbody =>
    exact (Agrees.moveTo hs).bind fun W₁ h₁ _ => h.sequence (R.zoned_mono h₁ henv) hbody .void
  | assign hs hop htarget hvalue =>
    exact (Agrees.moveTo hs).bind fun W₁ h₁ _ =>
      proceed (h.assign (R.zoned_mono h₁ henv) hop htarget hvalue)
  | assignChain hs htarget hlink =>
    exact (Agrees.moveTo hs).bind fun W₁ h₁ _ =>
      proceed (h.assignChain (R.zoned_mono h₁ henv) htarget hlink)
  | binary op hs hlhs hrhs =>
    refine (Agrees.moveTo hs).bind fun W₁ h₁ _ => ?_
    have henv₁ := R.zoned_mono h₁ henv
    refine (h.valueOf henv₁ hlhs).bind fun W₂ h₂ v => ?_
    refine (h.valueOf (R.zoned_mono h₂ henv₁) hrhs).bind fun W₃ _ w => ?_
    refine (Agrees.moveTo hs).bind fun _ _ _ => ?_
    exact proceed (Agrees.ofFault (Value.orderly_binary op v w))
  | unary op hs hoperand =>
    refine (Agrees.moveTo hs).bind fun W₁ h₁ _ => ?_
    refine (h.valueOf (R.zoned_mono h₁ henv) hoperand).bind fun W₂ _ v => ?_
    refine (Agrees.moveTo hs).bind fun _ _ _ => ?_
    exact proceed (Agrees.ofFault (Value.orderly_unary op v))
  | ternary hs hcondition hyes hno =>
    refine (Agrees.moveTo hs).bind fun W₁ h₁ _ => ?_
    have henv₁ := R.zoned_mono h₁ henv
    refine (h.valueOf henv₁ hcondition).bind fun W₂ h₂ v => ?_
    have henv₂ := R.zoned_mono h₂ henv₁
    split
    · exact proceed (h.valueOf henv₂ hyes)
    · exact proceed (h.valueOf henv₂ hno)
    · exact Simulates.fail (R.fault_of_orderly (.of rfl))
  | call callee hs horder hargs =>
    exact (Agrees.moveTo hs).bind fun W₁ h₁ _ =>
      proceed (h.callTo (R.zoned_mono h₁ henv) hargs horder callee)
  | @chain s s' value value' link link' hs hhead hplugin hcall =>
    refine (Agrees.moveTo hs).bind fun W₁ h₁ _ => ?_
    have hevaluate : ∀ {W' : R.World}, W ≤ W' → ∀ {r r' : Except Fault Node},
        SameFault (R.node z) r r' → Orderly r →
        R.Agrees W' (do P.evaluate env (← Eval.ofFault r))
          (do Q.evaluate env (← Eval.ofFault r')) :=
      fun h' _ _ hr horderly => (Simulates.ofFault hr horderly).bind fun _ h'' _ _ hcall =>
        h.evaluate (R.zoned_mono (h'.trans h'') henv) hcall
    dsimp only
    rw [← hhead]
    split
    · next name hname =>
      refine (namesPlugin env name).bind fun W₂ h₂ isPlugin => ?_
      cases isPlugin with
      | true =>
        exact hevaluate (h₁.trans h₂) (hplugin name hname) (Node.orderly_pluginCall _ _ _)
      | false => exact hevaluate (h₁.trans h₂) hcall (Node.orderly_unchainAs _ _ _)
    · exact hevaluate h₁ hcall (Node.orderly_unchainAs _ _ _)
  | functionDef hs hname horder huser =>
    refine (Agrees.moveTo hs).bind fun W₁ h₁ _ => ?_
    have henv₁ := R.zoned_mono h₁ henv
    exact nothing (define henv₁ hname horder (huser W₁ env henv₁))
  | defaultValue name hs hvalue =>
    exact (Agrees.moveTo hs).bind fun W₁ h₁ _ =>
      nothing (h.setDefault (R.zoned_mono h₁ henv) name hvalue)
  | returnValue hs hvalue =>
    refine (Agrees.moveTo hs).bind fun W₁ h₁ _ => ?_
    cases hvalue with
    | none => exact Agrees.pure _
    | some hvalue =>
      exact (h.valueOf (R.zoned_mono h₁ henv) hvalue).bind fun _ _ _ => Agrees.pure _
  | ifElse hs hcondition hyes hno =>
    refine (Agrees.moveTo hs).bind fun W₁ h₁ _ => ?_
    have henv₁ := R.zoned_mono h₁ henv
    refine (h.valueOf henv₁ hcondition).bind fun W₂ h₂ v => ?_
    have henv₂ := R.zoned_mono h₂ henv₁
    split
    · exact h.evaluate henv₂ hyes
    · cases hno with
      | none => exact Agrees.pure _
      | some hno => exact h.evaluate henv₂ hno
    · exact Simulates.fail (R.fault_of_orderly (.of rfl))
  | importName hs hname =>
    exact (Agrees.moveTo hs).bind fun _ _ _ => nothing (h.importNamed hhost hname)

end Regime
end ClipScript
