/-
Runs of trees that group calls of a plugin differently.

The two runs can be told apart only where a chain on the name `p` does not mean the plugin.  So the
regime keeps `p` free: a scope in which regrouped trees are evaluated has neither a variable nor a
function of that name.  Such scopes are `guarded`, the global one among them.  A function whose body
is the same on both sides need not care, since whatever it binds is bound in the scope of its own
call.  Those scopes are `foreign`, and in them a tree takes its own place only.

A chain takes the evaluator one level more than the call it stands for.  So the second run may need
twice the depth of the first, whichever of the two has the chains.
-/
import ClipScript.Proofs.Coupling.Tables
import ClipScript.Proofs.Node.Regrouped
import ClipScript.Proofs.Regime.Evaluation
import ClipScript.Proofs.Storable

namespace ClipScript

theorem Scopes.Alike.imp {function function' : Function → Function → Prop} {first : ScopeId}
    {s t : Scopes} (h : Alike function first s t) (himp : ∀ f g, function f g → function' f g) :
    Alike function' first s t := by
  refine ⟨h.size, h.first_le, fun id name => ?_, h.vars⟩
  have hfunctions := h.functions id name
  generalize (s.get id).functions.find? name = f at hfunctions ⊢
  generalize (t.get id).functions.find? name = g at hfunctions ⊢
  cases hfunctions with
  | none => exact .none
  | some hfg => exact .some (himp _ _ hfg)

/-- The scope has neither a variable nor a function of the name. -/
structure Scope.Lacks (scope : Scope) (name : String) : Prop where
  vars : scope.vars.find? name = none
  functions : scope.functions.find? name = none

/-- A text that, if it is a script, binds `p` in no scope but those of its own functions. -/
def TextSpares (p source : String) : Prop :=
  ∀ program, Program.ofSource source = .ok program → ∀ n ∈ program.statements, n.Spares p

/-- Native functions that run no other texts. -/
def Native.Spares (p : String) : Native → Prop := Native.Keeps (fun _ => True) (TextSpares p)

namespace Regrouping

open Node (Regrouped)

inductive Zone where
  | guarded | foreign
deriving DecidableEq, Repr

/-- The zones of the scopes that are in use. -/
structure World where
  zone? : ScopeId → Option Zone

instance : Preorder World where
  le W W' := ∀ id z, W.zone? id = some z → W'.zone? id = some z
  le_refl _ _ _ h := h
  le_trans _ _ _ h h' id z hz := h' id z (h id z hz)

/-- The world in which one more scope is in use. -/
def World.enter (W : World) (id : ScopeId) (z : Zone) : World :=
  ⟨fun other => if other = id then some z else W.zone? other⟩

theorem World.zone?_enter_self (W : World) (id : ScopeId) (z : Zone) :
    (W.enter id z).zone? id = some z :=
  if_pos rfl

theorem World.zone?_enter_of_ne (W : World) {id other : ScopeId} (h : other ≠ id) (z : Zone) :
    (W.enter id z).zone? other = W.zone? other :=
  if_neg h

theorem World.le_enter {W : World} {id : ScopeId} (h : W.zone? id = none) (z : Zone) :
    W ≤ W.enter id z := by
  intro other z' hz'
  have hne : other ≠ id := by
    rintro rfl
    rw [h] at hz'
    cases hz'
  rw [W.zone?_enter_of_ne hne]
  exact hz'

def node (p : String) : Zone → Node → Node → Prop
  | .guarded => Regrouped p (.tree .ready)
  | .foreign => Eq

def bound (p : String) : Zone → String → Prop
  | .guarded, name => name ≠ p
  | .foreign, _ => True

/-- In a guarded scope all scopes around it are guarded too, as functions are looked up in them. -/
def zoned (W : World) : Zone → Env → Prop
  | .guarded, env => ∀ id ∈ env.chain, W.zone? id = some .guarded
  | .foreign, env => W.zone? env.here = some .foreign

/-- Functions with the same body, or with regrouped ones if they run in guarded scopes. -/
structure User (p : String) (W : World) (f g : UserFunction) : Prop where
  name : f.name = g.name
  params : f.params = g.params
  home : f.home = g.home
  body : f.body = g.body ∨ Regrouped p (.tree .ready) f.body g.body ∧
    (∀ q ∈ f.params, q.name ≠ p) ∧ zoned W .guarded f.home

/-- Stores with the same variables, in which guarded scopes lack `p`. -/
structure Stores (p : String) (W : World) (s t : Scopes) : Prop where
  alike : s.Alike (Function.Akin (Native.Spares p) (User p W)) 0 t
  used : ∀ id, s.contains id = false → W.zone? id = none
  global : W.zone? 0 = some .guarded
  lacks : ∀ id, W.zone? id = some .guarded → (s.get id).Lacks p

variable {p : String} {W W' : World} {s t : Scopes} {f g : UserFunction} {env : Env}

theorem zoned_mono (h : W ≤ W') {z : Zone} (henv : zoned W z env) : zoned W' z env := by
  cases z with
  | guarded => exact fun id hid => h id _ (henv id hid)
  | foreign => exact h _ _ henv

theorem User.mono (h : W ≤ W') (hfg : User p W f g) : User p W' f g := by
  refine ⟨hfg.name, hfg.params, hfg.home, hfg.body.imp_right ?_⟩
  rintro ⟨hbody, hparams, hhome⟩
  exact ⟨hbody, hparams, zoned_mono h hhome⟩

theorem User.same (W : World) (f : UserFunction) : User p W f f := ⟨rfl, rfl, rfl, .inl rfl⟩

namespace Stores

theorem mono (h : Stores p W s t) (hW : W ≤ W') :
    s.Alike (Function.Akin (Native.Spares p) (User p W')) 0 t := by
  refine h.alike.imp fun f g hfg => ?_
  cases hfg with
  | core hnative => exact .core hnative
  | user huser => exact .user (huser.mono hW)

/-- A change to one scope that keeps `p` out of it if it is guarded. -/
theorem modify (h : Stores p W s t) {here : ScopeId} {change change' : Scope → Scope}
    (halike : (s.modify here change).Alike (Function.Akin (Native.Spares p) (User p W)) 0
      (t.modify here change'))
    (hlacks : W.zone? here = some .guarded → (change (s.get here)).Lacks p) :
    Stores p W (s.modify here change) (t.modify here change') := by
  refine ⟨halike, fun id hid => h.used id ?_, h.global, fun id hid => ?_⟩
  · rwa [Scopes.contains_modify] at hid
  · rw [Scopes.get_modify]
    split
    · next heq => exact hlacks (heq.1 ▸ hid)
    · exact h.lacks id hid

/-- The name that may be bound is not `p` if the scope is guarded. -/
theorem ne_of_bound {z : Zone} {name : String} (henv : zoned W z env) (hname : bound p z name)
    (hguarded : W.zone? env.here = some .guarded) : p ≠ name := by
  cases z with
  | guarded => exact Ne.symm hname
  | foreign =>
    have hforeign : W.zone? env.here = some .foreign := henv
    rw [hguarded] at hforeign
    cases hforeign

theorem assign (h : Stores p W s t) {z : Zone} {name : String} (henv : zoned W z env)
    (hname : bound p z name) (v : Value) :
    Stores p W (s.assign env name v) (t.assign env name v) := by
  refine h.modify (h.alike.changeVars env.here fun vars => vars.assign name v) fun hguarded => ?_
  have hlacks := h.lacks env.here hguarded
  refine ⟨?_, hlacks.functions⟩
  rw [Variables.find?_assign_of_ne _ _ (ne_of_bound henv hname hguarded)]
  exact hlacks.vars

theorem define (h : Stores p W s t) {z : Zone} {name : String} (henv : zoned W z env)
    (hname : bound p z name) (hfg : User p W f g) :
    Stores p W (s.define env name (.user f)) (t.define env name (.user g)) := by
  refine h.modify (h.alike.define env name (.user hfg)) fun hguarded => ?_
  have hlacks := h.lacks env.here hguarded
  refine ⟨hlacks.vars, ?_⟩
  rw [Table.find?_insert_of_ne _ _ (ne_of_bound henv hname hguarded)]
  exact hlacks.functions

theorem bound_of_var (h : Stores p W s t) {z : Zone} {name : String} {v : Variable}
    (henv : zoned W z env) (hv : s.var? env name = some v) : bound p z name := by
  cases z with
  | foreign => trivial
  | guarded =>
    rintro rfl
    have hvars := (h.lacks env.here (henv _ List.mem_cons_self)).vars
    rw [Scopes.var?, hvars] at hv
    cases hv

theorem none_of_guarded (h : Stores p W s t) (henv : zoned W .guarded env) :
    s.value? env p = none ∧ s.function? env p = none := by
  refine ⟨?_, ?_⟩
  · rw [Scopes.value?, Scopes.var?, (h.lacks env.here (henv _ List.mem_cons_self)).vars]
    rfl
  · rw [Scopes.function?, List.findSome?_eq_none_iff]
    exact fun id hid => (h.lacks id (henv id hid)).functions

theorem zone?_size (h : Stores p W s t) : W.zone? s.all.size = none :=
  h.used _ (by simp [Scopes.contains])

/-- A call enters a scope of its own, of whichever zone, if its arguments keep `p` out of a guarded
one. -/
theorem entered (h : Stores p W s t) (hfg : User p W f g) (args : ArgList) (z : Zone)
    (hparams : z = .guarded → ∀ q ∈ f.params, q.name ≠ p) :
    Stores p (W.enter s.all.size z) (s.entered f args).2 (t.entered g args).2 := by
  have hle := World.le_enter h.zone?_size z
  have hempty : ∀ (s : Scopes) (home : Env), (s.addChild home).2.get s.all.size = {} := by
    intro s home
    rw [Scopes.get_addChild, Scopes.get, Array.getD_eq_getD_getElem?,
      Array.getElem?_eq_none (Nat.le_refl _)]
    rfl
  have hbind : g.bind args = f.bind args := by
    rw [← g.bind_bare, ← UserFunction.bare_eq hfg.name (congrArg _ hfg.params), f.bind_bare]
  have hentered : ∀ (s : Scopes) (k : UserFunction), (s.entered k args).2
      = (s.addChild k.home).2.modify s.all.size
          fun scope => { scope with vars := ((k.bind args).run.run {}).2 } := by
    intro s k
    show (s.addChild k.home).2.modify s.all.size (fun scope =>
      { scope with vars := ((k.bind args).run.run ((s.addChild k.home).2.get s.all.size).vars).2 })
        = _
    rw [hempty]
  have hchild := (h.mono hle).addChild f.home
  rw [hentered, hentered, hbind, ← hfg.home, ← h.alike.size]
  refine ⟨hchild.changeVars _ fun _ => _, fun id hid => ?_, ?_, fun id hid => ?_⟩
  · rw [Scopes.contains_modify, Scopes.contains, Scopes.size_addChild, decide_eq_false_iff_not]
      at hid
    have hbehind : s.all.size < id := Nat.not_lt.mp hid
    rw [World.zone?_enter_of_ne _ (Nat.ne_of_gt hbehind)]
    exact h.used id (decide_eq_false (Nat.lt_asymm hbehind))
  · exact hle 0 _ h.global
  · rw [Scopes.get_modify]
    split
    · next heq =>
      obtain ⟨rfl, -⟩ := heq
      rw [World.zone?_enter_self] at hid
      rw [hempty]
      refine ⟨?_, rfl⟩
      have hadds : (f.bind args).Adds (· ≠ p) :=
        UserFunction.adds_bind args (hparams (Option.some.inj hid))
      cases hfound : ((f.bind args).run.run {}).2.find? p with
      | none => rfl
      | some v =>
        rcases (hadds {}).1 p v hfound with hne | ⟨old, hold⟩
        · exact absurd rfl hne
        · cases hold
    · next hne =>
      have hother : id ≠ s.all.size := fun heq => hne ⟨heq, by simp [Scopes.contains]⟩
      rw [World.zone?_enter_of_ne _ hother] at hid
      rw [Scopes.get_addChild]
      exact h.lacks id hid

end Stores

/-- Two runs of regrouped trees where `p` is a plugin. -/
def regime (p : String) : Regime where
  World := World
  Zone := Zone
  outside := .guarded
  slack := True
  fault _ := True
  text := TextSpares p
  imported _ := True
  place := Span.SameStart
  node := node p
  bound := bound p
  zoned := zoned
  user := User p
  registry r := r.contains p
  scopes := Stores p
  place_refl := Span.SameStart.refl
  line h := h.line
  fault_of_orderly _ := trivial
  script htext hread n hn := (htext _ hread n hn).regrouped.1.unchain
  unread _ _ := trivial
  zoned_mono h henv := zoned_mono h henv
  zoned_global h := List.forall_mem_singleton.mpr h.global
  user_mono := User.mono
  user_eq h := ⟨h.name, h.params, h.home⟩
  register {r} name plugin h := by
    rw [Registry.contains, List.contains_iff_mem] at h ⊢
    rw [Registry.names_register]
    exact List.mem_append_left _ h
  size h := h.alike.size
  function? h := h.alike.function?
  vars h id := h.alike.vars id (Nat.zero_le id)
  bound_of_var h henv hv := h.bound_of_var henv hv
  assign v h henv hname := h.assign henv hname v
  define h henv hname hfg := h.define henv hname hfg
  enter {W s t f g} args h hfg := by
    rcases hfg.body with hbody | ⟨hbody, hparams, hhome⟩
    · refine ⟨.foreign, W.enter s.all.size .foreign, World.le_enter h.zone?_size _,
        World.zone?_enter_self _ _ _, hbody, h.entered hfg args .foreign ?_⟩
      intro hzone
      cases hzone
    · have hle := World.le_enter h.zone?_size Zone.guarded
      refine ⟨.guarded, W.enter s.all.size .guarded, hle, ?_, hbody,
        h.entered hfg args .guarded fun _ => hparams⟩
      exact List.forall_mem_cons.mpr ⟨World.zone?_enter_self _ _ _, zoned_mono hle hhome⟩

/-! ## One level of evaluation -/

section Evaluation

open Evaluator

variable {host : Host} {P Q : Evaluator}

theorem like_self (n : Node) : (regime p).Like .foreign n n := by
  have option : ∀ value : Option Node, Option.Rel (@Eq Node) value value := by
    intro value
    cases value with
    | none => exact .none
    | some n => exact .some rfl
  have hs := Span.SameStart.refl n.span
  have same : ∀ r : Except Fault Node, SameFault (@Eq Node) r r := SameFault.refl fun _ => rfl
  cases n with
  | leaf s v => exact .leaf v hs
  | sequence s body => exact .sequence hs (List.forall₂_same.mpr fun _ _ => rfl)
  | assign s target op value =>
    have htarget : Regime.Parts.Target (regime p) .foreign target target :=
      ⟨rfl, rfl, fun _ _ => trivial, rfl⟩
    by_cases hop : op = .chain
    · subst hop
      exact .assignChain hs htarget (same _)
    · exact .assign hs hop htarget rfl
  | binary s op lhs rhs => exact .binary op hs rfl rfl
  | unary s op operand => exact .unary op hs rfl
  | ternary s condition yes no => exact .ternary hs rfl rfl rfl
  | call s callee args =>
    exact .call callee hs (.inl trivial) (List.forall₂_same.mpr fun _ _ => ⟨rfl, rfl⟩)
  | chain s value link => exact .chain hs rfl (fun _ _ => same _) (same _)
  | functionDef s name params body =>
    exact .functionDef hs trivial (.inl trivial) fun W env _ => .same W _
  | defaultValue s name value => exact .defaultValue name hs rfl
  | returnValue s value => exact .returnValue hs (option value)
  | ifElse s condition yes no => exact .ifElse hs rfl rfl (option no)
  | importName s name => exact .importName hs trivial

theorem agrees_assign_none {target target' value value' : Node} {op : AssignOp} {s s' : Span}
    (hs : s.SameStart s') (htarget : Node.SameTarget p target target')
    (hnone : target.asIdentifier? = none) :
    (regime p).Agrees W (Evaluator.node host P env (.assign s target op value))
      (Evaluator.node host Q env (.assign s' target' op value')) := by
  refine (Regime.Agrees.moveTo (R := regime p) hs).bind fun W₁ _ _ => ?_
  have hrefused : ∀ (P : Evaluator) (target value : Node), target.asIdentifier? = none →
      P.assign env target op value = Eval.fail (.constantTarget target.kindName) := by
    intro P target value hnone
    rw [Evaluator.assign, hnone]
  dsimp only
  rw [hrefused P target value hnone, hrefused Q target' value' (htarget.name ▸ hnone), htarget.kind]
  exact Regime.Simulates.fail_bind trivial _ _

/-- Where `p` is a plugin and nothing else, a chain on it goes on as the call it stands for. -/
theorem outcome_chain {m : Machine} {sp place : Span} {link call : Node}
    (hplugin : m.plugins.contains p = true) (hvalue : m.scopes.value? env p = none)
    (hfunction : m.scopes.function? env p = none)
    (hcall : Node.pluginCall p sp link = .ok call) :
    (Evaluator.node host P env (.chain sp (.identifier place p) link)).outcome m
      = (P.evaluate env call).outcome { m with span := sp } := by
  have hnames : (namesPlugin env p).outcome { m with span := sp }
      = (.ok true, { m with span := sp }) := by
    show (Except.ok (m.plugins.contains p && (m.scopes.value? env p).isNone
      && (m.scopes.function? env p).isNone), _) = _
    rw [hplugin, hvalue, hfunction]
    rfl
  show Eval.outcome (do
    let call ← do
      if ← namesPlugin env p then Eval.ofFault (Node.pluginCall p sp link)
      else Eval.ofFault (Node.unchainAs sp (.identifier place p) link)
    P.evaluate env call) { m with span := sp } = _
  rw [Eval.outcome_bind, hnames]
  dsimp only
  rw [if_pos rfl, hcall]
  rfl

theorem like_call {s s' : Span} {callee : Callee} {args args' : List (Labelled Node)}
    (hs : s.SameStart s') (hlabels : args.map (·.label) = args'.map (·.label))
    (hargs : ∀ x ∈ args.zip args', Regrouped p (.tree .ready) x.1.content x.2.content) :
    (regime p).Like .guarded (.call s callee args) (.call s' callee args') := by
  have hsame : List.Forall₂ Eq (args.map (·.label)) (args'.map (·.label)) :=
    hlabels ▸ List.forall₂_same.mpr fun _ _ => rfl
  rw [List.forall₂_map_left_iff, List.forall₂_map_right_iff, List.forall₂_iff_zip] at hsame
  refine .call callee hs (.inl trivial) (List.forall₂_iff_zip.mpr ⟨hsame.1, fun {a a'} ha => ?_⟩)
  exact ⟨hsame.2 ha, hargs (a, a') ha⟩

/-- A call and a chain that stands for it keep two runs alike.  Each chain takes one level. -/
theorem agrees_stands (hhost : (regime p).Hosts host) {n n' : Node} {s s' : Span} {callee : Callee}
    {args args' : List (Labelled Node)} {d e : Nat}
    (hparts : ∀ a b, a ≤ d → e ≤ b → (regime p).Parts (ofDepth host a) (ofDepth host b))
    (henv : zoned W .guarded env) (hn : n.Stands p s callee args)
    (hn' : n'.Stands p s' callee args')
    (hlike : (regime p).Like .guarded (.call s callee args) (.call s' callee args')) :
    (regime p).Agrees W (Evaluator.node host (ofDepth host d) env n)
      (Evaluator.node host (ofDepth host (e + 1)) env n') := by
  intro W₁ h₁ m m' hm
  have henv₁ : (regime p).zoned W₁ .guarded env := zoned_mono h₁ henv
  have hcalls : ∀ a b, a ≤ d → e ≤ b → (regime p).Follows (fun _ => Eq) W₁
      ((Evaluator.node host (ofDepth host a) env (.call s callee args)).outcome m)
      ((Evaluator.node host (ofDepth host b) env (.call s' callee args')).outcome m') :=
    fun a b ha hb => (hparts a b ha hb).node_of_like hhost henv₁ hlike le_rfl hm
  have hscopes : Stores p W₁ m.scopes m'.scopes := hm.scopes
  obtain ⟨hvalue, hfunction⟩ := hscopes.none_of_guarded henv₁
  have hright : ∀ a, a ≤ d → (regime p).Follows (fun _ => Eq) W₁
      ((Evaluator.node host (ofDepth host a) env (.call s callee args)).outcome m)
      ((Evaluator.node host (ofDepth host (e + 1)) env n').outcome m') := by
    intro a ha
    cases hn' with
    | call => exact hcalls a (e + 1) ha (Nat.le_succ e)
    | chain hcall =>
      have hplugin' : m'.plugins.contains p = true := hm.plugins ▸ hm.registry
      have hvalue' : m'.scopes.value? env p = none := by
        rw [← Regime.Parts.value?_eq hm]
        exact hvalue
      have hfunction' : m'.scopes.function? env p = none := by
        have hsome := Regime.Parts.isSome_function? hm env p
        rw [hfunction] at hsome
        exact Option.not_isSome_iff_eq_none.mp (by rw [← hsome]; decide)
      rw [outcome_chain hplugin' hvalue' hfunction' hcall]
      exact hcalls a e ha le_rfl
  cases hn with
  | call => exact hright d le_rfl
  | chain hcall =>
    rw [outcome_chain hm.registry hvalue hfunction hcall]
    cases d with
    | zero => exact .gaveUp trivial
    | succ d => exact hright d (Nat.le_succ d)

/-- One level of evaluation keeps regrouped trees alike.  The second run has a level to spare. -/
theorem agrees_node (hhost : (regime p).Hosts host) {n n' : Node} {d e : Nat}
    (hparts : ∀ a b, a ≤ d → e ≤ b → (regime p).Parts (ofDepth host a) (ofDepth host b))
    (henv : zoned W .guarded env) (hn : Regrouped p (.tree .ready) n n') :
    (regime p).Agrees W (Evaluator.node host (ofDepth host d) env n)
      (Evaluator.node host (ofDepth host (e + 1)) env n') := by
  have henv' : (regime p).zoned W .guarded env := henv
  have alike : (regime p).Like .guarded n n' →
      (regime p).Agrees W (Evaluator.node host (ofDepth host d) env n)
        (Evaluator.node host (ofDepth host (e + 1)) env n') :=
    (hparts d (e + 1) le_rfl (Nat.le_succ e)).node_of_like hhost henv'
  cases hn with
  | leaf v hs => exact alike (.leaf v hs)
  | sequence hs hlength hbody =>
    exact alike (.sequence hs (List.forall₂_iff_zip.mpr ⟨hlength, fun hx => hbody _ hx⟩))
  | @assign _ s s' target target' value value' op hs hop htarget hvalue =>
    cases hname : target.asIdentifier? with
    | none => exact agrees_assign_none hs htarget hname
    | some name =>
      have hname' : target'.asIdentifier? = some name := htarget.name ▸ hname
      have hleaf : Regrouped p (.tree .ready) target target' := by
        rw [Node.eq_identifier_of_asIdentifier? hname, Node.eq_identifier_of_asIdentifier? hname']
        exact .leaf _ htarget.span
      exact alike (.assign hs hop ⟨htarget.name, htarget.kind, htarget.ne, hleaf⟩ hvalue)
  | binary op hs hlhs hrhs => exact alike (.binary op hs hlhs hrhs)
  | unary op hs hoperand => exact alike (.unary op hs hoperand)
  | ternary hs hcondition hyes hno => exact alike (.ternary hs hcondition hyes hno)
  | call callee hs hlabels hargs => exact alike (like_call hs hlabels hargs)
  | functionDef hs hname hparams hbody =>
    exact alike (.functionDef hs hname (.inl trivial) fun W env henv =>
      ⟨rfl, rfl, rfl, .inr ⟨hbody, hparams, henv⟩⟩)
  | definition hs hname =>
    exact alike (.functionDef hs hname (.inl trivial) fun W env _ => .same W _)
  | defaultValue name hs hvalue => exact alike (.defaultValue name hs hvalue)
  | returnNothing hs => exact alike (.returnValue hs .none)
  | returnValue hs hvalue => exact alike (.returnValue hs (.some hvalue))
  | ifThen hs hcondition hyes => exact alike (.ifElse hs hcondition hyes .none)
  | ifElse hs hcondition hyes hno => exact alike (.ifElse hs hcondition hyes (.some hno))
  | importName name hs => exact alike (.importName hs trivial)
  | kept hs ht hlink =>
    exact alike (.chain hs rfl (fun owner _ => hlink.pluginCall owner hs)
      (Node.Regrouped.unchainAs (.leaf _ ht) hlink hs))
  | stands hn hn' hs hlabels hargs =>
    exact agrees_stands hhost hparts henv hn hn' (like_call hs hlabels hargs)

theorem parts_ofDepth (hhost : (regime p).Hosts host) (d d' : Nat) (h : 2 * d ≤ d') :
    (regime p).Parts (ofDepth host d) (ofDepth host d') := by
  induction d using Nat.strongRecOn generalizing d' with
  | ind d ih =>
    cases d with
    | zero =>
      exact ⟨fun _ _ => Regime.Simulates.gaveUp trivial _,
        fun _ _ => Regime.Simulates.gaveUp trivial _⟩
    | succ d =>
      obtain ⟨e, rfl⟩ : ∃ e, d' = e + 2 := ⟨d' - 2, by omega⟩
      have hparts : ∀ a b, a ≤ d → e ≤ b →
          (regime p).Parts (ofDepth host a) (ofDepth host b) :=
        fun a b ha hb => ih a (by omega) b (by omega)
      have hnext := hparts d (e + 1) le_rfl (Nat.le_succ e)
      refine ⟨fun {W z env n n'} henv hn => ?_, fun hfg args => hnext.call hfg args⟩
      cases z with
      | guarded => exact agrees_node hhost hparts henv hn
      | foreign =>
        obtain rfl : n = n' := hn
        exact hnext.node_of_like hhost henv (like_self n)

end Evaluation
end Regrouping
end ClipScript
