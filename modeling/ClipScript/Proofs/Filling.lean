/-
Within one scope a default is filled in once.

Evaluations in one scope are compared with guarded ones, for all guards at once.  From a machine
either no guard makes a difference, or there is one default statement, come to from one machine, and
no guard that spares it there makes a difference (`Eval.FillsFrom`).  In the second case the
parameter lacked a value before, and has one when the step is done, so of two steps in a row only
one can be of that kind (`Eval.FillsOnce.bind`).

A default that is to be filled in evaluates its value first.  No other default for the parameter is
come to meanwhile in the scope if none stands there, which is what `Node.DefaultsApart` is for; and
whatever is called or imported is evaluated elsewhere.
-/
import ClipScript.Proofs.Growth
import ClipScript.Proofs.Recording

namespace ClipScript

variable {α β : Type} {scope : ScopeId} {name : String} {may : Bool}

namespace Eval

/-- From a machine, a step and its guarded counterparts end alike, except that guards may make a
difference at one default, which then fills in the parameter. -/
inductive FillsFrom (scope : ScopeId) (name : String) (may : Bool) (x : Eval α)
    (y : Guard → Eval α) (m : Machine) : Prop where
  | never : m.scopes.Grown (x.outcome m).2.scopes → (∀ g, (y g).outcome m = x.outcome m) →
      FillsFrom scope name may x y m
  | once (n : Node) (start : Machine) : may = true → m.scopes.lacks scope name →
      m.scopes.Grown (x.outcome m).2.scopes →
      (∀ g, g.spare n start → (y g).outcome m = x.outcome m) →
      (∀ a m', x.outcome m = (.ok a, m') → m'.scopes.lacks scope name = false) →
      FillsFrom scope name may x y m

/-- So it is from every machine in which the scope is in use. -/
def FillsOnce (scope : ScopeId) (name : String) (may : Bool) (x : Eval α) (y : Guard → Eval α) :
    Prop :=
  ∀ m, m.scopes.contains scope → FillsFrom scope name may x y m

variable {x : Eval α} {y : Guard → Eval α}

namespace FillsFrom

variable {m : Machine}

theorem congr {x' : Eval α} {y' : Guard → Eval α} (h : FillsFrom scope name may x y m)
    (hx : x'.outcome m = x.outcome m) (hy : ∀ g, (y' g).outcome m = (y g).outcome m) :
    FillsFrom scope name may x' y' m := by
  cases h with
  | never hgrown heq =>
    rw [← hx] at hgrown
    exact .never hgrown fun g => (hy g).trans ((heq g).trans hx.symm)
  | once n start hmay hlacks hgrown heq hfilled =>
    rw [← hx] at hgrown
    refine .once n start hmay hlacks hgrown (fun g hspare => ?_) fun a m' ha => ?_
    · exact (hy g).trans ((heq g hspare).trans hx.symm)
    · exact hfilled a m' (hx.symm.trans ha)

theorem grown (h : FillsFrom scope name may x y m) : m.scopes.Grown (x.outcome m).2.scopes := by
  cases h with
  | never hgrown _ => exact hgrown
  | once _ _ _ _ hgrown _ _ => exact hgrown

theorem eq_of_false (h : FillsFrom scope name false x y m) (g : Guard) :
    (y g).outcome m = x.outcome m := by
  cases h with
  | never _ heq => exact heq g
  | once _ _ hmay => cases hmay

theorem bind_of_error {f : α → Eval β} {k : Guard → α → Eval β} {stop : Stop} {m' : Machine}
    (h : FillsFrom scope name may x y m) (hx : x.outcome m = (.error stop, m')) :
    FillsFrom scope name may (x >>= f) (fun g => y g >>= k g) m := by
  have hbind : (x >>= f).outcome m = (.error stop, m') := outcome_bind_of_error hx f
  have hgrown : m.scopes.Grown ((x >>= f).outcome m).2.scopes := by
    have hgrown := h.grown
    rw [hx] at hgrown
    rwa [hbind]
  have hguarded : ∀ g, (y g).outcome m = x.outcome m →
      (y g >>= k g).outcome m = (x >>= f).outcome m := by
    intro g heq
    rw [hbind]
    exact outcome_bind_of_error (heq.trans hx) (k g)
  cases h with
  | never _ heq => exact .never hgrown fun g => hguarded g (heq g)
  | once n start hmay hlacks _ heq _ =>
    refine .once n start hmay hlacks hgrown (fun g hspare => hguarded g (heq g hspare)) ?_
    intro b m'' hb
    rw [hbind] at hb
    cases hb

end FillsFrom

namespace FillsOnce

theorem bind {f : α → Eval β} {k : Guard → α → Eval β} (h : FillsOnce scope name may x y)
    (hf : ∀ a, FillsOnce scope name may (f a) (k · a)) :
    FillsOnce scope name may (x >>= f) (fun g => y g >>= k g) := by
  intro m hm
  have hfirst := h m hm
  rcases hx : x.outcome m with ⟨stop | a, m'⟩
  · exact hfirst.bind_of_error hx
  have hbind : (x >>= f).outcome m = (f a).outcome m' := outcome_bind_of_ok hx f
  have hguarded : ∀ g, (y g).outcome m = x.outcome m →
      (y g >>= k g).outcome m = (k g a).outcome m' :=
    fun g heq => outcome_bind_of_ok (heq.trans hx) (k g)
  have hgrown : m.scopes.Grown m'.scopes := by
    have hgrown := hfirst.grown
    rwa [hx] at hgrown
  have hsecond := hf a m' (hgrown.contains scope hm)
  have hboth : m.scopes.Grown ((x >>= f).outcome m).2.scopes := by
    rw [hbind]
    exact hgrown.trans hsecond.grown
  cases hfirst with
  | never _ heq =>
    cases hsecond with
    | never _ heq' =>
      exact .never hboth fun g => (hguarded g (heq g)).trans ((heq' g).trans hbind.symm)
    | once n start hmay hlacks _ heq' hfilled =>
      refine .once n start hmay (hgrown.lacks hm hlacks) hboth (fun g hspare => ?_) ?_
      · exact (hguarded g (heq g)).trans ((heq' g hspare).trans hbind.symm)
      · intro b m'' hb
        exact hfilled b m'' (hbind.symm.trans hb)
  | once n start hmay hlacks _ heq hfilled =>
    have hvalue : m'.scopes.lacks scope name = false := hfilled a m' hx
    cases hsecond with
    | never hgrown' heq' =>
      refine .once n start hmay hlacks hboth (fun g hspare => ?_) fun b m'' hb => ?_
      · exact (hguarded g (heq g hspare)).trans ((heq' g).trans hbind.symm)
      · rw [hbind.symm.trans hb] at hgrown'
        exact hgrown'.lacks_eq_false (hgrown.contains scope hm) hvalue
    | once _ _ _ hlacks' => exact absurd hlacks' (by rw [hvalue]; nofun)

/-- What agrees with its guarded counterparts, as far as a store is watched that has the scope in
use, never fills in anything. -/
theorem of_agrees {w : Watch} (hw : ∀ s : Scopes, s.contains scope → w.kept s)
    (h : ∀ g scripts W, w.growing.Agrees scripts W x (y g)) : FillsOnce scope name may x y :=
  fun m hm => .never (Watch.grown_outcome (h .idle m.importing m.scopes) (hw _ hm))
    fun g => Watch.outcome_eq (h g m.importing m.scopes) (hw _ hm)

theorem same (h : ∀ scripts W, Watch.anything.growing.Agrees scripts W x x) :
    FillsOnce scope name may x (fun _ => x) :=
  of_agrees (fun _ _ => trivial) fun _ => h

theorem pure (a : α) : FillsOnce scope name may (Pure.pure a) (fun _ => Pure.pure a) :=
  same fun _ _ => Contract.Agrees.pure a

theorem fail (f : Fault) : FillsOnce scope name may (Eval.fail f : Eval α) (fun _ => Eval.fail f) :=
  same fun _ _ => Contract.Gives.fail f

theorem map (h : FillsOnce scope name may x y) (f : α → β) :
    FillsOnce scope name may (do return f (← x)) (fun g => do return f (← y g)) :=
  h.bind fun a => pure (f a)

theorem moveTo (s : Span) : FillsOnce scope name may (Eval.moveTo s) (fun _ => Eval.moveTo s) :=
  same fun _ _ => Contract.Agrees.moveTo s

theorem ofFault (r : Except Fault α) :
    FillsOnce scope name may (Eval.ofFault r) (fun _ => Eval.ofFault r) :=
  same fun _ _ => Contract.Agrees.ofFault r

theorem ofFault_bind {r : Except Fault α} {f : α → Eval β} {k : Guard → α → Eval β}
    (h : ∀ a, r = .ok a → FillsOnce scope name may (f a) (k · a)) :
    FillsOnce scope name may (Eval.ofFault r >>= f) (fun g => Eval.ofFault r >>= k g) := by
  cases r with
  | error fault => exact fun m _ => .never (.refl _) fun _ => rfl
  | ok a => exact h a rfl

theorem get_bind {f : Machine → Eval α} {k : Guard → Machine → Eval α}
    (h : ∀ m, FillsOnce scope name may (f m) (k · m)) :
    FillsOnce scope name may (do f (← get)) (fun g => do k g (← get)) :=
  fun m hm => (h m m hm).congr rfl fun _ => rfl

end FillsOnce
end Eval

namespace Evaluator

open Eval (FillsFrom FillsOnce)

/-- Evaluating a tree in the scope fills in a default once, if defaults are apart in it, and nothing
is filled in from elsewhere. -/
structure Guards (scope : ScopeId) (hscope : scope ≠ 0) (name : String) (P : Evaluator)
    (Q : Guard → Evaluator) : Prop where
  evaluate : ∀ {env n may}, env.here = scope → n.DefaultsApart name may →
    FillsOnce scope name may (P.evaluate env n) (fun g => (Q g).evaluate env n)
  elsewhere : ∀ g active scripts, (Watch.elsewhere scope hscope).growing.Parts active scripts
    (fun _ => True) P (Q g)

namespace Guards

variable {hscope : scope ≠ 0} {P : Evaluator} {Q : Guard → Evaluator} {env : Env}

theorem valueOf (h : Guards scope hscope name P Q) (henv : env.here = scope) {n : Node}
    (hn : n.DefaultsApart name may) :
    FillsOnce scope name may (P.valueOf env n) (fun g => (Q g).valueOf env n) :=
  (h.evaluate henv hn).map Flow.value

theorem invoke (h : Guards scope hscope name P Q) (f : Function) (args : ArgList) :
    FillsOnce scope name may (P.invoke f args) (fun g => (Q g).invoke f args) :=
  .of_agrees (fun _ hs => hs) fun g scripts _ => (h.elsewhere g [] scripts).invoke trivial args

theorem importNamed (h : Guards scope hscope name P Q) (host : Host) (imported : String) :
    FillsOnce scope name may (P.importNamed host imported)
      (fun g => (Q g).importNamed host imported) :=
  .of_agrees (fun _ hs => hs) fun g _ _ =>
    Contract.Parts.importNamed (Watch.hosts_growing _ host imported) fun _ _ _ _ =>
      (h.elsewhere g [] _).runAll fun _ _ _ _ => trivial

theorem arguments (h : Guards scope hscope name P Q) (henv : env.here = scope)
    {nodes : List (Labelled Node)}
    (hnodes : ∀ n ∈ nodes.map (·.content), n.DefaultsApart name may) (args : ArgList) :
    FillsOnce scope name may (P.arguments env nodes args)
      (fun g => (Q g).arguments env nodes args) := by
  induction nodes generalizing args with
  | nil => exact .pure args
  | cons a rest ih =>
    rw [List.map_cons, List.forall_mem_cons] at hnodes
    refine (h.valueOf henv hnodes.1).bind fun v => ?_
    exact .ofFault_bind fun more _ => ih hnodes.2 more

theorem functionNamed (env : Env) (callee : String) :
    FillsOnce scope name may (functionNamed env callee) (fun _ => functionNamed env callee) := by
  refine .get_bind fun m => ?_
  dsimp only
  split
  · exact .pure _
  · split
    · exact .fail _
    · exact .fail _

theorem callTo (h : Guards scope hscope name P Q) (henv : env.here = scope) (callee : Callee)
    {nodes : List (Labelled Node)}
    (hnodes : ∀ n ∈ nodes.map (·.content), n.DefaultsApart name may) :
    FillsOnce scope name may (P.callTo env callee nodes)
      (fun g => (Q g).callTo env callee nodes) := by
  refine (h.arguments henv hnodes .empty).bind fun args => ?_
  cases callee with
  | named callee => exact (functionNamed env callee).bind fun f => h.invoke f args
  | plugin owner function =>
    refine .get_bind fun m => ?_
    exact .ofFault_bind fun native _ => h.invoke _ args

theorem lookup (h : Guards scope hscope name P Q) (named : String) :
    FillsOnce scope name may (P.lookup env named) (fun g => (Q g).lookup env named) := by
  refine .get_bind fun m => ?_
  dsimp only
  split
  · exact .pure _
  · split
    · exact h.invoke _ .empty
    · exact .fail _

theorem store (env : Env) (named : String) (v : Value) :
    FillsOnce scope name may (store env named v) (fun _ => store env named v) :=
  .same fun _ _ => Contract.Parts.store trivial named v

theorem define (env : Env) (defined : String) (params : List Param) (body : Node) :
    FillsOnce scope name may (define env defined params body)
      (fun _ => define env defined params body) :=
  .same fun _ _ => Contract.Parts.define trivial trivial defined params body

theorem storing (env : Env) (named : String) (v : Value) :
    FillsOnce scope name may (do Evaluator.store env named v; return v)
      (fun _ => do Evaluator.store env named v; return v) :=
  (store env named v).bind fun _ => .pure v

theorem assign (h : Guards scope hscope name P Q) (henv : env.here = scope) {target value : Node}
    (op : AssignOp) (htarget : target.DefaultsApart name may)
    (hvalue : value.DefaultsApart name may) :
    FillsOnce scope name may (P.assign env target op value)
      (fun g => (Q g).assign env target op value) := by
  unfold Evaluator.assign
  cases target.asIdentifier? with
  | none => exact .fail _
  | some named =>
    cases op with
    | assign => exact (h.valueOf henv hvalue).bind fun v => storing env named v
    | update op =>
      refine (h.valueOf henv htarget).bind fun current => ?_
      refine (h.valueOf henv hvalue).bind fun operand => ?_
      exact .ofFault_bind fun v _ => storing env named v
    | chain =>
      refine .ofFault_bind fun call hcall => ?_
      exact (h.valueOf henv (htarget.unchainAs hvalue hcall)).bind fun v => storing env named v

theorem setDefault (h : Guards scope hscope name P Q) (henv : env.here = scope)
    (parameter : String) {value : Node} (hvalue : value.DefaultsApart name may) :
    FillsOnce scope name may (P.setDefault env parameter value)
      (fun g => (Q g).setDefault env parameter value) := by
  unfold Evaluator.setDefault
  dsimp only
  split
  · exact fun m _ => .never (.refl _) fun _ => rfl
  · refine .get_bind fun m => ?_
    split
    · exact (h.valueOf henv hvalue).bind fun v => store env parameter v
    · exact .pure ()
    · exact .fail _
    · exact .fail _

theorem sequence (h : Guards scope hscope name P Q) (henv : env.here = scope) {body : List Node}
    (hbody : ∀ n ∈ body, n.DefaultsApart name may) (last : Value) :
    FillsOnce scope name may (P.sequence env body last)
      (fun g => (Q g).sequence env body last) := by
  induction body generalizing last with
  | nil => exact .pure _
  | cons n rest ih =>
    rw [List.forall_mem_cons] at hbody
    refine (h.evaluate henv hbody.1).bind fun flow => ?_
    cases flow with
    | proceed v => exact ih hbody.2 v
    | leave v => exact .pure _

/-! ## Nodes -/

theorem node (h : Guards scope hscope name P Q) (host : Host) (henv : env.here = scope) {n : Node}
    (hn : n.isDefinition = false → ∀ part ∈ n.parts, part.DefaultsApart name may) :
    FillsOnce scope name may (P.node host env n) (fun g => (Q g).node host env n) := by
  have nothing {x : Eval Unit} {y : Guard → Eval Unit} (hxy : FillsOnce scope name may x y) :
      FillsOnce scope name may (do x; return Flow.proceed .void)
        (fun g => do y g; return Flow.proceed .void) :=
    hxy.bind fun _ => .pure _
  refine (FillsOnce.moveTo n.span).bind fun _ => ?_
  cases n with
  | leaf s v =>
    cases v with
    | identifier named => exact (h.lookup named).map Flow.proceed
    | _ => exact .pure _
  | sequence s body => exact h.sequence henv (hn rfl) .void
  | assign s target op value =>
    have hparts := hn rfl
    exact (h.assign henv op (hparts target (by simp [Node.parts]))
      (hparts value (by simp [Node.parts]))).map Flow.proceed
  | binary s op lhs rhs =>
    have hparts := hn rfl
    refine (h.valueOf henv (hparts lhs (by simp [Node.parts]))).bind fun a => ?_
    refine (h.valueOf henv (hparts rhs (by simp [Node.parts]))).bind fun b => ?_
    exact (FillsOnce.moveTo s).bind fun _ => (FillsOnce.ofFault _).map Flow.proceed
  | unary s op operand =>
    refine (h.valueOf henv (hn rfl operand (by simp [Node.parts]))).bind fun v => ?_
    exact (FillsOnce.moveTo s).bind fun _ => (FillsOnce.ofFault _).map Flow.proceed
  | ternary s condition yes no =>
    have hparts := hn rfl
    refine (h.valueOf henv (hparts condition (by simp [Node.parts]))).bind fun v => ?_
    split
    · exact (h.valueOf henv (hparts yes (by simp [Node.parts]))).map Flow.proceed
    · exact (h.valueOf henv (hparts no (by simp [Node.parts]))).map Flow.proceed
    · exact .fail _
  | ifElse s condition yes no =>
    have hparts := hn rfl
    refine (h.valueOf henv (hparts condition (by simp [Node.parts]))).bind fun v => ?_
    split
    · exact h.evaluate henv (hparts yes (by simp [Node.parts]))
    · cases no with
      | none => exact .pure _
      | some no => exact h.evaluate henv (hparts no (by simp [Node.parts]))
    · exact .fail _
  | call s callee args => exact (h.callTo henv callee (hn rfl)).map Flow.proceed
  | chain s value link =>
    have hvalue : value.DefaultsApart name may := hn rfl value (by simp [Node.parts])
    have hlink : link.DefaultsApart name may := hn rfl link (by simp [Node.parts])
    have hvalued : FillsOnce scope name may
        (do P.evaluate env (← Eval.ofFault (Node.unchainAs s value link)))
        (fun g => do (Q g).evaluate env (← Eval.ofFault (Node.unchainAs s value link))) :=
      .ofFault_bind fun call hcall => h.evaluate henv (hvalue.unchainAs hlink hcall)
    dsimp only
    cases value.asIdentifier? with
    | none => exact hvalued
    | some owner =>
      have hnames : FillsOnce scope name may (namesPlugin env owner)
          (fun _ => namesPlugin env owner) := .get_bind fun m => .pure _
      refine hnames.bind fun isPlugin => ?_
      cases isPlugin with
      | true => exact .ofFault_bind fun call hcall => h.evaluate henv (hlink.pluginCall hcall)
      | false => exact hvalued
  | functionDef s defined params body => exact nothing (define env defined params body)
  | defaultValue s parameter value =>
    exact nothing (h.setDefault henv parameter (hn rfl value (by simp [Node.parts])))
  | returnValue s value =>
    cases value with
    | none => exact .pure _
    | some value =>
      exact (h.valueOf henv (hn rfl value (by simp [Node.parts]))).map Flow.leave
  | importName s imported => exact nothing (h.importNamed host imported)

end Guards

/-! ## Filling in a default -/

theorem filled_of_store {env : Env} {parameter : String} {v : Value} {m m' : Machine}
    (hm : m.scopes.contains env.here) (h : (store env parameter v).outcome m = (.ok (), m')) :
    m'.scopes.lacks env.here parameter = false := by
  unfold store at h
  split at h
  · cases h
  · next hstorable =>
    cases h
    show (((m.scopes.modify env.here _).get env.here).vars).lacks parameter = false
    rw [Scopes.get_modify_self _ _ hm]
    refine Variables.lacks_eq_false (Variables.find?_assign_self _ parameter v) ?_
    exact Value.ne_void_of_isStorable (by simpa using hstorable)

/-- A default statement that is carried out leaves its parameter with a value. -/
theorem filled_of_setDefault {P : Evaluator} {env : Env} {parameter : String} {value : Node}
    {m m' : Machine} (hm : m.scopes.contains env.here)
    (hgrown : m.scopes.Grown ((P.evaluate env value).outcome m).2.scopes)
    (h : (P.setDefault env parameter value).outcome m = (.ok (), m')) :
    m'.scopes.lacks env.here parameter = false := by
  unfold setDefault at h
  split at h
  · cases h
  · obtain ⟨_, _, hget, h⟩ := Eval.exists_of_outcome_bind h
    cases hget
    split at h
    · obtain ⟨v, n, hv, hstore⟩ := Eval.exists_of_outcome_bind h
      obtain ⟨flow, n', hflow, hpure⟩ := Eval.exists_of_outcome_bind hv
      cases hpure
      rw [hflow] at hgrown
      exact filled_of_store (hgrown.contains _ hm) hstore
    · next hne hfound =>
      cases h
      exact Variables.lacks_eq_false hfound hne
    · cases h
    · cases h

theorem filled_of_node {P : Evaluator} (host : Host) {env : Env} {s : Span} {parameter : String}
    {value : Node} {m m' : Machine} {flow : Flow} (hm : m.scopes.contains env.here)
    (hgrown : ∀ m : Machine, m.scopes.Grown ((P.evaluate env value).outcome m).2.scopes)
    (h : (P.node host env (.defaultValue s parameter value)).outcome m = (.ok flow, m')) :
    m'.scopes.lacks env.here parameter = false := by
  obtain ⟨_, n, hmove, h⟩ := Eval.exists_of_outcome_bind h
  cases hmove
  obtain ⟨_, n, hset, h⟩ := Eval.exists_of_outcome_bind h
  cases h
  exact filled_of_setDefault (m := { m with span := s }) hm (hgrown _) hset

/-! ## All depths -/

theorem guards_guarding (hscope : scope ≠ 0) (name : String) (host : Host) (depth : Nat) :
    Guards scope hscope name (.ofDepth host depth)
      (fun g => .guarding g scope name host depth) := by
  have helsewhere : ∀ depth g active scripts,
      (Watch.elsewhere scope hscope).growing.Parts active scripts (fun _ => True)
        (.ofDepth host depth) (.guarding g scope name host depth) := by
    refine fun depth g => parts_guarding _ (fun {m env n} _ henv hfills => ?_) depth
    rw [Machine.fills, Bool.and_eq_true, Bool.and_eq_true] at hfills
    exact absurd (eq_of_beq hfills.1.2) henv
  induction depth with
  | zero => exact ⟨fun _ _ m _ => .never (.refl _) fun _ => rfl, helsewhere 0⟩
  | succ depth ih =>
    refine ⟨?_, helsewhere (depth + 1)⟩
    intro env n may henv hn m hm
    -- where the guards find nothing to be filled in, the tree is evaluated as by any evaluator
    have hquiet : m.fills scope name env n = false →
        FillsFrom scope name may ((ofDepth host depth).node host env n)
          (fun g => (guarding g scope name host depth).node host env n) m →
        FillsFrom scope name may ((ofDepth host (depth + 1)).evaluate env n)
          (fun g => (guarding g scope name host (depth + 1)).evaluate env n) m := by
      intro hfills hnode
      refine hnode.congr rfl fun g => outcome_guarding fun hfound => ?_
      rw [hfills] at hfound
      cases hfound
    cases hn with
    | functionDef =>
      refine hquiet rfl (ih.node host henv ?_ m hm)
      intro hdefinition
      cases hdefinition
    | parts hdefault hparts =>
      refine hquiet ?_ (ih.node host henv (fun _ => hparts) m hm)
      rw [Machine.fills, hdefault, Bool.false_and, Bool.false_and]
    | @defaultValue s value hvalue =>
      have hnode : ∀ may, FillsFrom scope name may
          ((ofDepth host depth).node host env (.defaultValue s name value))
          (fun g => (guarding g scope name host depth).node host env (.defaultValue s name value))
          m := by
        intro may
        refine ih.node host henv (fun _ => ?_) m hm
        exact List.forall_mem_singleton.mpr hvalue.of_false
      cases hlacks : m.scopes.lacks scope name with
      | false =>
        refine hquiet ?_ (hnode true)
        rw [Machine.fills, hlacks, Bool.and_false]
      | true =>
        refine .once (.defaultValue s name value) m rfl hlacks (hnode true).grown
          (fun g hspare => ?_) ?_
        · exact (outcome_guarding fun _ => hspare).trans ((hnode false).eq_of_false g)
        · intro flow m' hflow
          subst henv
          exact filled_of_node host hm (grown_evaluate host depth env value) hflow

end Evaluator
end ClipScript
