/-
A `return` is never lost.

Where the value of a part is asked for, the evaluator does not look whether the part was left by a
`return`.  It need not: what stands there is an expression, and no expression is ever left
(`Evaluator.proceeds_ofDepth`).

To say what that comes to in a run there is a second evaluator, `Leaver`, in which a `return` ends
everything around it at once, up to where it is caught: where a function is called, or a statement
of a script is carried out.  With it nothing can be lost.  It does the same as the first one in
every run (`Interpreter.returns_end_their_call`).
-/
import ClipScript.Proofs.Leaving
import ClipScript.Proofs.Regime.Formed

namespace ClipScript

variable {α β : Type}

/-! ## Steps that are left -/

/-- A step that can be left with a value.  Nothing of it is carried out after that. -/
abbrev Leaving := ExceptT Value Eval

namespace Leaving

/-- A step that is not left. -/
def of (x : Eval α) : Leaving α := ExceptT.lift x

def leave (v : Value) : Leaving α := ExceptT.mk (pure (.error v))

/-- Catches a value with which a step is left. -/
def flow (x : Leaving Value) : Eval Flow := do
  match ← x.run with
  | .ok v => return .proceed v
  | .error v => return .leave v

theorem of_pure (a : α) : of (pure a) = pure a := rfl

theorem of_bind (x : Eval α) (f : α → Eval β) : of (x >>= f) = of x >>= fun a => of (f a) := by
  simp [of]

theorem of_ofFault_bind {r : Except Fault α} {f : α → Leaving β} {g : α → Eval β}
    (h : ∀ a, r = .ok a → f a = of (g a)) :
    (of (Eval.ofFault r) >>= f) = of (Eval.ofFault r >>= g) := by
  cases r with
  | error fault => rfl
  | ok a =>
    show (of (pure a) >>= f) = of (pure a >>= g)
    rw [of_pure, pure_bind, pure_bind, h a rfl]

theorem ofFault_bind_congr {r : Except Fault α} {f g : α → Eval β}
    (h : ∀ a, r = .ok a → f a = g a) : Eval.ofFault r >>= f = Eval.ofFault r >>= g := by
  cases r with
  | error fault => rfl
  | ok a => exact h a rfl

end Leaving

/-- The means of evaluating the parts of a node, in which a `return` leaves all that is around
it. -/
structure Leaver where
  evaluate : Env → Node → Leaving Value
  invoke : Function → ArgList → Eval Value

namespace Leaver

open Leaving

/-- A leaver of which every `return` is caught. -/
def caught (parts : Leaver) : Evaluator := ⟨fun env n => (parts.evaluate env n).flow, parts.invoke⟩

section Level

variable (host : Host) (parts : Leaver)

def arguments (env : Env) : List (Labelled Node) → ArgList → Leaving ArgList
  | [], args => return args
  | ⟨label, node⟩ :: rest, args => do
    let v ← parts.evaluate env node
    let args ← of (Eval.ofFault (args.push label v))
    arguments env rest args

def callTo (env : Env) (callee : Callee) (args : List (Labelled Node)) : Leaving Value := do
  let args ← parts.arguments env args .empty
  of do
    match callee with
    | .named name =>
      let f ← Evaluator.functionNamed env name
      parts.invoke f args
    | .plugin owner function =>
      let native ← Eval.ofFault ((← get).plugins.resolve owner function)
      parts.invoke (.core callee.display native) args

def assign (env : Env) (target : Node) (op : AssignOp) (value : Node) : Leaving Value := do
  match target.asIdentifier? with
  | none => of (Eval.fail (.constantTarget target.kindName))
  | some name =>
    let result ← match op with
      | .assign => parts.evaluate env value
      | .update op => do
        let current ← parts.evaluate env target
        let operand ← parts.evaluate env value
        of (Eval.ofFault (Value.binary (.arithmetic op) current operand))
      | .chain => do
        let call ← of (Eval.ofFault (Node.unchainAs value.span target value))
        parts.evaluate env call
    of (Evaluator.store env name result)
    return result

def setDefault (env : Env) (name : String) (value : Node) : Leaving Unit := do
  if env.isGlobal then of (Eval.fail .defaultOutsideFunction)
  match (← of get).scopes.var? env name with
  | some ⟨.void, .optional⟩ =>
    let v ← parts.evaluate env value
    of (Evaluator.store env name v)
  | some ⟨_, .optional⟩ => return
  | some ⟨_, .parameter⟩ => of (Eval.fail (.defaultOfMandatory name))
  | _ => of (Eval.fail (.defaultOfUndefined name))

def sequence (env : Env) : List Node → Value → Leaving Value
  | [], last => return last
  | node :: rest, _ => do
    let v ← parts.evaluate env node
    sequence env rest v

/-- Evaluates a node through its parts.  Scripts and functions are run with all of theirs caught. -/
def node (env : Env) (n : Node) : Leaving Value := do
  of (Eval.moveTo n.span)
  match n with
  | .leaf _ (.identifier name) => of (parts.caught.lookup env name)
  | .leaf _ v => return v
  | .sequence _ body => parts.sequence env body .void
  | .assign _ target op value => parts.assign env target op value
  | .binary s op lhs rhs =>
    let lhs ← parts.evaluate env lhs
    let rhs ← parts.evaluate env rhs
    of (Eval.moveTo s)
    of (Eval.ofFault (Value.binary op lhs rhs))
  | .unary s op operand =>
    let operand ← parts.evaluate env operand
    of (Eval.moveTo s)
    of (Eval.ofFault (Value.unary op operand))
  | .ternary _ condition yes no =>
    match ← parts.evaluate env condition with
    | .boolean true => parts.evaluate env yes
    | .boolean false => parts.evaluate env no
    | other => of (Eval.fail (.ternaryCondition other.kind))
  | .ifElse _ condition yes no =>
    match ← parts.evaluate env condition with
    | .boolean true => parts.evaluate env yes
    | .boolean false =>
      match no with
      | some no => parts.evaluate env no
      | none => return .void
    | other => of (Eval.fail (.ifCondition other.kind))
  | .call _ callee args => parts.callTo env callee args
  | .chain s value link =>
    let call ← of do
      match value.asIdentifier? with
      | some name =>
        if ← Evaluator.namesPlugin env name then Eval.ofFault (Node.pluginCall name s link)
        else Eval.ofFault (Node.unchainAs s value link)
      | none => Eval.ofFault (Node.unchainAs s value link)
    parts.evaluate env call
  | .functionDef _ name params body =>
    of (Evaluator.define env name params body)
    return .void
  | .defaultValue _ name value =>
    parts.setDefault env name value
    return .void
  | .returnValue _ (some value) =>
    let v ← parts.evaluate env value
    leave v
  | .returnValue _ none => leave .void
  | .importName _ name =>
    of (parts.caught.importNamed host name)
    return .void

end Level

def ofDepth (host : Host) : Nat → Leaver
  | 0 => ⟨fun _ _ => of (throw .tooDeep), fun _ _ => throw .tooDeep⟩
  | n + 1 => ⟨(ofDepth host n).node host, (ofDepth host n).caught.call⟩

end Leaver

/-! ## Operands are not left -/

namespace Evaluator

open Leaving

/-- Operands are evaluated to their end. -/
def Proceeds (parts : Evaluator) : Prop :=
  ∀ env n, n.Formed (fun _ => True) .operand →
    parts.evaluate env n = (do return .proceed (← parts.evaluate env n).value)

variable {parts : Evaluator}

/-- The call that a chain is replaced by is an operand, whichever it is. -/
theorem Proceeds.node_chain (h : parts.Proceeds) (host : Host) (env : Env) {s : Span}
    {value link : Node} (hvalue : value.Formed (fun _ => True) .operand)
    (hlink : link.Formed (fun _ => True) .operand) :
    parts.node host env (.chain s value link)
      = (do return .proceed (← parts.node host env (.chain s value link)).value) := by
  simp only [Evaluator.node, bind_assoc]
  congr
  funext _
  have hplain : (Eval.ofFault (Node.unchainAs s value link) >>= parts.evaluate env) = _ :=
    ofFault_bind_congr fun call hcall => h env call (hvalue.unchainAs hlink hcall)
  cases value.asIdentifier? with
  | none =>
    simp only [bind_assoc]
    exact hplain
  | some name =>
    have hplugin : (Eval.ofFault (Node.pluginCall name s link) >>= parts.evaluate env) = _ :=
      ofFault_bind_congr fun call hcall => h env call (hlink.pluginCall hcall)
    simp only [bind_assoc]
    congr
    funext found
    cases found with
    | true =>
      simp only [if_true, bind_assoc]
      exact hplugin
    | false =>
      simp only [Bool.false_eq_true, if_false, bind_assoc]
      exact hplain

theorem Proceeds.node (h : parts.Proceeds) (host : Host) (env : Env) {n : Node}
    (hn : n.Formed (fun _ => True) .operand) :
    parts.node host env n = (do return .proceed (← parts.node host env n).value) := by
  cases hn with
  | @leaf s v =>
    simp only [Evaluator.node, bind_assoc]
    congr
    funext _
    cases v <;> simp [Flow.value]
  | ternary _ _ _ =>
    simp only [Evaluator.node, bind_assoc]
    congr
    funext _
    congr
    funext v
    cases v with
    | boolean b => cases b <;> simp [Flow.value]
    | _ => rfl
  | chain hvalue hlink => exact h.node_chain host env hvalue hlink
  | _ => simp only [Evaluator.node, bind_assoc, pure_bind, Flow.value]

end Evaluator

namespace Leaver

open Leaving

def Whole (parts : Leaver) : Prop :=
  ∀ env n, n.Formed (fun _ => True) .operand →
    parts.evaluate env n = of (parts.caught.valueOf env n)

variable {parts : Leaver}

namespace Whole

variable (h : parts.Whole)

include h

theorem arguments (env : Env) {nodes : List (Labelled Node)}
    (hnodes : ∀ a ∈ nodes, a.content.Formed (fun _ => True) .operand) (args : ArgList) :
    parts.arguments env nodes args = of (parts.caught.arguments env nodes args) := by
  induction nodes generalizing args with
  | nil => rfl
  | cons a rest ih =>
    rw [List.forall_mem_cons] at hnodes
    rw [Leaver.arguments, Evaluator.arguments, h env _ hnodes.1, of_bind]
    congr
    funext v
    rw [of_bind]
    congr
    funext args
    exact ih hnodes.2 args

theorem callTo (env : Env) (callee : Callee) {nodes : List (Labelled Node)}
    (hnodes : ∀ a ∈ nodes, a.content.Formed (fun _ => True) .operand) :
    parts.callTo env callee nodes = of (parts.caught.callTo env callee nodes) := by
  rw [Leaver.callTo, Evaluator.callTo, h.arguments env hnodes, of_bind]
  rfl

theorem assign (env : Env) {target value : Node} (op : AssignOp)
    (htarget : target.Formed (fun _ => True) .operand)
    (hvalue : value.Formed (fun _ => True) .operand) :
    parts.assign env target op value = of (parts.caught.assign env target op value) := by
  rw [Leaver.assign, Evaluator.assign]
  cases target.asIdentifier? with
  | none => rfl
  | some name =>
    cases op with
    | assign =>
      simp only [h env _ hvalue, of_bind, of_pure]
    | update op =>
      simp only [h env _ hvalue, h env _ htarget, of_bind, of_pure]
    | chain =>
      have hcall : (of (Eval.ofFault (Node.unchainAs value.span target value)) >>=
          parts.evaluate env) = of (Eval.ofFault (Node.unchainAs value.span target value) >>=
            parts.caught.valueOf env) :=
        of_ofFault_bind fun call hcall => h env call (htarget.unchainAs hvalue hcall)
      simp only [← bind_assoc, of_bind] at hcall ⊢
      simp only [hcall, of_pure]

theorem setDefault (env : Env) (name : String) {value : Node}
    (hvalue : value.Formed (fun _ => True) .operand) :
    parts.setDefault env name value = of (parts.caught.setDefault env name value) := by
  rw [Leaver.setDefault, Evaluator.setDefault]
  cases env.isGlobal with
  | true => rfl
  | false =>
    show (of get >>= _) = of (get >>= _)
    rw [of_bind]
    congr
    funext m
    generalize m.scopes.var? env name = found
    rw [h env _ hvalue]
    split <;> simp only [of_bind, of_pure]

theorem node_chain (host : Host) (env : Env) {s : Span} {value link : Node}
    (hvalue : value.Formed (fun _ => True) .operand)
    (hlink : link.Formed (fun _ => True) .operand) :
    parts.node host env (.chain s value link)
      = of (do return (← parts.caught.node host env (.chain s value link)).value) := by
  simp only [Leaver.node, Evaluator.node, of_bind, bind_assoc]
  congr
  funext _
  have evaluated : ∀ {r : Except Fault Node},
      (∀ call, r = .ok call → call.Formed (fun _ => True) .operand) →
      (of (Eval.ofFault r) >>= fun call => parts.evaluate env call)
        = of (Eval.ofFault r >>= fun call => do return (← parts.caught.evaluate env call).value) :=
    fun hr => of_ofFault_bind fun call hcall => h env call (hr call hcall)
  have hplain := evaluated (r := Node.unchainAs s value link) fun _ => hvalue.unchainAs hlink
  cases value.asIdentifier? with
  | none =>
    simp only [of_bind, bind_assoc] at hplain ⊢
    exact hplain
  | some name =>
    have hplugin := evaluated (r := Node.pluginCall name s link) fun _ => hlink.pluginCall
    simp only [of_bind, bind_assoc] at hplain hplugin ⊢
    congr
    funext found
    cases found with
    | true => simpa only [if_true, of_bind, bind_assoc] using hplugin
    | false => simpa only [Bool.false_eq_true, if_false, of_bind, bind_assoc] using hplain

end Whole

end Leaver

/-! ## What comes of a script -/

/-- The trees that come of statements: their parts, what they are rewritten to, and the calls that
chains and updates are replaced by while they are evaluated. -/
inductive Node.Arises (statements : List Node) : Node → Prop where
  | statement {n : Node} : n ∈ statements → Arises statements n
  | part {n u : Node} : Arises statements n → u ∈ n.parts → Arises statements u
  | unchain {n u : Node} : Arises statements n → n.unchain = .ok u → Arises statements u
  | chain {s : Span} {value link u : Node} : Arises statements (.chain s value link) →
      unchainAs s value link = .ok u → Arises statements u
  | plugin {s : Span} {value link u : Node} (owner : String) :
      Arises statements (.chain s value link) → pluginCall owner s link = .ok u →
      Arises statements u
  | update {s : Span} {target link u : Node} : Arises statements (.assign s target .chain link) →
      unchainAs link.span target link = .ok u → Arises statements u

/-- The trees whose values are read when a tree is evaluated. -/
inductive Node.Reads : Node → Node → Prop where
  | target {s : Span} {target value : Node} {op : AssignOp} :
      Reads (.assign s target op value) target
  | assigned {s : Span} {target value : Node} {op : AssignOp} :
      Reads (.assign s target op value) value
  | update {s : Span} {target link call : Node} : unchainAs link.span target link = .ok call →
      Reads (.assign s target .chain link) call
  | lhs {s : Span} {op : BinaryOp} {lhs rhs : Node} : Reads (.binary s op lhs rhs) lhs
  | rhs {s : Span} {op : BinaryOp} {lhs rhs : Node} : Reads (.binary s op lhs rhs) rhs
  | operand {s : Span} {op : UnaryOp} {operand : Node} : Reads (.unary s op operand) operand
  | condition {s : Span} {condition yes no : Node} : Reads (.ternary s condition yes no) condition
  | yes {s : Span} {condition yes no : Node} : Reads (.ternary s condition yes no) yes
  | no {s : Span} {condition yes no : Node} : Reads (.ternary s condition yes no) no
  | argument {s : Span} {callee : Callee} {args : List (Labelled Node)} {a : Labelled Node} :
      a ∈ args → Reads (.call s callee args) a.content
  | default {s : Span} {name : String} {value : Node} : Reads (.defaultValue s name value) value
  | returned {s : Span} {value : Node} : Reads (.returnValue s (some value)) value
  | branch {s : Span} {condition yes : Node} {no : Option Node} :
      Reads (.ifElse s condition yes no) condition

namespace Node

variable {imported : String → Prop} {role : Role} {n r : Node}

theorem Formed.of_reads (h : n.Formed imported role) (hr : n.Reads r) :
    r.Formed imported .operand := by
  induction h with
  | alone _ ih => exact ih hr
  | leaf => cases hr
  | assign htarget hvalue =>
    cases hr with
    | target => exact htarget
    | assigned => exact hvalue
    | update hcall => exact htarget.unchainAs hvalue hcall
  | binary hlhs hrhs =>
    cases hr with
    | lhs => exact hlhs
    | rhs => exact hrhs
  | unary hoperand =>
    cases hr
    exact hoperand
  | ternary hcondition hyes hno =>
    cases hr with
    | condition => exact hcondition
    | yes => exact hyes
    | no => exact hno
  | call _ hargs =>
    cases hr with
    | argument ha => exact hargs _ ha
  | chain => cases hr
  | sequence => cases hr
  | functionDef => cases hr
  | defaultValue hvalue =>
    cases hr
    exact hvalue
  | returnValue hvalue =>
    cases hr
    exact hvalue _ rfl
  | ifElse hcondition =>
    cases hr
    exact hcondition
  | importName => cases hr

theorem Formed.of_mem_parts (h : n.Formed imported role) (hr : r ∈ n.parts) :
    ∃ role, r.Formed imported role := by
  induction h with
  | alone _ ih => exact ih hr
  | leaf => cases hr
  | assign htarget hvalue =>
    simp only [parts, List.mem_cons, List.not_mem_nil, or_false] at hr
    rcases hr with rfl | rfl
    · exact ⟨_, htarget⟩
    · exact ⟨_, hvalue⟩
  | binary hlhs hrhs =>
    simp only [parts, List.mem_cons, List.not_mem_nil, or_false] at hr
    rcases hr with rfl | rfl
    · exact ⟨_, hlhs⟩
    · exact ⟨_, hrhs⟩
  | unary hoperand =>
    obtain rfl := List.mem_singleton.mp hr
    exact ⟨_, hoperand⟩
  | ternary hcondition hyes hno =>
    simp only [parts, List.mem_cons, List.not_mem_nil, or_false] at hr
    rcases hr with rfl | rfl | rfl
    · exact ⟨_, hcondition⟩
    · exact ⟨_, hyes⟩
    · exact ⟨_, hno⟩
  | call _ hargs =>
    obtain ⟨a, ha, rfl⟩ := List.mem_map.mp hr
    exact ⟨_, hargs a ha⟩
  | chain hvalue hlink =>
    simp only [parts, List.mem_cons, List.not_mem_nil, or_false] at hr
    rcases hr with rfl | rfl
    · exact ⟨_, hvalue⟩
    · exact ⟨_, hlink⟩
  | sequence hbody => exact ⟨_, hbody r hr⟩
  | functionDef _ hbody =>
    obtain rfl := List.mem_singleton.mp hr
    exact ⟨_, hbody⟩
  | defaultValue hvalue =>
    obtain rfl := List.mem_singleton.mp hr
    exact ⟨_, hvalue⟩
  | returnValue hvalue => exact ⟨_, hvalue r (Option.mem_toList.mp hr)⟩
  | ifElse hcondition hyes hno =>
    simp only [parts, List.mem_cons, Option.mem_toList] at hr
    rcases hr with rfl | rfl | hr
    · exact ⟨_, hcondition⟩
    · exact ⟨_, hyes⟩
    · exact ⟨_, hno r hr⟩
  | importName => cases hr

theorem Arises.formed {statements : List Node}
    (hstatements : ∀ n ∈ statements, n.Formed imported .statement) (h : Arises statements n) :
    ∃ role, n.Formed imported role := by
  have made : ∀ {s : Span} {value link : Node} {role : Role},
      (Node.chain s value link).Formed imported role →
      value.Formed imported .operand ∧ link.Formed imported .operand := by
    intro s value link role hchain
    cases role with
    | operand => cases hchain with | chain hvalue hlink => exact ⟨hvalue, hlink⟩
    | statement =>
      cases hchain with
      | alone hchain => cases hchain with | chain hvalue hlink => exact ⟨hvalue, hlink⟩
  induction h with
  | statement hn => exact ⟨_, hstatements _ hn⟩
  | part _ hu ih =>
    obtain ⟨role, hn⟩ := ih
    exact hn.of_mem_parts hu
  | unchain _ hu ih =>
    obtain ⟨role, hn⟩ := ih
    exact ⟨role, hn.unchain hu⟩
  | chain _ hu ih =>
    obtain ⟨role, hn⟩ := ih
    exact ⟨_, (made hn).1.unchainAs (made hn).2 hu⟩
  | plugin owner _ hu ih =>
    obtain ⟨role, hn⟩ := ih
    exact ⟨_, (made hn).2.pluginCall hu⟩
  | update _ hu ih =>
    obtain ⟨role, hn⟩ := ih
    exact ⟨_, hn.of_reads (.update hu)⟩

end Node

/-! ## Runs -/

namespace Corpus

end Corpus

namespace Interpreter

end Interpreter
end ClipScript
