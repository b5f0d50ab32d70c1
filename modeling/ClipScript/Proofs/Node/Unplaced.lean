/-
Trees without their places.

`Node.unplaced` forgets every span of a tree.  Two trees with the same unplaced tree are the same
program at different places, and replacing chains by calls does not look at places: it commutes
with forgetting them (`unchain_unplaced`, `unchainAs_unplaced`, `pluginCall_unplaced`).

A tree holds lists of trees, so the induction that comes with the type is about three kinds of
things at once.  `Node.induct` is the one that proofs want: it gives the statement for every member
of a list.
-/
import ClipScript.Chain

namespace ClipScript

theorem ok_of_bind {α β : Type} {x : Except Fault α} {f : α → Except Fault β} {b : β}
    (h : x >>= f = .ok b) : ∃ a, x = .ok a ∧ f a = .ok b := by
  cases x with
  | error fault => cases h
  | ok a => exact ⟨a, rfl, h⟩

theorem ok_of_map {α β : Type} {x : Except Fault α} {f : α → β} {b : β} (h : x.map f = .ok b) :
    ∃ a, x = .ok a ∧ f a = b := by
  cases x with
  | error fault => cases h
  | ok a => exact ⟨a, rfl, Except.ok.inj h⟩

def Param.unplaced (p : Param) : Param := { p with span := .nowhere }

namespace Node

mutual

def unplaced : Node → Node
  | leaf _ v => leaf .nowhere v
  | sequence _ body => sequence .nowhere (unplacedAll body)
  | assign _ target op value => assign .nowhere target.unplaced op value.unplaced
  | binary _ op lhs rhs => binary .nowhere op lhs.unplaced rhs.unplaced
  | unary _ op operand => unary .nowhere op operand.unplaced
  | ternary _ condition yes no => ternary .nowhere condition.unplaced yes.unplaced no.unplaced
  | call _ callee args => call .nowhere callee (unplacedArgs args)
  | chain _ value link => chain .nowhere value.unplaced link.unplaced
  | functionDef _ name params body =>
    functionDef .nowhere name (params.map Param.unplaced) body.unplaced
  | defaultValue _ name value => defaultValue .nowhere name value.unplaced
  | returnValue _ none => returnValue .nowhere none
  | returnValue _ (some value) => returnValue .nowhere (some value.unplaced)
  | ifElse _ condition yes none => ifElse .nowhere condition.unplaced yes.unplaced none
  | ifElse _ condition yes (some no) =>
    ifElse .nowhere condition.unplaced yes.unplaced (some no.unplaced)
  | importName _ name => importName .nowhere name

def unplacedAll : List Node → List Node
  | [] => []
  | node :: rest => node.unplaced :: unplacedAll rest

def unplacedArgs : List (Labelled Node) → List (Labelled Node)
  | [] => []
  | ⟨label, value⟩ :: rest => ⟨label, value.unplaced⟩ :: unplacedArgs rest

end

theorem unplacedAll_eq_map (nodes : List Node) : unplacedAll nodes = nodes.map unplaced := by
  induction nodes with
  | nil => rfl
  | cons node rest ih => rw [unplacedAll, ih, List.map_cons]

theorem unplacedArgs_eq_map (args : List (Labelled Node)) :
    unplacedArgs args = args.map fun a => ⟨a.label, a.content.unplaced⟩ := by
  induction args with
  | nil => rfl
  | cons arg rest ih => rw [unplacedArgs, ih, List.map_cons]

@[simp] theorem unplaced_returnValue (s : Span) (value : Option Node) :
    (returnValue s value).unplaced = returnValue .nowhere (value.map unplaced) := by
  cases value <;> rfl

@[simp] theorem unplaced_ifElse (s : Span) (condition yes : Node) (no : Option Node) :
    (ifElse s condition yes no).unplaced
      = ifElse .nowhere condition.unplaced yes.unplaced (no.map unplaced) := by
  cases no <;> rfl

/-- Induction on a tree, with the statement at hand for every part of it. -/
@[elab_as_elim]
theorem induct {motive : Node → Prop}
    (leaf : ∀ s v, motive (.leaf s v))
    (sequence : ∀ s body, (∀ n ∈ body, motive n) → motive (.sequence s body))
    (assign : ∀ s target op value, motive target → motive value →
      motive (.assign s target op value))
    (binary : ∀ s op lhs rhs, motive lhs → motive rhs → motive (.binary s op lhs rhs))
    (unary : ∀ s op operand, motive operand → motive (.unary s op operand))
    (ternary : ∀ s condition yes no, motive condition → motive yes → motive no →
      motive (.ternary s condition yes no))
    (call : ∀ s callee args, (∀ a ∈ args, motive a.content) → motive (.call s callee args))
    (chain : ∀ s value link, motive value → motive link → motive (.chain s value link))
    (functionDef : ∀ s name params body, motive body → motive (.functionDef s name params body))
    (defaultValue : ∀ s name value, motive value → motive (.defaultValue s name value))
    (returnValue : ∀ s value, (∀ n ∈ value, motive n) → motive (.returnValue s value))
    (ifElse : ∀ s condition yes no, motive condition → motive yes → (∀ n ∈ no, motive n) →
      motive (.ifElse s condition yes no))
    (importName : ∀ s name, motive (.importName s name)) (node : Node) : motive node := by
  refine @Node.rec motive (fun body => ∀ n ∈ body, motive n)
    (fun args => ∀ a ∈ args, motive a.content) (fun no => ∀ n ∈ no, motive n)
    (fun arg => motive arg.content) leaf sequence assign binary unary ternary call chain functionDef
    defaultValue returnValue ifElse importName ?_ ?_ ?_ ?_ ?_ ?_ ?_ node
  · intro n hn
    cases hn
  · intro head tail hhead htail n hn
    rcases List.mem_cons.mp hn with rfl | hn
    · exact hhead
    · exact htail n hn
  · intro a ha
    cases ha
  · intro head tail hhead htail a ha
    rcases List.mem_cons.mp ha with rfl | ha
    · exact hhead
    · exact htail a ha
  · intro n hn
    cases hn
  · intro value hvalue n hn
    rcases Option.mem_some.mp hn with rfl
    exact hvalue
  · intro label content hcontent
    exact hcontent

@[simp] theorem asIdentifier?_unplaced (n : Node) : n.unplaced.asIdentifier? = n.asIdentifier? := by
  cases n with
  | leaf s v => cases v <;> rfl
  | returnValue s value => cases value <;> rfl
  | ifElse s condition yes no => cases no <;> rfl
  | _ => rfl

@[simp] theorem kindName_unplaced (n : Node) : n.unplaced.kindName = n.kindName := by
  cases n with
  | returnValue s value => rw [unplaced_returnValue]; rfl
  | ifElse s condition yes no => rw [unplaced_ifElse]; rfl
  | _ => rfl

/-! ## Chains

The equations of `unchain` for a chain and for `.=`, with the condition that tells them from the
other forms. -/

attribute [simp] unchain

theorem unchain_chain_of_isSome {s : Span} {value link : Node} (h : value.asIdentifier?.isSome) :
    (chain s value link).unchain = .ok (chain s value link) := by
  obtain ⟨name, hname⟩ := Option.isSome_iff_exists.mp h
  rw [eq_identifier_of_asIdentifier? hname]
  rfl

theorem unchain_chain {s : Span} {value link : Node} (h : value.asIdentifier? = none) :
    (chain s value link).unchain = unchainAs s value link := by
  rw [unchain]
  · rfl
  · intro t name hvalue
    rw [hvalue] at h
    cases h

theorem unchain_assign_chain (s : Span) (target link : Node) :
    (assign s target .chain link).unchain
      = (unchainAs s target link).map (assign s target .assign) := by
  rw [unchain, unchainAs]
  cases target.unchain <;> rfl

theorem unchain_assign {s : Span} {target value : Node} {op : AssignOp} (h : op ≠ .chain) :
    (assign s target op value).unchain = value.unchain.map (assign s target op) := by
  rw [unchain]
  · rfl
  · exact h

/-- What has to be shown of a tree: replacing its chains by calls, and letting a value flow into
it, both commute with forgetting places. -/
def Commutes (n : Node) : Prop :=
  n.unplaced.unchain = n.unchain.map unplaced ∧
    ∀ s v, pipe .nowhere v.unplaced n.unplaced = (pipe s v n).map unplaced

theorem commutes_unchainAll {nodes : List Node} (h : ∀ n ∈ nodes, Commutes n) :
    unchainAll (unplacedAll nodes) = (unchainAll nodes).map unplacedAll := by
  induction nodes with
  | nil => rfl
  | cons node rest ih =>
    have hnode := (h node List.mem_cons_self).1
    have hrest := ih fun n hn => h n (List.mem_cons_of_mem _ hn)
    simp only [unplacedAll, unchainAll, hnode, hrest]
    cases node.unchain with
    | error f => rfl
    | ok u => cases unchainAll rest <;> rfl

theorem commutes_unchainArgs {args : List (Labelled Node)}
    (h : ∀ a ∈ args, Commutes a.content) :
    unchainArgs (unplacedArgs args) = (unchainArgs args).map unplacedArgs := by
  induction args with
  | nil => rfl
  | cons arg rest ih =>
    have harg := (h arg List.mem_cons_self).1
    have hrest := ih fun a ha => h a (List.mem_cons_of_mem _ ha)
    simp only [unplacedArgs, unchainArgs, harg, hrest]
    cases arg.content.unchain with
    | error f => rfl
    | ok u => cases unchainArgs rest <;> rfl

theorem commutes_of_not_callable {n : Node} (h : n.unplaced.unchain = n.unchain.map unplaced)
    (hpipe : ∀ s v, pipe s v n = .error (.notCallable n.kindName))
    (hunplaced : ∀ s v, pipe s v n.unplaced = .error (.notCallable n.unplaced.kindName)) :
    Commutes n := by
  refine ⟨h, fun s v => ?_⟩
  rw [hpipe, hunplaced, kindName_unplaced]
  rfl

theorem commutes (n : Node) : Commutes n := by
  induction n using Node.induct with
  | leaf s v =>
    refine ⟨rfl, fun t w => ?_⟩
    cases v <;> rfl
  | sequence s body ih =>
    refine commutes_of_not_callable ?_ (fun _ _ => rfl) (fun _ _ => rfl)
    simp only [unplaced, unchain, commutes_unchainAll ih]
    cases unchainAll body <;> rfl
  | assign s target op value ihtarget ihvalue =>
    refine commutes_of_not_callable ?_ (fun _ _ => rfl) (fun _ _ => rfl)
    by_cases hop : op = .chain
    · subst hop
      rw [unplaced, unchain_assign_chain, unchain_assign_chain, unchainAs, unchainAs, ihtarget.1]
      cases target.unchain with
      | error f => rfl
      | ok t =>
        show (pipe .nowhere t.unplaced value.unplaced).map _ = ((pipe s t value).map _).map _
        rw [ihvalue.2 s t]
        cases pipe s t value <;> rfl
    · rw [unplaced, unchain_assign hop, unchain_assign hop, ihvalue.1]
      cases value.unchain <;> rfl
  | binary s op lhs rhs ihlhs ihrhs =>
    refine commutes_of_not_callable ?_ (fun _ _ => rfl) (fun _ _ => rfl)
    simp only [unplaced, unchain, ihlhs.1, ihrhs.1]
    cases lhs.unchain with
    | error f => rfl
    | ok l => cases rhs.unchain <;> rfl
  | unary s op operand ih =>
    refine commutes_of_not_callable ?_ (fun _ _ => rfl) (fun _ _ => rfl)
    simp only [unplaced, unchain, ih.1]
    cases operand.unchain <;> rfl
  | ternary s condition yes no ihcondition ihyes ihno =>
    refine commutes_of_not_callable ?_ (fun _ _ => rfl) (fun _ _ => rfl)
    simp only [unplaced, unchain, ihcondition.1, ihyes.1, ihno.1]
    cases condition.unchain with
    | error f => rfl
    | ok c =>
      cases yes.unchain with
      | error f => rfl
      | ok y => cases no.unchain <;> rfl
  | call s callee args ih =>
    refine ⟨?_, fun t w => ?_⟩
    · simp only [unplaced, unchain, commutes_unchainArgs ih]
      cases unchainArgs args <;> rfl
    · simp only [unplaced, pipe, commutes_unchainArgs ih]
      cases unchainArgs args <;> rfl
  | chain s value link ihvalue ihlink =>
    refine ⟨?_, fun t w => ?_⟩
    · cases hvalue : value.asIdentifier? with
      | some name =>
        have hsome : value.asIdentifier?.isSome := by rw [hvalue]; rfl
        rw [unplaced, unchain_chain_of_isSome hsome,
          unchain_chain_of_isSome (by rw [asIdentifier?_unplaced]; exact hsome)]
        rfl
      | none =>
        rw [unplaced, unchain_chain hvalue,
          unchain_chain (by rw [asIdentifier?_unplaced]; exact hvalue), unchainAs, unchainAs,
          ihvalue.1]
        cases value.unchain with
        | error f => rfl
        | ok v => exact ihlink.2 s v
    · simp only [unplaced, pipe]
      rw [ihvalue.2 t w]
      cases pipe t w value with
      | error f => rfl
      | ok v => exact ihlink.2 t v
  | functionDef s name params body ih =>
    refine commutes_of_not_callable ?_ (fun _ _ => rfl) (fun _ _ => rfl)
    simp only [unplaced, unchain, ih.1]
    cases body.unchain <;> rfl
  | defaultValue s name value ih =>
    refine commutes_of_not_callable ?_ (fun _ _ => rfl) (fun _ _ => rfl)
    simp only [unplaced, unchain, ih.1]
    cases value.unchain <;> rfl
  | returnValue s value ih =>
    cases value with
    | none => exact ⟨rfl, fun _ _ => rfl⟩
    | some value =>
      refine commutes_of_not_callable ?_ (fun _ _ => rfl) (fun _ _ => rfl)
      simp only [unplaced, unchain, (ih value rfl).1]
      cases value.unchain <;> rfl
  | ifElse s condition yes no ihcondition ihyes ihno =>
    cases no with
    | none =>
      refine commutes_of_not_callable ?_ (fun _ _ => rfl) (fun _ _ => rfl)
      simp only [unplaced, unchain, ihcondition.1, ihyes.1]
      cases condition.unchain with
      | error f => rfl
      | ok c => cases yes.unchain <;> rfl
    | some no =>
      refine commutes_of_not_callable ?_ (fun _ _ => rfl) (fun _ _ => rfl)
      simp only [unplaced, unchain, ihcondition.1, ihyes.1, (ihno no rfl).1]
      cases condition.unchain with
      | error f => rfl
      | ok c =>
        cases yes.unchain with
        | error f => rfl
        | ok y => cases no.unchain <;> rfl
  | importName s name => exact ⟨rfl, fun _ _ => rfl⟩

theorem unchain_unplaced (n : Node) : n.unplaced.unchain = n.unchain.map unplaced :=
  (commutes n).1

theorem pipe_unplaced (s : Span) (v n : Node) :
    pipe .nowhere v.unplaced n.unplaced = (pipe s v n).map unplaced :=
  (commutes n).2 s v

theorem unchainArgs_unplaced (args : List (Labelled Node)) :
    unchainArgs (unplacedArgs args) = (unchainArgs args).map unplacedArgs :=
  commutes_unchainArgs fun a _ => commutes a.content

theorem unchainAs_unplaced (s : Span) (value link : Node) :
    unchainAs .nowhere value.unplaced link.unplaced = (unchainAs s value link).map unplaced := by
  rw [unchainAs, unchainAs, unchain_unplaced]
  cases value.unchain with
  | error f => rfl
  | ok v => exact pipe_unplaced s v link

theorem pluginCall_unplaced (owner : String) (s : Span) (n : Node) :
    pluginCall owner .nowhere n.unplaced = (pluginCall owner s n).map unplaced := by
  induction n using Node.induct with
  | leaf t v =>
    cases v with
    | identifier name => rfl
    | _ => exact unchainAs_unplaced s (identifier s owner) (leaf t _)
  | call t callee args ih =>
    cases callee with
    | named function =>
      simp only [unplaced, pluginCall, unchainArgs_unplaced]
      cases unchainArgs args <;> rfl
    | plugin other function =>
      exact unchainAs_unplaced s (identifier s owner) (call t (.plugin other function) args)
  | chain t value link ihvalue ihlink =>
    simp only [unplaced, pluginCall, ihvalue]
    cases pluginCall owner s value with
    | error f => rfl
    | ok v => exact pipe_unplaced s v link
  | sequence t body ih => exact unchainAs_unplaced s (identifier s owner) (sequence t body)
  | assign t target op value ihtarget ihvalue =>
    exact unchainAs_unplaced s (identifier s owner) (assign t target op value)
  | binary t op lhs rhs ihlhs ihrhs =>
    exact unchainAs_unplaced s (identifier s owner) (binary t op lhs rhs)
  | unary t op operand ih => exact unchainAs_unplaced s (identifier s owner) (unary t op operand)
  | ternary t condition yes no ihcondition ihyes ihno =>
    exact unchainAs_unplaced s (identifier s owner) (ternary t condition yes no)
  | functionDef t name params body ih =>
    exact unchainAs_unplaced s (identifier s owner) (functionDef t name params body)
  | defaultValue t name value ih =>
    exact unchainAs_unplaced s (identifier s owner) (defaultValue t name value)
  | returnValue t value ih =>
    cases value <;> exact unchainAs_unplaced s (identifier s owner) (returnValue t _)
  | ifElse t condition yes no ihcondition ihyes ihno =>
    cases no <;> exact unchainAs_unplaced s (identifier s owner) (ifElse t condition yes _)
  | importName t name => exact unchainAs_unplaced s (identifier s owner) (importName t name)

end Node
end ClipScript
