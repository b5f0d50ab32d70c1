/-
Replacing chains by calls ahead of a run makes no difference to it.

`Node.unchain` does before a run what the evaluator does when it reaches a chain or a `.=`.  The two
runs define different functions, since one stores bodies as they were written and the other stores
them rewritten.  So they are compared from machines that differ in that way already
(`Coupling.unchaining`), and such machines are what they lead to.

A chain takes the evaluator one level more than the call it stands for.  The run of the rewritten
tree therefore needs no more depth than that of the tree as written, and this one at most twice as
much.
-/
import ClipScript.Proofs.Coupling.Symmetry
import ClipScript.Proofs.Coupling.Tables
import ClipScript.Proofs.Depth

theorem List.Forall₂.compose {α β γ : Type} {r : α → β → Prop} {r' : β → γ → Prop}
    {r'' : α → γ → Prop} {xs : List α} {ys : List β} {zs : List γ} (hxy : List.Forall₂ r xs ys)
    (hyz : List.Forall₂ r' ys zs) (h : ∀ a b c, r a b → r' b c → r'' a c) :
    List.Forall₂ r'' xs zs := by
  induction hxy generalizing zs with
  | nil =>
    cases hyz
    exact .nil
  | cons hab hrest ih =>
    cases hyz with
    | cons hbc hrest' => exact .cons (h _ _ _ hab hbc) (ih hrest')

namespace ClipScript

/-! ## Trees that differ in their places only -/

namespace Node

theorem forall₂_of_unplacedAll {nodes nodes' : List Node}
    (h : unplacedAll nodes = unplacedAll nodes') :
    List.Forall₂ (fun n n' => n.unplaced = n'.unplaced) nodes nodes' := by
  induction nodes generalizing nodes' with
  | nil =>
    cases nodes' with
    | nil => exact .nil
    | cons => cases h
  | cons node rest ih =>
    cases nodes' with
    | nil => cases h
    | cons node' rest' =>
      simp only [unplacedAll, List.cons.injEq] at h
      exact .cons h.1 (ih h.2)

theorem forall₂_of_unplacedArgs {args args' : List (Labelled Node)}
    (h : unplacedArgs args = unplacedArgs args') :
    List.Forall₂ (fun a a' => a.label = a'.label ∧ a.content.unplaced = a'.content.unplaced)
      args args' := by
  induction args generalizing args' with
  | nil =>
    cases args' with
    | nil => exact .nil
    | cons => cases h
  | cons arg rest ih =>
    cases args' with
    | nil => cases h
    | cons arg' rest' =>
      simp only [unplacedArgs, List.cons.injEq, Labelled.mk.injEq] at h
      exact .cons h.1 (ih h.2)

theorem sameFault_of_map_unplaced {r r' : Except Fault Node}
    (h : r.map unplaced = r'.map unplaced) :
    SameFault (fun n n' => n.unplaced = n'.unplaced) r r' := by
  cases r with
  | error f =>
    cases r' with
    | error f' =>
      cases h
      exact .error f
    | ok n' => cases h
  | ok n =>
    cases r' with
    | error f' => cases h
    | ok n' => exact .ok (Except.ok.inj h)

theorem sameFault_unchainAs {value value' link link' : Node}
    (hvalue : value.unplaced = value'.unplaced) (hlink : link.unplaced = link'.unplaced)
    (s s' : Span) :
    SameFault (fun n n' => n.unplaced = n'.unplaced) (unchainAs s value link)
      (unchainAs s' value' link') := by
  apply sameFault_of_map_unplaced
  rw [← unchainAs_unplaced, ← unchainAs_unplaced, hvalue, hlink]

theorem sameFault_pluginCall (owner : String) {link link' : Node}
    (hlink : link.unplaced = link'.unplaced) (s s' : Span) :
    SameFault (fun n n' => n.unplaced = n'.unplaced) (pluginCall owner s link)
      (pluginCall owner s' link') := by
  apply sameFault_of_map_unplaced
  rw [← pluginCall_unplaced, ← pluginCall_unplaced, hlink]

theorem asIdentifier?_eq {n n' : Node} (h : n.unplaced = n'.unplaced) :
    n.asIdentifier? = n'.asIdentifier? := by
  rw [← asIdentifier?_unplaced, h, asIdentifier?_unplaced]

theorem kindName_eq {n n' : Node} (h : n.unplaced = n'.unplaced) : n.kindName = n'.kindName := by
  rw [← kindName_unplaced, h, kindName_unplaced]

end Node

theorem SameFault.trans {α β γ : Type} {r : α → β → Prop} {r' : β → γ → Prop} {r'' : α → γ → Prop}
    {x : Except Fault α} {y : Except Fault β} {z : Except Fault γ} (hxy : SameFault r x y)
    (hyz : SameFault r' y z) (h : ∀ a b c, r a b → r' b c → r'' a c) : SameFault r'' x z := by
  cases hxy with
  | ok hab =>
    cases hyz with
    | ok hbc => exact .ok (h _ _ _ hab hbc)
  | error f =>
    cases hyz with
    | error => exact .error f

namespace Coupling

/-- A coupling to which places do not matter. -/
structure Placeless (C : Coupling) : Prop where
  exact : ¬ C.exact
  node : ∀ {n u n' : Node}, C.node n u → u.unplaced = n'.unplaced → C.node n n'

namespace Placeless

variable {C : Coupling} (hC : C.Placeless)
include hC

theorem nodes {body body' body'' : List Node} (h : List.Forall₂ C.node body body')
    (hbody : Node.unplacedAll body' = Node.unplacedAll body'') :
    List.Forall₂ C.node body body'' :=
  h.compose (Node.forall₂_of_unplacedAll hbody) fun _ _ _ => hC.node

theorem args {args args' args'' : List (Labelled Node)}
    (h : List.Forall₂ (Parts.Argument C) args args')
    (hargs : Node.unplacedArgs args' = Node.unplacedArgs args'') :
    List.Forall₂ (Parts.Argument C) args args'' :=
  h.compose (Node.forall₂_of_unplacedArgs hargs)
    fun _ _ _ ha ha' => ⟨ha.1.trans ha'.1, hC.node ha.2 ha'.2⟩

theorem option {value value' value'' : Option Node} (h : Option.Rel C.node value value')
    (hvalue : value'.map Node.unplaced = value''.map Node.unplaced) :
    Option.Rel C.node value value'' := by
  cases h with
  | none =>
    cases value'' with
    | none => exact .none
    | some => cases hvalue
  | some hn =>
    cases value'' with
    | none => cases hvalue
    | some => exact .some (hC.node hn (Option.some.inj hvalue))

theorem target {t t' t'' : Node} (h : Parts.Target C t t') (ht : t'.unplaced = t''.unplaced) :
    Parts.Target C t t'' :=
  ⟨h.name.trans (Node.asIdentifier?_eq ht), h.kind.trans (Node.kindName_eq ht), hC.node h.node ht⟩

theorem like {n u n' : Node} (h : C.Like n u) (hu : u.unplaced = n'.unplaced) : C.Like n n' := by
  have place : ∀ {s s' : Span}, C.exact → s = s' := fun he => absurd he hC.exact
  have fault : ∀ {x y z : Except Fault Node}, SameFault C.node x y →
      SameFault (fun n n' : Node => n.unplaced = n'.unplaced) y z → SameFault C.node x z :=
    fun hxy hyz => hxy.trans hyz fun _ _ _ => hC.node
  cases h with
  | leaf v hs =>
    cases n' <;> simp [Node.unplaced] at hu
    obtain rfl := hu
    exact .leaf _ place
  | sequence hs hbody =>
    cases n' <;> simp [Node.unplaced] at hu
    exact .sequence place (hC.nodes hbody hu)
  | assign hs hop htarget hvalue =>
    cases n' <;> simp [Node.unplaced] at hu
    obtain ⟨ht, rfl, hv⟩ := hu
    exact .assign place hop (hC.target htarget ht) (hC.node hvalue hv)
  | assignChain hs htarget hlink =>
    cases n' <;> simp [Node.unplaced] at hu
    obtain ⟨ht, rfl, hl⟩ := hu
    exact .assignChain place (hC.target htarget ht)
      (fault hlink (Node.sameFault_unchainAs ht hl _ _))
  | binary op hs hlhs hrhs =>
    cases n' <;> simp [Node.unplaced] at hu
    obtain ⟨rfl, hl, hr⟩ := hu
    exact .binary op place (hC.node hlhs hl) (hC.node hrhs hr)
  | unary op hs hoperand =>
    cases n' <;> simp [Node.unplaced] at hu
    obtain ⟨rfl, ho⟩ := hu
    exact .unary op place (hC.node hoperand ho)
  | ternary hs hcondition hyes hno =>
    cases n' <;> simp [Node.unplaced] at hu
    obtain ⟨hc, hy, hn⟩ := hu
    exact .ternary place (hC.node hcondition hc) (hC.node hyes hy) (hC.node hno hn)
  | call callee hs hargs =>
    cases n' <;> simp [Node.unplaced] at hu
    obtain ⟨rfl, ha⟩ := hu
    exact .call callee place (hC.args hargs ha)
  | chain hs hhead hplugin hcall =>
    cases n' <;> simp [Node.unplaced] at hu
    obtain ⟨hv, hl⟩ := hu
    exact .chain place (hhead.trans (Node.asIdentifier?_eq hv))
      (fun owner => fault (hplugin owner) (Node.sameFault_pluginCall owner hl _ _))
      (fault hcall (Node.sameFault_unchainAs hv hl _ _))
  | functionDef name hs hparams hbody =>
    cases n' <;> simp [Node.unplaced] at hu
    obtain ⟨rfl, hp, hb⟩ := hu
    exact .functionDef name place ⟨hparams.1.trans hp, fun he => absurd he hC.exact⟩
      (hC.node hbody hb)
  | defaultValue name hs hvalue =>
    cases n' <;> simp [Node.unplaced] at hu
    obtain ⟨rfl, hv⟩ := hu
    exact .defaultValue name place (hC.node hvalue hv)
  | returnValue hs hvalue =>
    cases n' <;> simp [Node.unplaced] at hu
    exact .returnValue place (hC.option hvalue hu)
  | ifElse hs hcondition hyes hno =>
    cases n' <;> simp [Node.unplaced] at hu
    obtain ⟨hc, hy, hn⟩ := hu
    exact .ifElse place (hC.node hcondition hc) (hC.node hyes hy) (hC.option hno hn)
  | importName name hs hscripts =>
    cases n' <;> simp [Node.unplaced] at hu
    obtain rfl := hu
    exact .importName _ place hscripts

end Placeless
end Coupling

/-! ## Trees before and after -/

/-- The second tree is the first, or what becomes of it when its chains are replaced by calls, at
whatever places. -/
def Node.Unchained (n n' : Node) : Prop :=
  ∃ u, (u = n ∨ n.unchain = .ok u) ∧ u.unplaced = n'.unplaced

theorem Node.Unchained.of_unchain {n n' : Node} (h : n.unchain = .ok n') : n.Unchained n' :=
  ⟨n', .inr h, rfl⟩

theorem Node.Unchained.refl (n : Node) : n.Unchained n := ⟨n, .inl rfl, rfl⟩

namespace Coupling

/-- Runs of a tree as it was written and of a rewritten one.  The variables are the same in all
scopes, and the functions have the same names and parameters, and bodies before and after. -/
def unchaining : Coupling :=
  tables False True Node.Unchained 0 Node.Unchained.refl fun _ => rfl

theorem unchaining_placeless : unchaining.Placeless :=
  ⟨id, fun ⟨u, hu, hplaces⟩ h => ⟨u, hu, hplaces.trans h⟩⟩

theorem unchainAll_forall₂ {body body' : List Node} (h : Node.unchainAll body = .ok body') :
    List.Forall₂ Node.Unchained body body' := by
  induction body generalizing body' with
  | nil =>
    cases h
    exact .nil
  | cons n rest ih =>
    rw [Node.unchainAll] at h
    obtain ⟨u, hu, h⟩ := ok_of_bind h
    obtain ⟨rest', hrest, h⟩ := ok_of_bind h
    cases h
    exact .cons (.of_unchain hu) (ih hrest)

theorem unchainArgs_forall₂ {args args' : List (Labelled Node)}
    (h : Node.unchainArgs args = .ok args') :
    List.Forall₂ (Parts.Argument unchaining) args args' := by
  induction args generalizing args' with
  | nil =>
    cases h
    exact .nil
  | cons a rest ih =>
    rw [Node.unchainArgs] at h
    obtain ⟨u, hu, h⟩ := ok_of_bind h
    obtain ⟨rest', hrest, h⟩ := ok_of_bind h
    cases h
    exact .cons ⟨rfl, .of_unchain hu⟩ (ih hrest)

/-- How the evaluator gets from a tree to its rewritten form: it goes about the two alike, if need
be after some other tree took the place of the first, or it evaluates the rewritten form next. -/
inductive Becomes (n n' : Node) : Prop where
  | now (k : Node) : (∀ host P env, Evaluator.node host P env n = Evaluator.node host P env k) →
      unchaining.Like k n' → Becomes n n'
  | next (s : Span) (u : Node) : (∀ host P env,
      Evaluator.node host P env n = (do Eval.moveTo s; P.evaluate env u)) →
      u.unplaced = n'.unplaced → Becomes n n'

theorem Becomes.of_like {n n' : Node} (h : unchaining.Like n n') : Becomes n n' :=
  .now n (fun _ _ _ => rfl) h

theorem becomes_chain {s : Span} {value link u : Node} (hvalue : value.asIdentifier? = none)
    (hu : Node.unchainAs s value link = .ok u) : Becomes (.chain s value link) u := by
  refine .next s u (fun host P env => ?_) rfl
  rw [Evaluator.node, hvalue, hu]
  rfl

/-- An assignment `x .= f(b)` is carried out as `x = f(x, b)`, and an assignment to anything but a
name is refused in both forms. -/
theorem becomes_assign_chain {s : Span} {target link u : Node}
    (hu : Node.unchainAs s target link = .ok u) :
    Becomes (.assign s target .chain link) (.assign s target .assign u) := by
  have hfault : SameFault (fun n n' : Node => n.unplaced = n'.unplaced)
      (Node.unchainAs link.span target link) (Node.unchainAs s target link) :=
    Node.sameFault_unchainAs rfl rfl _ _
  rw [hu] at hfault
  generalize hcall : Node.unchainAs link.span target link = r at hfault
  cases hfault with
  | @ok call _ hplaces =>
    refine .now (.assign s target .assign call) (fun host P env => ?_) ?_
    · rw [Evaluator.node, Evaluator.node, Evaluator.assign, Evaluator.assign, hcall]
      cases target.asIdentifier? <;> rfl
    · exact .assign (fun _ => rfl) (by decide) ⟨rfl, rfl, .refl target⟩ ⟨call, .inl rfl, hplaces⟩

theorem becomes_of_unchain {n u : Node} (h : n.unchain = .ok u) : Becomes n u := by
  have hself : ∀ n : Node, Becomes n n := fun n => .of_like (.refl n (.inl trivial))
  cases n with
  | leaf s v =>
    cases h
    exact hself _
  | sequence s body =>
    rw [Node.unchain] at h
    obtain ⟨body', hbody, h⟩ := ok_of_bind h
    cases h
    exact .of_like (.sequence (fun _ => rfl) (unchainAll_forall₂ hbody))
  | assign s target op value =>
    by_cases hop : op = .chain
    · subst hop
      rw [Node.unchain_assign_chain] at h
      obtain ⟨call, hcall, rfl⟩ := ok_of_map h
      exact becomes_assign_chain hcall
    · rw [Node.unchain_assign hop] at h
      obtain ⟨value', hvalue, rfl⟩ := ok_of_map h
      exact .of_like (.assign (fun _ => rfl) hop ⟨rfl, rfl, .refl target⟩ (.of_unchain hvalue))
  | binary s op lhs rhs =>
    rw [Node.unchain] at h
    obtain ⟨lhs', hlhs, h⟩ := ok_of_bind h
    obtain ⟨rhs', hrhs, h⟩ := ok_of_bind h
    cases h
    exact .of_like (.binary op (fun _ => rfl) (.of_unchain hlhs) (.of_unchain hrhs))
  | unary s op operand =>
    rw [Node.unchain] at h
    obtain ⟨operand', hoperand, h⟩ := ok_of_bind h
    cases h
    exact .of_like (.unary op (fun _ => rfl) (.of_unchain hoperand))
  | ternary s condition yes no =>
    rw [Node.unchain] at h
    obtain ⟨condition', hcondition, h⟩ := ok_of_bind h
    obtain ⟨yes', hyes, h⟩ := ok_of_bind h
    obtain ⟨no', hno, h⟩ := ok_of_bind h
    cases h
    exact .of_like (.ternary (fun _ => rfl) (.of_unchain hcondition) (.of_unchain hyes)
      (.of_unchain hno))
  | call s callee args =>
    rw [Node.unchain] at h
    obtain ⟨args', hargs, h⟩ := ok_of_bind h
    cases h
    exact .of_like (.call callee (fun _ => rfl) (unchainArgs_forall₂ hargs))
  | functionDef s name params body =>
    rw [Node.unchain] at h
    obtain ⟨body', hbody, h⟩ := ok_of_bind h
    cases h
    exact .of_like (.functionDef name (fun _ => rfl) ⟨rfl, fun _ => rfl⟩ (.of_unchain hbody))
  | defaultValue s name value =>
    rw [Node.unchain] at h
    obtain ⟨value', hvalue, h⟩ := ok_of_bind h
    cases h
    exact .of_like (.defaultValue name (fun _ => rfl) (.of_unchain hvalue))
  | returnValue s value =>
    cases value with
    | none =>
      cases h
      exact hself _
    | some value =>
      rw [Node.unchain] at h
      obtain ⟨value', hvalue, h⟩ := ok_of_bind h
      cases h
      exact .of_like (.returnValue (fun _ => rfl) (.some (.of_unchain hvalue)))
  | ifElse s condition yes no =>
    cases no with
    | none =>
      rw [Node.unchain] at h
      obtain ⟨condition', hcondition, h⟩ := ok_of_bind h
      obtain ⟨yes', hyes, h⟩ := ok_of_bind h
      cases h
      exact .of_like (.ifElse (fun _ => rfl) (.of_unchain hcondition) (.of_unchain hyes) .none)
    | some no =>
      rw [Node.unchain] at h
      obtain ⟨condition', hcondition, h⟩ := ok_of_bind h
      obtain ⟨yes', hyes, h⟩ := ok_of_bind h
      obtain ⟨no', hno, h⟩ := ok_of_bind h
      cases h
      exact .of_like (.ifElse (fun _ => rfl) (.of_unchain hcondition) (.of_unchain hyes)
        (.some (.of_unchain hno)))
  | importName s name =>
    cases h
    exact hself _
  | chain s value link =>
    cases hvalue : value.asIdentifier? with
    | some name =>
      rw [Node.unchain_chain_of_isSome (by rw [hvalue]; rfl)] at h
      cases h
      exact hself _
    | none =>
      rw [Node.unchain_chain hvalue] at h
      exact becomes_chain hvalue h

theorem becomes_of_unchained {n n' : Node} (h : n.Unchained n') : Becomes n n' := by
  obtain ⟨u, hu, hplaces⟩ := h
  have hbecomes : Becomes n u := by
    rcases hu with rfl | hu
    · exact .of_like (.refl _ (.inl trivial))
    · exact becomes_of_unchain hu
  cases hbecomes with
  | now k hk hlike => exact .now k hk (unchaining_placeless.like hlike hplaces)
  | next s v hv hplaces' => exact .next s v hv (hplaces'.trans hplaces)

/-! ## Both runs -/

theorem Simulates.moveTo_left {α β : Type} {C : Coupling} {related : α → β → Prop}
    (hexact : ¬ C.exact) {x : Eval α} {y : Eval β} (h : C.Simulates related x y) (s : Span) :
    C.Simulates related (do Eval.moveTo s; x) y :=
  fun _ _ hmn => h { hmn with span := fun he => absurd he hexact }

theorem Simulates.moveTo_right {α β : Type} {C : Coupling} {related : α → β → Prop}
    (hexact : ¬ C.exact) {x : Eval α} {y : Eval β} (h : C.Simulates related x y) (s : Span) :
    C.Simulates related x (do Eval.moveTo s; y) :=
  fun _ _ hmn => h { hmn with span := fun he => absurd he hexact }

/-- The rewritten tree is done with the depth of the tree as written. -/
theorem parts_unchaining {host : Host} (hhost : host.Within False True) (d : Nat) :
    unchaining.Parts (Evaluator.ofDepth host d) (Evaluator.ofDepth host d) := by
  induction d with
  | zero => exact ⟨fun _ _ => .gaveUp _, fun _ _ => .gaveUp _⟩
  | succ d ih =>
    refine ⟨?_, fun hfg args => ih.call hfg args⟩
    intro env n n' henv hn
    show unchaining.Agrees (Evaluator.node host (.ofDepth host d) env n) _
    cases becomes_of_unchained hn with
    | now k hk hlike =>
      rw [hk]
      exact ih.node_of_like (fun _ => hhost) henv hlike
    | next s u hu hplaces =>
      rw [hu]
      -- the call is evaluated one level deeper than on the other side, which has one to spare
      have hparts := ih.trans_same (Evaluator.same_parts host (Nat.le_succ d))
      exact (hparts.evaluate henv ⟨u, .inl rfl, hplaces⟩).moveTo_left id s

/-- The tree as written is done with twice the depth of the rewritten one. -/
theorem parts_unchaining_symm {host : Host} (hhost : host.Within False True) (d : Nat) :
    unchaining.symm.Parts (Evaluator.ofDepth host d) (Evaluator.ofDepth host (2 * d)) := by
  induction d with
  | zero => exact ⟨fun _ _ => .gaveUp _, fun _ _ => .gaveUp _⟩
  | succ d ih =>
    -- of the two levels that are added one may go to a chain, and is left over otherwise
    have hparts := ih.trans_same (Evaluator.same_parts host (Nat.le_succ (2 * d)))
    refine ⟨?_, fun hfg args => hparts.call hfg args⟩
    intro env n' n henv hn
    show unchaining.symm.Agrees (Evaluator.node host (.ofDepth host d) env n')
      (Evaluator.node host (.ofDepth host (2 * d + 1)) env n)
    cases becomes_of_unchained hn with
    | now k hk hlike =>
      rw [hk]
      exact hparts.node_of_like (fun _ => hhost) henv hlike.symm
    | next s u hu hplaces =>
      rw [hu]
      have hlike : unchaining.Like u n' :=
        unchaining_placeless.like (.refl u (.inl trivial)) hplaces
      exact (ih.node_of_like (fun _ => hhost) henv hlike.symm).moveTo_right id s

theorem unchaining_machines_self {m : Machine} (h : m.Within False True) :
    unchaining.Machines m m :=
  ⟨⟨rfl, Nat.zero_le _, h.functions_alike Node.Unchained.refl, fun _ _ => rfl⟩, fun _ => rfl, rfl,
    rfl, rfl, h.plugins, Report.forall₂_alike_self False _⟩

theorem Follows.symm {α : Type} {C : Coupling} {o o' : Except Stop α × Machine}
    (h : C.symm.Follows Eq o' o) (hended : o'.1 ≠ .error .tooDeep) : C.Follows Eq o o' := by
  cases h with
  | gaveUp => exact absurd rfl hended
  | value hab hmn => exact .value hab.symm hmn.symm
  | error he hmn => exact .error he.symm hmn.symm

end Coupling

namespace Evaluator

variable {α : Type} {host : Host} {step step' : Evaluator → Eval α} {m m' : Machine}

/-- Whenever one of two runs comes to an end, the other does, and they end alike: with the same
result or the same error but for its place, having said the same, and in machines that differ in
places and in the chains of function bodies only. -/
structure EndAlike (host : Host) (step step' : Evaluator → Eval α) (m m' : Machine) : Prop where
  forth : ∀ o, Ends host step m o →
    ∃ o', Ends host step' m' o' ∧ Coupling.unchaining.Follows Eq o o'
  back : ∀ o', Ends host step' m' o' →
    ∃ o, Ends host step m o ∧ Coupling.unchaining.Follows Eq o o'

theorem Ends.of_follows {C : Coupling} {o : Except Stop α × Machine} {depth : Nat}
    (ho : o.1 ≠ .error .tooDeep)
    (h : C.Follows Eq o ((step' (ofDepth host depth)).outcome m')) :
    Ends host step' m' ((step' (ofDepth host depth)).outcome m') := by
  refine ⟨depth, rfl, ?_⟩
  generalize (step' (ofDepth host depth)).outcome m' = o' at h ⊢
  cases h with
  | gaveUp => exact absurd rfl ho
  | value => nofun
  | error => nofun

theorem endAlike_of_parts (hhost : host.Within False True)
    (hm : Coupling.unchaining.Machines m m')
    (hforth : ∀ {P Q}, Coupling.unchaining.Parts P Q →
      Coupling.unchaining.Agrees (step P) (step' Q))
    (hback : ∀ {P Q}, Coupling.unchaining.symm.Parts P Q →
      Coupling.unchaining.symm.Agrees (step' P) (step Q)) :
    EndAlike host step step' m m' := by
  constructor
  · rintro o ⟨depth, rfl, hended⟩
    have hfollows := hforth (Coupling.parts_unchaining hhost depth) hm
    exact ⟨_, .of_follows hended hfollows, hfollows⟩
  · rintro o' ⟨depth, rfl, hended⟩
    have hfollows := hback (Coupling.parts_unchaining_symm hhost depth) hm.symm
    exact ⟨_, .of_follows hended hfollows, hfollows.symm hended⟩

/-- Replacing chains by calls ahead of a run preserves what the run means: from machines that differ
by such replacements, of which every machine and itself are an example, the tree and its rewritten
form end alike, and so do the functions found under a name when they are called. -/
theorem unchain_preserves_meaning {host : Host} (hhost : host.Within False True) :
    (∀ m : Machine, m.Within False True → Coupling.unchaining.Machines m m) ∧
    (∀ m m', Coupling.unchaining.Machines m m' → ∀ env n n', n.unchain = .ok n' →
      EndAlike host (fun ev => ev.evaluate env n) (fun ev => ev.evaluate env n') m m') ∧
    (∀ m m', Coupling.unchaining.Machines m m' → ∀ env name,
      Option.Rel
        (fun f f' => ∀ args,
          EndAlike host (fun ev => ev.invoke f args) (fun ev => ev.invoke f' args) m m')
        (m.scopes.function? env name) (m'.scopes.function? env name)) := by
  refine ⟨fun m => Coupling.unchaining_machines_self, ?_, ?_⟩
  · intro m m' hm env n n' hn
    have hown : Coupling.unchaining.own env := Nat.zero_le _
    have hnode : Coupling.unchaining.node n n' := .of_unchain hn
    exact endAlike_of_parts hhost hm (fun hparts => hparts.evaluate hown hnode)
      fun hparts => hparts.evaluate hown hnode
  · intro m m' hm env name
    have hfunction := Coupling.unchaining.function? hm.scopes env name
    generalize m.scopes.function? env name = f at hfunction ⊢
    generalize m'.scopes.function? env name = f' at hfunction ⊢
    cases hfunction with
    | none => exact .none
    | some hf =>
      refine .some fun args => ?_
      exact endAlike_of_parts hhost hm (fun hparts => hparts.invoke hf args)
        fun hparts => hparts.invoke hf.symm args

/-- The definition of a function with body `return "a".typeof`, whose bodies differ in the two
runs. -/
theorem unchain_preserves_meaning_functionDef :
    let host : Host := { pluginDir := "plugins", scriptExtension := "clip" }
    let m : Machine := { scopes := .initial }
    let definition (body : Node) : Node :=
      .functionDef .nowhere "f" [] (.returnValue .nowhere (some body))
    let a : Node := .leaf .nowhere (.string "a")
    EndAlike host
      (fun ev => ev.evaluate .global
        (definition (.chain .nowhere a (.identifier .nowhere "typeof"))))
      (fun ev => ev.evaluate .global
        (definition (.call .nowhere (.named "typeof") [⟨none, a⟩]))) m m := by
  intro host m definition a
  have hhost : host.Within False True := by
    intro name path plugin hload
    cases hload
  obtain ⟨hself, hevaluate, -⟩ := unchain_preserves_meaning hhost
  exact hevaluate m m (hself m Machine.within_initial) .global _ _ rfl

end Evaluator
end ClipScript
