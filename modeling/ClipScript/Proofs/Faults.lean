/-
Which faults are about order.

Apart from native functions and texts that are not scripts, only two places raise a fault about the
order of arguments or parameters: adding an argument to a list, and defining a function.  Everything
else that can fail does so for other reasons (`Orderly`), and these two do not fail on what is in
order (`ArgList.Admits`, `UserFunction.checkOrder_eq_ok_iff`).
-/
import ClipScript.Import
import ClipScript.Plugin
import ClipScript.Proofs.Binding
import ClipScript.Proofs.Node.Formed
import ClipScript.Value.Operators

namespace ClipScript

variable {α β : Type}

def Fault.Orderly (f : Fault) : Prop := f.kind ≠ .argumentOrder

instance : DecidablePred Fault.Orderly := fun _ => inferInstanceAs (Decidable (_ ≠ _))

theorem Fault.Orderly.of {f : Fault} (h : (f.kind != .argumentOrder) = true) : f.Orderly :=
  bne_iff_ne.mp h

def Orderly (r : Except Fault α) : Prop := ∀ f, r = .error f → f.Orderly

namespace Orderly

theorem ok (a : α) : Orderly (.ok a) := nofun

theorem error {f : Fault} (h : f.Orderly) : Orderly (.error f : Except Fault α) := by
  intro g hg
  cases hg
  exact h

theorem bind {x : Except Fault α} {k : α → Except Fault β} (hx : Orderly x)
    (hk : ∀ a, Orderly (k a)) : Orderly (x >>= k) := by
  cases x with
  | error f => exact error (hx f rfl)
  | ok a => exact hk a

end Orderly

/-! ## Operators and imports -/

theorem Value.orderly_binary (op : BinaryOp) (lhs rhs : Value) : Orderly (binary op lhs rhs) := by
  cases op with
  | arithmetic op =>
    show Orderly (arithmetic op lhs rhs)
    unfold arithmetic
    split
    · exact .ok _
    · exact .error (.of rfl)
    · exact .error (.of rfl)
  | concat =>
    show Orderly (concat lhs rhs)
    unfold concat
    split
    · exact .error (.of rfl)
    · split
      · exact .ok _
      · exact .error (.of rfl)
      · exact .error (.of rfl)
  | comparison op =>
    show Orderly (comparison op lhs rhs)
    unfold comparison
    split
    · exact .error (.of rfl)
    · split
      · exact .ok _
      · unfold compareFault
        split <;> exact .error (.of rfl)

theorem Value.orderly_unary (op : UnaryOp) (operand : Value) : Orderly (unary op operand) := by
  unfold unary
  split
  · exact .ok _
  · exact .ok _
  · exact .error (.of rfl)

theorem Registry.orderly_resolve (r : Registry) (owner function : String) :
    Orderly (r.resolve owner function) := by
  rw [resolve]
  split
  · exact .error (.of rfl)
  · split
    · exact .error (.of rfl)
    · exact .ok _

theorem ImportTarget.orderly_locate (files : FileTree) (dir name extension : String) :
    Orderly (locate files dir name extension) := by
  rw [locate]
  split
  · exact .ok _
  · exact .ok _
  · exact .error (.of rfl)
  · exact .error (.of rfl)

/-! ## Chains -/

namespace Node

theorem orderly_unchainAll {nodes : List Node} (h : ∀ n ∈ nodes, Orderly n.unchain) :
    Orderly (unchainAll nodes) := by
  induction nodes with
  | nil => exact .ok _
  | cons n rest ih =>
    rw [List.forall_mem_cons] at h
    exact h.1.bind fun _ => (ih h.2).bind fun _ => .ok _

theorem orderly_unchainArgs {args : List (Labelled Node)}
    (h : ∀ a ∈ args, Orderly a.content.unchain) : Orderly (unchainArgs args) := by
  induction args with
  | nil => exact .ok _
  | cons a rest ih =>
    rw [List.forall_mem_cons] at h
    exact h.1.bind fun _ => (ih h.2).bind fun _ => .ok _

/-- All that can go wrong with chains is that something is no link. -/
theorem orderly_chains (n : Node) : Orderly n.unchain ∧ ∀ s v, Orderly (pipe s v n) := by
  have refused : ∀ {n : Node}, Orderly n.unchain →
      (∀ s v, pipe s v n = .error (.notCallable n.kindName)) →
      Orderly n.unchain ∧ ∀ s v, Orderly (pipe s v n) := by
    intro n hn hpipe
    refine ⟨hn, fun s v => ?_⟩
    rw [hpipe]
    exact .error (.of rfl)
  induction n using Node.induct with
  | leaf s v =>
    refine ⟨.ok _, fun t w => ?_⟩
    cases v with
    | identifier name => exact .ok _
    | _ => exact .error (.of rfl)
  | sequence s body ih =>
    refine refused ?_ fun _ _ => rfl
    rw [unchain]
    exact (orderly_unchainAll fun n hn => (ih n hn).1).bind fun _ => .ok _
  | assign s target op value ihtarget ihvalue =>
    refine refused ?_ fun _ _ => rfl
    by_cases hop : op = .chain
    · subst hop
      rw [unchain]
      exact ihtarget.1.bind fun t => (ihvalue.2 s t).bind fun _ => .ok _
    · rw [unchain]
      · exact ihvalue.1.bind fun _ => .ok _
      · exact hop
  | binary s op lhs rhs ihlhs ihrhs =>
    refine refused ?_ fun _ _ => rfl
    rw [unchain]
    exact ihlhs.1.bind fun _ => ihrhs.1.bind fun _ => .ok _
  | unary s op operand ih =>
    refine refused ?_ fun _ _ => rfl
    rw [unchain]
    exact ih.1.bind fun _ => .ok _
  | ternary s condition yes no ihcondition ihyes ihno =>
    refine refused ?_ fun _ _ => rfl
    rw [unchain]
    exact ihcondition.1.bind fun _ => ihyes.1.bind fun _ => ihno.1.bind fun _ => .ok _
  | call s callee args ih =>
    have hargs := orderly_unchainArgs fun a ha => (ih a ha).1
    refine ⟨?_, fun t v => ?_⟩
    · rw [unchain]
      exact hargs.bind fun _ => .ok _
    · rw [pipe]
      exact hargs.bind fun _ => .ok _
  | chain s value link ihvalue ihlink =>
    refine ⟨?_, fun t v => ?_⟩
    · cases hname : value.asIdentifier? with
      | some name =>
        rw [unchain_chain_of_isSome (by rw [hname]; rfl)]
        exact .ok _
      | none =>
        rw [unchain_chain hname]
        exact ihvalue.1.bind (ihlink.2 s)
    · rw [pipe]
      exact (ihvalue.2 t v).bind (ihlink.2 t)
  | functionDef s name params body ih =>
    refine refused ?_ fun _ _ => rfl
    rw [unchain]
    exact ih.1.bind fun _ => .ok _
  | defaultValue s name value ih =>
    refine refused ?_ fun _ _ => rfl
    rw [unchain]
    exact ih.1.bind fun _ => .ok _
  | returnValue s value ih =>
    refine refused ?_ fun _ _ => rfl
    cases value with
    | none => exact .ok _
    | some value =>
      rw [unchain]
      exact (ih value rfl).1.bind fun _ => .ok _
  | ifElse s condition yes no ihcondition ihyes ihno =>
    refine refused ?_ fun _ _ => rfl
    cases no with
    | none =>
      rw [unchain]
      exact ihcondition.1.bind fun _ => ihyes.1.bind fun _ => .ok _
    | some no =>
      rw [unchain]
      exact ihcondition.1.bind fun _ => ihyes.1.bind fun _ => (ihno no rfl).1.bind fun _ => .ok _
  | importName s name => exact refused (.ok _) fun _ _ => rfl

theorem orderly_unchain (n : Node) : Orderly n.unchain := (orderly_chains n).1

theorem orderly_unchainAs (s : Span) (value link : Node) : Orderly (unchainAs s value link) :=
  (orderly_unchain value).bind ((orderly_chains link).2 s)

theorem orderly_pluginCall (owner : String) (s : Span) (link : Node) :
    Orderly (pluginCall owner s link) := by
  have hother : ∀ link, Orderly (unchainAs s (identifier s owner) link) :=
    orderly_unchainAs s (identifier s owner)
  induction link using Node.induct with
  | leaf t v =>
    cases v with
    | identifier function => exact .ok _
    | _ => exact hother _
  | call t callee args ih =>
    cases callee with
    | named function =>
      exact (orderly_unchainArgs fun a _ => orderly_unchain a.content).bind fun _ => .ok _
    | plugin owner' function => exact hother _
  | chain t first rest ihfirst ihrest => exact ihfirst.bind ((orderly_chains rest).2 s)
  | _ => exact hother _

end Node

/-! ## Arguments -/

/-- Arguments with these labels can be added one after the other. -/
def ArgList.Admits (args : ArgList) (more : List (Labelled α)) : Prop :=
  Labelled.Ordered more ∧ (args.named ≠ [] → ∀ a ∈ more, a.label.isSome)

namespace ArgList

theorem admits_empty {more : List (Labelled α)} (h : Labelled.Ordered more) :
    ArgList.empty.Admits more :=
  ⟨h, fun hne => absurd rfl hne⟩

theorem Admits.push {args : ArgList} {a : Labelled α} {rest : List (Labelled α)}
    (h : args.Admits (a :: rest)) (v : Value) :
    ∃ next, args.push a.label v = .ok next ∧ next.Admits rest := by
  obtain ⟨⟨hbehind, horder⟩, hnamed⟩ := List.pairwise_cons.mp h.1, h.2
  cases hlabel : a.label with
  | some name =>
    refine ⟨_, rfl, horder, fun _ b hb => hbehind b hb ?_⟩
    rw [hlabel]
    rfl
  | none =>
    have hempty : args.named = [] := by
      refine Decidable.byContradiction fun hne => ?_
      have hsome := hnamed (fun h => hne h) a List.mem_cons_self
      rw [hlabel] at hsome
      cases hsome
    refine ⟨{ args with unnamed := args.unnamed ++ [v] }, ?_, horder, fun hne => absurd hempty hne⟩
    rw [ArgList.push, hempty]
    rfl

theorem Admits.exists_foldlM_push {args : ArgList} {more : List (Labelled Value)}
    (h : args.Admits more) :
    ∃ all, more.foldlM (fun all a => all.push a.label a.content) args = .ok all := by
  induction more generalizing args with
  | nil => exact ⟨args, rfl⟩
  | cons a rest ih =>
    obtain ⟨next, hnext, hrest⟩ := h.push a.content
    obtain ⟨all, hall⟩ := ih hrest
    refine ⟨all, ?_⟩
    rw [List.foldlM_cons, hnext]
    exact hall

/-! What native functions check. -/

theorem orderly_checkCount (args : ArgList) (expected : Nat) :
    Orderly (args.checkCount expected) := by
  unfold checkCount
  split
  · exact .ok ()
  · exact .error (.of rfl)

theorem orderly_checkKindsFrom (i : Nat) (values : List Value) (kinds : List ValueKind) :
    Orderly (checkKindsFrom i values kinds) := by
  fun_induction checkKindsFrom i values kinds with
  | case1 _ _ _ _ ih => exact ih
  | case2 => exact .error (.of rfl)
  | case3 => exact .ok ()

theorem orderly_value (args : ArgList) (index : Nat) : Orderly (args.value index) := by
  unfold value
  split
  · exact .ok _
  · exact .error (.of rfl)

theorem orderly_typed {β : Type} (args : ArgList) (kind : ValueKind) (view : Value → Option β)
    (index : Nat) : Orderly (args.typed kind view index) := by
  refine (args.orderly_value index).bind fun v => ?_
  split
  · exact .ok _
  · exact .error (.of rfl)

theorem orderly_option (args : ArgList) (name : String) (kind : ValueKind) :
    Orderly (args.option name kind) := by
  unfold option
  split
  · exact .ok _
  · split
    · exact .ok _
    · exact .error (.of rfl)

end ArgList

/-! ## Binding arguments -/

/-- However the changes end, only certain names are added to the variables, and a fault is not about
order. -/
def Binder.Adds (names : String → Prop) (x : Binder Unit) : Prop :=
  ∀ vars, (∀ name v, (x.run.run vars).2.find? name = some v →
      names name ∨ ∃ old, vars.find? name = some old) ∧
    Orderly (x.run.run vars).1

namespace Binder.Adds

variable {names : String → Prop}

theorem pure : Adds names (Pure.pure ()) :=
  fun _ => ⟨fun _ v hv => .inr ⟨v, hv⟩, .ok _⟩

theorem throw {f : Fault} (h : f.Orderly) : Adds names (MonadExcept.throw f) :=
  fun _ => ⟨fun _ v hv => .inr ⟨v, hv⟩, .error h⟩

theorem change {change : Variables → Variables}
    (h : ∀ vars name v, (change vars).find? name = some v →
      names name ∨ ∃ old, vars.find? name = some old) : Adds names (modify change) :=
  fun vars => ⟨h vars, .ok _⟩

theorem bind {x : Binder Unit} {k : Unit → Binder Unit} (hx : Adds names x)
    (hk : Adds names (k ())) : Adds names (x >>= k) := by
  intro vars
  obtain ⟨hnames, horderly⟩ := hx vars
  show (∀ name v, ((ExceptT.bindCont k (x.run.run vars).1 : StateM Variables _).run
      (x.run.run vars).2).2.find? name = some v → _) ∧
    Orderly ((ExceptT.bindCont k (x.run.run vars).1 : StateM Variables _).run
      (x.run.run vars).2).1
  rcases hrun : x.run.run vars with ⟨f | u, mid⟩
  · rw [hrun] at hnames horderly
    exact ⟨hnames, .error (horderly f rfl)⟩
  · rw [hrun] at hnames
    obtain ⟨hnames', horderly'⟩ := hk mid
    refine ⟨fun name v hv => ?_, horderly'⟩
    rcases hnames' name v hv with hname | ⟨old, hold⟩
    · exact .inl hname
    · exact hnames name old hold

theorem assign {name : String} (h : names name) (value : Value) :
    Adds names (modify fun vars => Variables.assign vars name value) := by
  refine change fun vars other v hv => ?_
  rw [Variables.assign, Table.find?_insert] at hv
  split at hv
  · next hname => exact .inl (hname ▸ h)
  · exact .inr ⟨v, hv⟩

end Binder.Adds

namespace UserFunction

variable {f : UserFunction} {names : String → Prop}

theorem adds_bindUnnamed {i : Nat} {params : List Param} {values : List Value}
    (h : ∀ p ∈ params, names p.name) : (f.bindUnnamed i params values).Adds names := by
  induction params generalizing i values with
  | nil => exact .pure
  | cons p rest ih =>
    cases values with
    | nil => exact .pure
    | cons v values =>
      rw [List.forall_mem_cons] at h
      rw [bindUnnamed]
      split
      · exact .bind (.throw (.of rfl)) (.bind (.assign h.1 v) (ih h.2))
      · exact .bind (.assign h.1 v) (ih h.2)

theorem adds_bindNamed {named : List (String × Value)} (h : ∀ p ∈ f.params, names p.name) :
    (f.bindNamed named).Adds names := by
  induction named with
  | nil => exact .pure
  | cons arg rest ih =>
    obtain ⟨name, v⟩ := arg
    rw [bindNamed]
    split
    · exact .throw (.of rfl)
    · next p hp =>
      have hname := h p (List.mem_of_find?_eq_some hp)
      split
      · exact .bind (.throw (.of rfl)) (.bind (.assign hname v) ih)
      · exact .bind (.assign hname v) ih

/-- Binding arguments adds the parameters to the variables and nothing else. -/
theorem adds_bind (args : ArgList) (h : ∀ p ∈ f.params, names p.name) :
    (f.bind args).Adds names := by
  have hdeclare : Binder.Adds names (modify f.declareParams) := by
    refine .change fun vars name v hv => ?_
    rcases find?_declareParams f.params vars hv with ⟨p, hp, hname, -⟩ | hold
    · exact .inl (hname ▸ h p hp)
    · exact .inr ⟨v, hold⟩
  have hrest : Binder.Adds names (do
      f.bindUnnamed 0 f.params args.unnamed
      f.bindNamed args.named) :=
    .bind (adds_bindUnnamed h) (adds_bindNamed h)
  refine hdeclare.bind ?_
  dsimp only
  split
  · exact .bind (.throw (.of rfl)) hrest
  · exact hrest

end UserFunction
end ClipScript
