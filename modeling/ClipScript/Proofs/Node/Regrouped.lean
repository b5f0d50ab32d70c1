/-
Calls of a plugin, and the chains they may be read as.

Where a plugin `p` is known, `p.f(x).g(y)` is a call of its function `f` whose result flows into
`g(y)`.  Elsewhere it is a chain on the bare name `p`, and it stands for the same calls if `p` turns
out to be a plugin when the chain is reached.  `Node.Regrouped` relates trees that differ in this
way only, anywhere within them, and in where their spans end.

Trees are compared as they were written, after their chains were replaced by calls, and as links
that a value flows into.  What is made out of related trees is related again: by `unchain`, by
`pipe` and by `pluginCall`.  A chain on the name stays a chain when chains are replaced, so behind
that step the relation pairs a call with the chain that stands for it (`Node.Stands`).
-/
import ClipScript.Proofs.Coupling
import ClipScript.Proofs.Node.Formed
import ClipScript.Proofs.Node.Twins
import Mathlib.Data.List.Zip

namespace ClipScript

variable {α β γ δ : Type}

theorem SameFault.bind {r : α → β → Prop} {r' : γ → δ → Prop} {x : Except Fault α}
    {y : Except Fault β} {f : α → Except Fault γ} {g : β → Except Fault δ} (h : SameFault r x y)
    (hfg : ∀ a b, r a b → SameFault r' (f a) (g b)) : SameFault r' (x >>= f) (y >>= g) := by
  cases h with
  | ok hab => exact hfg _ _ hab
  | error fault => exact .error fault

theorem SameFault.map {r : α → β → Prop} {r' : γ → δ → Prop} {x : Except Fault α}
    {y : Except Fault β} {f : α → γ} {g : β → δ} (h : SameFault r x y)
    (hfg : ∀ a b, r a b → r' (f a) (g b)) : SameFault r' (x.map f) (y.map g) := by
  cases h with
  | ok hab => exact .ok (hfg _ _ hab)
  | error fault => exact .error fault

theorem SameFault.exists_ok {r : α → β → Prop} {x : Except Fault α} {y : Except Fault β} {b : β}
    (h : SameFault r x y) (hy : y = .ok b) : ∃ a, x = .ok a ∧ r a b := by
  cases h with
  | ok hab =>
    cases hy
    exact ⟨_, rfl, hab⟩
  | error => cases hy

/-! ## Places -/

structure Span.SameStart (s s' : Span) : Prop where
  start : s.start = s'.start
  line : s.line = s'.line

namespace Span.SameStart

variable {s s' t : Span}

theorem refl (s : Span) : s.SameStart s := ⟨rfl, rfl⟩

theorem symm (h : s.SameStart s') : s'.SameStart s := ⟨h.start.symm, h.line.symm⟩

theorem trans (h : s.SameStart s') (h' : s'.SameStart t) : s.SameStart t :=
  ⟨h.start.trans h'.start, h.line.trans h'.line⟩

/-- A span begins where it did after something behind its start was added to it. -/
theorem merge_left (h : s.start ≤ t.start) : (s.merge t).SameStart s := by
  refine ⟨?_, ?_⟩
  · rw [Span.start_merge]
    omega
  · rw [Span.merge, if_pos h]

theorem merging : Merging Span.SameStart := by
  intro a a' b b' ha hb
  refine ⟨by rw [Span.start_merge, Span.start_merge, ha.start, hb.start], ?_⟩
  simp only [Span.merge, ha.start, hb.start]
  split
  · exact ha.line
  · exact hb.line

end Span.SameStart

namespace Node

/-! ## The relation -/

/-- Before or after chains were replaced by calls. -/
inductive Stage where
  | written | ready
deriving DecidableEq, Repr

/-- What a tree is compared as: as something to be evaluated, or as what a value flows into. -/
inductive Aspect where
  | tree (stage : Stage)
  | link
deriving DecidableEq, Repr

/-- The forms that a value can flow into. -/
def isLink : Node → Bool
  | leaf _ (.identifier _) | call _ _ _ | chain _ _ _ => true
  | _ => false

/-- The tree is a call, or a chain on the name `p` that stands for the call if `p` is a plugin. -/
inductive Stands (p : String) (s : Span) (callee : Callee) (args : List (Labelled Node)) :
    Node → Prop where
  | call : Stands p s callee args (.call s callee args)
  | chain {t : Span} {link : Node} : pluginCall p s link = .ok (.call s callee args) →
      Stands p s callee args (.chain s (.identifier t p) link)

/-- Targets of assignments that do the same, and not to `p`. -/
structure SameTarget (p : String) (n n' : Node) : Prop where
  name : n.asIdentifier? = n'.asIdentifier?
  kind : n.kindName = n'.kindName
  span : n.span.SameStart n'.span
  ne : ∀ name ∈ n.asIdentifier?, name ≠ p

/-- Trees that differ in how they group calls of the plugin `p`. -/
inductive Regrouped (p : String) : Aspect → Node → Node → Prop where
  | leaf {st : Stage} {s s' : Span} (v : Value) : s.SameStart s' →
      Regrouped p (.tree st) (.leaf s v) (.leaf s' v)
  | sequence {st : Stage} {s s' : Span} {body body' : List Node} : s.SameStart s' →
      body.length = body'.length → (∀ x ∈ body.zip body', Regrouped p (.tree st) x.1 x.2) →
      Regrouped p (.tree st) (.sequence s body) (.sequence s' body')
  | assign {st : Stage} {s s' : Span} {target target' value value' : Node} {op : AssignOp} :
      s.SameStart s' → op ≠ .chain → SameTarget p target target' →
      Regrouped p (.tree st) value value' →
      Regrouped p (.tree st) (.assign s target op value) (.assign s' target' op value')
  | assignChain {s s' : Span} {target target' link link' : Node} : s.SameStart s' →
      SameTarget p target target' → Regrouped p (.tree .written) target target' →
      Regrouped p .link link link' →
      Regrouped p (.tree .written) (.assign s target .chain link) (.assign s' target' .chain link')
  | binary {st : Stage} {s s' : Span} {lhs lhs' rhs rhs' : Node} (op : BinaryOp) :
      s.SameStart s' → Regrouped p (.tree st) lhs lhs' → Regrouped p (.tree st) rhs rhs' →
      Regrouped p (.tree st) (.binary s op lhs rhs) (.binary s' op lhs' rhs')
  | unary {st : Stage} {s s' : Span} {operand operand' : Node} (op : UnaryOp) : s.SameStart s' →
      Regrouped p (.tree st) operand operand' →
      Regrouped p (.tree st) (.unary s op operand) (.unary s' op operand')
  | ternary {st : Stage} {s s' : Span} {condition condition' yes yes' no no' : Node} :
      s.SameStart s' → Regrouped p (.tree st) condition condition' →
      Regrouped p (.tree st) yes yes' → Regrouped p (.tree st) no no' →
      Regrouped p (.tree st) (.ternary s condition yes no) (.ternary s' condition' yes' no')
  | call {st : Stage} {s s' : Span} {args args' : List (Labelled Node)} (callee : Callee) :
      s.SameStart s' → args.map (·.label) = args'.map (·.label) →
      (∀ x ∈ args.zip args', Regrouped p (.tree st) x.1.content x.2.content) →
      Regrouped p (.tree st) (.call s callee args) (.call s' callee args')
  | functionDef {st : Stage} {s s' : Span} {name : String} {params : List Param}
      {body body' : Node} : s.SameStart s' → name ≠ p → (∀ q ∈ params, q.name ≠ p) →
      Regrouped p (.tree st) body body' →
      Regrouped p (.tree st) (.functionDef s name params body) (.functionDef s' name params body')
  /-- What a function does in its own scope is its own affair, if both do the same. -/
  | definition {st : Stage} {s s' : Span} {name : String} {params : List Param} {body : Node} :
      s.SameStart s' → name ≠ p →
      Regrouped p (.tree st) (.functionDef s name params body) (.functionDef s' name params body)
  | defaultValue {st : Stage} {s s' : Span} {value value' : Node} (name : String) :
      s.SameStart s' → Regrouped p (.tree st) value value' →
      Regrouped p (.tree st) (.defaultValue s name value) (.defaultValue s' name value')
  | returnNothing {st : Stage} {s s' : Span} : s.SameStart s' →
      Regrouped p (.tree st) (.returnValue s none) (.returnValue s' none)
  | returnValue {st : Stage} {s s' : Span} {value value' : Node} : s.SameStart s' →
      Regrouped p (.tree st) value value' →
      Regrouped p (.tree st) (.returnValue s (some value)) (.returnValue s' (some value'))
  | ifThen {st : Stage} {s s' : Span} {condition condition' yes yes' : Node} : s.SameStart s' →
      Regrouped p (.tree st) condition condition' → Regrouped p (.tree st) yes yes' →
      Regrouped p (.tree st) (.ifElse s condition yes none) (.ifElse s' condition' yes' none)
  | ifElse {st : Stage} {s s' : Span} {condition condition' yes yes' no no' : Node} :
      s.SameStart s' → Regrouped p (.tree st) condition condition' →
      Regrouped p (.tree st) yes yes' → Regrouped p (.tree st) no no' →
      Regrouped p (.tree st) (.ifElse s condition yes (some no))
        (.ifElse s' condition' yes' (some no'))
  | importName {st : Stage} {s s' : Span} (name : String) : s.SameStart s' →
      Regrouped p (.tree st) (.importName s name) (.importName s' name)
  | chain {s s' : Span} {value value' link link' : Node} : s.SameStart s' →
      Regrouped p (.tree .written) value value' → Regrouped p .link link link' →
      Regrouped p (.tree .written) (.chain s value link) (.chain s' value' link')
  /-- A call of the plugin and the chain that stands for it, as they were written. -/
  | unchained {n n' u u' : Node} : n.asIdentifier? = none → n'.asIdentifier? = none →
      n.kindName = n'.kindName → n.span.SameStart n'.span → n.unchain = .ok u →
      n'.unchain = .ok u' → Regrouped p (.tree .ready) u u' → Regrouped p (.tree .written) n n'
  /-- A chain on a bare name, which stays when chains are replaced by calls. -/
  | kept {s s' t t' : Span} {name : String} {link link' : Node} : s.SameStart s' →
      t.SameStart t' → Regrouped p .link link link' →
      Regrouped p (.tree .ready) (.chain s (.identifier t name) link)
        (.chain s' (.identifier t' name) link')
  /-- A call of the plugin and the chain that stands for it, where chains have been replaced. -/
  | stands {n n' : Node} {s s' : Span} {callee : Callee} {args args' : List (Labelled Node)} :
      n.Stands p s callee args → n'.Stands p s' callee args' → s.SameStart s' →
      args.map (·.label) = args'.map (·.label) →
      (∀ x ∈ args.zip args', Regrouped p (.tree .ready) x.1.content x.2.content) →
      Regrouped p (.tree .ready) n n'
  | linkName {s s' : Span} (name : String) :
      Regrouped p .link (.identifier s name) (.identifier s' name)
  | linkCall {s s' : Span} {args args' : List (Labelled Node)} (callee : Callee) :
      args.map (·.label) = args'.map (·.label) →
      (∀ x ∈ args.zip args', Regrouped p (.tree .written) x.1.content x.2.content) →
      Regrouped p .link (.call s callee args) (.call s' callee args')
  | linkChain {s s' : Span} {first first' rest rest' : Node} : Regrouped p .link first first' →
      Regrouped p .link rest rest' →
      Regrouped p .link (.chain s first rest) (.chain s' first' rest')
  | refused {n n' : Node} : n.isLink = false → n'.isLink = false → n.kindName = n'.kindName →
      Regrouped p .link n n'

variable {p : String}

theorem Stands.span {s : Span} {callee : Callee} {args : List (Labelled Node)} {n : Node}
    (h : n.Stands p s callee args) : n.span = s := by
  cases h <;> rfl

theorem Stands.not_leaf {s : Span} {callee : Callee} {args : List (Labelled Node)} {n : Node}
    (h : n.Stands p s callee args) : n.asIdentifier? = none ∧ n.kindName = "operation" := by
  cases h <;> exact ⟨rfl, rfl⟩

theorem SameTarget.symm {n n' : Node} (h : SameTarget p n n') : SameTarget p n' n :=
  ⟨h.name.symm, h.kind.symm, h.span.symm, by rw [← h.name]; exact h.ne⟩

namespace Regrouped

variable {st : Stage} {n n' : Node}

theorem span (h : Regrouped p (.tree st) n n') : n.span.SameStart n'.span := by
  cases h with
  | unchained _ _ _ hs => exact hs
  | stands hn hn' hs => rwa [hn.span, hn'.span]
  | _ => assumption

theorem asIdentifier?_eq (h : Regrouped p (.tree st) n n') :
    n.asIdentifier? = n'.asIdentifier? := by
  cases h with
  | leaf v => cases v <;> rfl
  | unchained hn hn' => rw [hn, hn']
  | stands hn hn' => rw [hn.not_leaf.1, hn'.not_leaf.1]
  | _ => rfl

theorem kindName_eq (h : Regrouped p (.tree st) n n') : n.kindName = n'.kindName := by
  cases h with
  | unchained _ _ hkind => exact hkind
  | stands hn hn' => rw [hn.not_leaf.2, hn'.not_leaf.2]
  | _ => rfl

theorem target (h : Regrouped p (.tree st) n n') (hne : ∀ name ∈ n.asIdentifier?, name ≠ p) :
    SameTarget p n n' :=
  ⟨h.asIdentifier?_eq, h.kindName_eq, h.span, hne⟩

theorem mem_zip_swap {xs : List α} {ys : List β} {y : β × α} (h : y ∈ ys.zip xs) :
    (y.2, y.1) ∈ xs.zip ys := by
  have hswap := List.mem_map_of_mem (f := Prod.swap) h
  rwa [List.zip_swap] at hswap

theorem symm {aspect : Aspect} (h : Regrouped p aspect n n') : Regrouped p aspect n' n := by
  induction h with
  | leaf v hs => exact .leaf v hs.symm
  | sequence hs hlength _ ih =>
    exact .sequence hs.symm hlength.symm fun x hx => ih _ (mem_zip_swap hx)
  | assign hs hop htarget _ ih => exact .assign hs.symm hop htarget.symm ih
  | assignChain hs htarget _ _ ihtarget ihlink =>
    exact .assignChain hs.symm htarget.symm ihtarget ihlink
  | binary op hs _ _ ihlhs ihrhs => exact .binary op hs.symm ihlhs ihrhs
  | unary op hs _ ih => exact .unary op hs.symm ih
  | ternary hs _ _ _ ihcondition ihyes ihno => exact .ternary hs.symm ihcondition ihyes ihno
  | call callee hs hlabels _ ih =>
    exact .call callee hs.symm hlabels.symm fun x hx => ih _ (mem_zip_swap hx)
  | functionDef hs hname hparams _ ih => exact .functionDef hs.symm hname hparams ih
  | definition hs hname => exact .definition hs.symm hname
  | defaultValue name hs _ ih => exact .defaultValue name hs.symm ih
  | returnNothing hs => exact .returnNothing hs.symm
  | returnValue hs _ ih => exact .returnValue hs.symm ih
  | ifThen hs _ _ ihcondition ihyes => exact .ifThen hs.symm ihcondition ihyes
  | ifElse hs _ _ _ ihcondition ihyes ihno => exact .ifElse hs.symm ihcondition ihyes ihno
  | importName name hs => exact .importName name hs.symm
  | chain hs _ _ ihvalue ihlink => exact .chain hs.symm ihvalue ihlink
  | unchained hn hn' hkind hs hu hu' _ ih =>
    exact .unchained hn' hn hkind.symm hs.symm hu' hu ih
  | kept hs ht _ ih => exact .kept hs.symm ht.symm ih
  | stands hn hn' hs hlabels _ ih =>
    exact .stands hn' hn hs.symm hlabels.symm fun x hx => ih _ (mem_zip_swap hx)
  | linkName name => exact .linkName name
  | linkCall callee hlabels _ ih =>
    exact .linkCall callee hlabels.symm fun x hx => ih _ (mem_zip_swap hx)
  | linkChain _ _ ihfirst ihrest => exact .linkChain ihfirst ihrest
  | refused hn hn' hkind => exact .refused hn' hn hkind.symm

/-- Two calls are related only as calls of the same function. -/
theorem of_calls {s s' : Span} {callee callee' : Callee} {args args' : List (Labelled Node)}
    (h : Regrouped p (.tree .ready) (.call s callee args) (.call s' callee' args')) :
    callee = callee' ∧ s.SameStart s' ∧ args.map (·.label) = args'.map (·.label) ∧
      ∀ x ∈ args.zip args', Regrouped p (.tree .ready) x.1.content x.2.content := by
  cases h with
  | call _ hs hlabels hargs => exact ⟨rfl, hs, hlabels, hargs⟩
  | stands hn hn' hs hlabels hargs =>
    cases hn
    cases hn'
    exact ⟨rfl, hs, hlabels, hargs⟩

end Regrouped

/-! ## Replacing chains by calls -/

theorem isLink_eq_false {n : Node} (h : n.isLink = false) (s : Span) (v : Node) :
    pipe s v n = .error (.notCallable n.kindName) := by
  cases n with
  | leaf t w =>
    cases w with
    | identifier name => cases h
    | _ => rfl
  | call => cases h
  | chain => cases h
  | _ => rfl

theorem pluginCall_of_isLink_eq_false {n : Node} (h : n.isLink = false) (owner : String)
    (s : Span) : pluginCall owner s n = .error (.notCallable n.kindName) := by
  have hother : unchainAs s (identifier s owner) n = .error (.notCallable n.kindName) :=
    isLink_eq_false h s (identifier s owner)
  cases n with
  | leaf t w =>
    cases w with
    | identifier name => cases h
    | _ => exact hother
  | call => cases h
  | chain => cases h
  | _ => exact hother

/-- Whatever a value flows through, it ends up in a call over the whole of it. -/
theorem exists_call_of_pipe {s : Span} {v link u : Node} (h : pipe s v link = .ok u) :
    ∃ callee args, u = .call s callee args := by
  induction link using Node.induct generalizing v with
  | leaf t w =>
    cases w with
    | identifier name =>
      cases h
      exact ⟨_, _, rfl⟩
    | _ => cases h
  | call t callee args =>
    rw [pipe] at h
    obtain ⟨args', -, h⟩ := ok_of_bind h
    cases h
    exact ⟨_, _, rfl⟩
  | chain t first rest _ ihrest =>
    rw [pipe] at h
    obtain ⟨w, -, h⟩ := ok_of_bind h
    exact ihrest h
  | _ => cases h

/-- What becomes of a tree or a link is related to what becomes of the other one. -/
def Carries (p : String) : Aspect → Node → Node → Prop
  | .tree st, n, n' => st = .written →
      SameFault (Regrouped p (.tree .ready)) n.unchain n'.unchain
  | .link, n, n' => ∀ s s' v v', s.SameStart s' → Regrouped p (.tree .ready) v v' →
      SameFault (Regrouped p (.tree .ready)) (pipe s v n) (pipe s' v' n')

theorem unchainAll_sameFault {body body' : List Node} (hlength : body.length = body'.length)
    (h : ∀ x ∈ body.zip body', SameFault (Regrouped p (.tree .ready)) x.1.unchain x.2.unchain) :
    SameFault
      (fun b b' => b.length = b'.length ∧ ∀ x ∈ b.zip b', Regrouped p (.tree .ready) x.1 x.2)
      (unchainAll body) (unchainAll body') := by
  induction body generalizing body' with
  | nil =>
    cases body' with
    | nil => exact .ok ⟨rfl, List.forall_mem_nil _⟩
    | cons => cases hlength
  | cons n rest ih =>
    cases body' with
    | nil => cases hlength
    | cons n' rest' =>
      rw [List.zip_cons_cons, List.forall_mem_cons] at h
      refine SameFault.bind h.1 fun u u' hu => ?_
      refine (ih (Nat.succ.inj hlength) h.2).bind fun b b' hb => .ok ?_
      exact ⟨congrArg (· + 1) hb.1, List.forall_mem_cons.mpr ⟨hu, hb.2⟩⟩

theorem unchainArgs_sameFault {args args' : List (Labelled Node)}
    (hlabels : args.map (·.label) = args'.map (·.label))
    (h : ∀ x ∈ args.zip args', SameFault (Regrouped p (.tree .ready)) x.1.content.unchain
      x.2.content.unchain) :
    SameFault
      (fun a a' => a.map (·.label) = a'.map (·.label) ∧
        ∀ x ∈ a.zip a', Regrouped p (.tree .ready) x.1.content x.2.content)
      (unchainArgs args) (unchainArgs args') := by
  induction args generalizing args' with
  | nil =>
    cases args' with
    | nil => exact .ok ⟨rfl, List.forall_mem_nil _⟩
    | cons => cases hlabels
  | cons a rest ih =>
    cases args' with
    | nil => cases hlabels
    | cons a' rest' =>
      rw [List.map_cons, List.map_cons, List.cons.injEq] at hlabels
      rw [List.zip_cons_cons, List.forall_mem_cons] at h
      refine SameFault.bind h.1 fun u u' hu => ?_
      refine (ih hlabels.2 h.2).bind fun b b' hb => .ok ?_
      refine ⟨?_, List.forall_mem_cons.mpr ⟨hu, hb.2⟩⟩
      rw [List.map_cons, List.map_cons, hlabels.1, hb.1]

theorem regrouped_cons {v v' : Node} {args args' : List (Labelled Node)}
    (hv : Regrouped p (.tree .ready) v v')
    (hargs : ∀ x ∈ args.zip args', Regrouped p (.tree .ready) x.1.content x.2.content) :
    ∀ x ∈ (⟨none, v⟩ :: args : List (Labelled Node)).zip (⟨none, v'⟩ :: args'),
      Regrouped p (.tree .ready) x.1.content x.2.content :=
  List.forall_mem_cons.mpr ⟨hv, hargs⟩

theorem carries_of_regrouped {aspect : Aspect} {n n' : Node} (h : Regrouped p aspect n n') :
    Carries p aspect n n' := by
  induction h with
  | leaf v hs => exact fun _ => .ok (.leaf v hs)
  | sequence hs hlength _ ih =>
    intro hst
    rw [unchain, unchain]
    exact (unchainAll_sameFault hlength fun x hx => ih x hx hst).bind fun b b' hb =>
      .ok (.sequence hs hb.1 hb.2)
  | assign hs hop htarget _ ih =>
    intro hst
    rw [unchain_assign hop, unchain_assign hop]
    exact (ih hst).map fun u u' hu => .assign hs hop htarget hu
  | @assignChain s s' _ _ _ _ hs htarget _ _ ihtarget ihlink =>
    intro _
    rw [unchain_assign_chain, unchain_assign_chain]
    have hcall := (ihtarget rfl).bind fun u u' hu => ihlink s s' u u' hs hu
    exact hcall.map fun u u' hu => .assign hs (by decide) htarget hu
  | binary op hs _ _ ihlhs ihrhs =>
    intro hst
    rw [unchain, unchain]
    exact (ihlhs hst).bind fun u u' hu => (ihrhs hst).bind fun w w' hw =>
      .ok (.binary op hs hu hw)
  | unary op hs _ ih =>
    intro hst
    rw [unchain, unchain]
    exact (ih hst).bind fun u u' hu => .ok (.unary op hs hu)
  | ternary hs _ _ _ ihcondition ihyes ihno =>
    intro hst
    rw [unchain, unchain]
    exact (ihcondition hst).bind fun c c' hc => (ihyes hst).bind fun u u' hu =>
      (ihno hst).bind fun w w' hw => .ok (.ternary hs hc hu hw)
  | call callee hs hlabels _ ih =>
    intro hst
    rw [unchain, unchain]
    exact (unchainArgs_sameFault hlabels fun x hx => ih x hx hst).bind fun a a' ha =>
      .ok (.call callee hs ha.1 ha.2)
  | functionDef hs hname hparams _ ih =>
    intro hst
    rw [unchain, unchain]
    exact (ih hst).bind fun u u' hu => .ok (.functionDef hs hname hparams hu)
  | @definition _ _ _ _ _ body hs hname =>
    intro _
    rw [unchain, unchain]
    refine (SameFault.refl (fun _ => rfl) body.unchain).bind fun u u' hu => ?_
    cases hu
    exact .ok (.definition hs hname)
  | defaultValue name hs _ ih =>
    intro hst
    rw [unchain, unchain]
    exact (ih hst).bind fun u u' hu => .ok (.defaultValue name hs hu)
  | returnNothing hs => exact fun _ => .ok (.returnNothing hs)
  | returnValue hs _ ih =>
    intro hst
    rw [unchain, unchain]
    exact (ih hst).bind fun u u' hu => .ok (.returnValue hs hu)
  | ifThen hs _ _ ihcondition ihyes =>
    intro hst
    rw [unchain, unchain]
    exact (ihcondition hst).bind fun c c' hc => (ihyes hst).bind fun u u' hu =>
      .ok (.ifThen hs hc hu)
  | ifElse hs _ _ _ ihcondition ihyes ihno =>
    intro hst
    rw [unchain, unchain]
    exact (ihcondition hst).bind fun c c' hc => (ihyes hst).bind fun u u' hu =>
      (ihno hst).bind fun w w' hw => .ok (.ifElse hs hc hu hw)
  | importName name hs => exact fun _ => .ok (.importName name hs)
  | @chain s s' value value' link link' hs hvalue hlink ihvalue ihlink =>
    intro _
    have hhead := hvalue.asIdentifier?_eq
    cases hname : value.asIdentifier? with
    | some name =>
      have hname' : value'.asIdentifier? = some name := hhead ▸ hname
      rw [unchain_chain_of_isSome (by rw [hname]; rfl),
        unchain_chain_of_isSome (by rw [hname']; rfl), eq_identifier_of_asIdentifier? hname,
        eq_identifier_of_asIdentifier? hname']
      exact .ok (.kept hs hvalue.span hlink)
    | none =>
      rw [unchain_chain hname, unchain_chain (hhead ▸ hname)]
      exact (ihvalue rfl).bind fun u u' hu => ihlink s s' u u' hs hu
  | unchained _ _ _ _ hu hu' hready _ =>
    intro _
    rw [hu, hu']
    exact .ok hready
  | kept =>
    intro hst
    cases hst
  | stands =>
    intro hst
    cases hst
  | linkName name =>
    intro s s' v v' hs hv
    exact .ok (.call (.named name) hs rfl (regrouped_cons hv (List.forall_mem_nil _)))
  | linkCall callee hlabels _ ih =>
    intro s s' v v' hs hv
    rw [pipe, pipe]
    refine (unchainArgs_sameFault hlabels fun x hx => ih x hx rfl).bind fun a a' ha => .ok ?_
    exact .call callee hs (congrArg (none :: ·) ha.1) (regrouped_cons hv ha.2)
  | linkChain _ _ ihfirst ihrest =>
    intro s s' v v' hs hv
    rw [pipe, pipe]
    exact (ihfirst s s' v v' hs hv).bind fun u u' hu => ihrest s s' u u' hs hu
  | refused hn hn' hkind =>
    intro s s' v v' _ _
    rw [isLink_eq_false hn, isLink_eq_false hn', hkind]
    exact .error _

namespace Regrouped

variable {n n' : Node}

theorem unchain (h : Regrouped p (.tree .written) n n') :
    SameFault (Regrouped p (.tree .ready)) n.unchain n'.unchain :=
  carries_of_regrouped h rfl

theorem pipe (h : Regrouped p .link n n') {s s' : Span} (hs : s.SameStart s') {v v' : Node}
    (hv : Regrouped p (.tree .ready) v v') :
    SameFault (Regrouped p (.tree .ready)) (Node.pipe s v n) (Node.pipe s' v' n') :=
  carries_of_regrouped h s s' v v' hs hv

theorem unchainArgs {args args' : List (Labelled Node)}
    (hlabels : args.map (·.label) = args'.map (·.label))
    (h : ∀ x ∈ args.zip args', Regrouped p (.tree .written) x.1.content x.2.content) :
    SameFault
      (fun a a' => a.map (·.label) = a'.map (·.label) ∧
        ∀ x ∈ a.zip a', Regrouped p (.tree .ready) x.1.content x.2.content)
      (Node.unchainArgs args) (Node.unchainArgs args') :=
  unchainArgs_sameFault hlabels fun x hx => (h x hx).unchain

theorem pluginCall (h : Regrouped p .link n n') (owner : String) {s s' : Span}
    (hs : s.SameStart s') :
    SameFault (Regrouped p (.tree .ready)) (Node.pluginCall owner s n)
      (Node.pluginCall owner s' n') := by
  generalize haspect : Aspect.link = aspect at h
  induction h with
  | linkName name => exact .ok (.call _ hs rfl (List.forall_mem_nil _))
  | @linkCall t t' args args' callee hlabels hargs ih =>
    cases callee with
    | named function =>
      exact (unchainArgs hlabels hargs).bind fun a a' ha => .ok (.call _ hs ha.1 ha.2)
    | plugin owner' function =>
      have hlink : Regrouped p .link (.call t (.plugin owner' function) args)
        (.call t' (.plugin owner' function) args') := .linkCall _ hlabels hargs
      exact hlink.pipe hs (.leaf _ hs)
  | linkChain _ hrest ihfirst ihrest =>
    rw [Node.pluginCall, Node.pluginCall]
    exact (ihfirst rfl).bind fun u u' hu => hrest.pipe hs hu
  | refused hn hn' hkind =>
    rw [pluginCall_of_isLink_eq_false hn, pluginCall_of_isLink_eq_false hn', hkind]
    exact .error _
  | _ => cases haspect

theorem unchainAs {value value' link link' : Node}
    (hvalue : Regrouped p (.tree .written) value value') (hlink : Regrouped p .link link link')
    {s s' : Span} (hs : s.SameStart s') :
    SameFault (Regrouped p (.tree .ready)) (Node.unchainAs s value link)
      (Node.unchainAs s' value' link') :=
  hvalue.unchain.bind fun _ _ hu => hlink.pipe hs hu

end Regrouped

/-! ## Trees that leave the name alone -/

/-- The names that a tree binds by itself, in its own scope or as parameters. -/
def binds : Node → List String
  | assign _ target _ _ => target.asIdentifier?.toList
  | functionDef _ name params _ => name :: params.map (·.name)
  | _ => []

/-- Trees that do not bind `p` in the scope in which they are evaluated.  Calls of the functions
that they define may bind it, each in a scope of its own. -/
inductive Spares (p : String) : Node → Prop where
  | functionDef {s : Span} {name : String} {params : List Param} {body : Node} : name ≠ p →
      Spares p (.functionDef s name params body)
  | node {n : Node} : p ∉ n.binds → (∀ part ∈ n.parts, Spares p part) → Spares p n

/-- A tree that binds `p` nowhere within it is one. -/
theorem Spares.of_binds {n : Node} (h : ∀ u ∈ n.subtrees, p ∉ u.binds) : n.Spares p := by
  have of_parts : ∀ {n : Node}, (∀ u ∈ n.subtrees, p ∉ u.binds) →
      (∀ part ∈ n.parts, (∀ u ∈ part.subtrees, p ∉ u.binds) → part.Spares p) → n.Spares p :=
    fun h hparts => .node (h _ (self_mem_subtrees _)) fun part hpart =>
      hparts part hpart (forall_subtrees_of_mem_parts h hpart)
  induction n using Node.induct with
  | leaf => exact of_parts h (List.forall_mem_nil _)
  | sequence s body ih => exact of_parts h ih
  | assign s target op value ihtarget ihvalue =>
    exact of_parts h (by simpa [parts] using ⟨ihtarget, ihvalue⟩)
  | binary s op lhs rhs ihlhs ihrhs => exact of_parts h (by simpa [parts] using ⟨ihlhs, ihrhs⟩)
  | unary s op operand ih => exact of_parts h (by simpa [parts] using ih)
  | ternary s condition yes no ihcondition ihyes ihno =>
    exact of_parts h (by simpa [parts] using ⟨ihcondition, ihyes, ihno⟩)
  | call s callee args ih => exact of_parts h (List.forall_mem_map.mpr ih)
  | chain s value link ihvalue ihlink =>
    exact of_parts h (by simpa [parts] using ⟨ihvalue, ihlink⟩)
  | functionDef s name params body ih => exact of_parts h (by simpa [parts] using ih)
  | defaultValue s name value ih => exact of_parts h (by simpa [parts] using ih)
  | returnValue s value ih => exact of_parts h fun n hn => ih n (Option.mem_toList.mp hn)
  | ifElse s condition yes no ihcondition ihyes ihno =>
    refine of_parts h (List.forall_mem_cons.mpr ⟨ihcondition, List.forall_mem_cons.mpr ⟨ihyes, ?_⟩⟩)
    exact fun n hn => ihno n (Option.mem_toList.mp hn)
  | importName => exact of_parts h (List.forall_mem_nil _)

theorem forall_zip_self {r : α → α → Prop} {l : List α} (h : ∀ a ∈ l, r a a) :
    ∀ x ∈ l.zip l, r x.1 x.2 := by
  intro x hx
  exact (List.forall₂_iff_zip.mp (List.forall₂_same.mpr h)).2 hx

theorem Spares.regrouped {n : Node} (h : n.Spares p) :
    Regrouped p (.tree .written) n n ∧ Regrouped p .link n n := by
  induction h with
  | functionDef hname => exact ⟨.definition (.refl _) hname, .refused rfl rfl rfl⟩
  | @node n hbinds _ ih =>
    have hs := Span.SameStart.refl n.span
    cases n with
    | leaf s v =>
      refine ⟨.leaf v hs, ?_⟩
      cases v with
      | identifier name => exact .linkName name
      | _ => exact .refused rfl rfl rfl
    | sequence s body =>
      exact ⟨.sequence hs rfl (forall_zip_self fun n hn => (ih n hn).1), .refused rfl rfl rfl⟩
    | assign s target op value =>
      have htarget := (ih target (by simp [parts])).1
      have hvalue := ih value (by simp [parts])
      have hsame := htarget.target fun name hname heq =>
        hbinds (Option.mem_toList.mpr (heq ▸ hname))
      refine ⟨?_, .refused rfl rfl rfl⟩
      by_cases hop : op = .chain
      · subst hop
        exact .assignChain hs hsame htarget hvalue.2
      · exact .assign hs hop hsame hvalue.1
    | binary s op lhs rhs =>
      exact ⟨.binary op hs (ih lhs (by simp [parts])).1 (ih rhs (by simp [parts])).1,
        .refused rfl rfl rfl⟩
    | unary s op operand =>
      exact ⟨.unary op hs (ih operand (by simp [parts])).1, .refused rfl rfl rfl⟩
    | ternary s condition yes no =>
      exact ⟨.ternary hs (ih condition (by simp [parts])).1 (ih yes (by simp [parts])).1
        (ih no (by simp [parts])).1, .refused rfl rfl rfl⟩
    | call s callee args =>
      have hargs : ∀ x ∈ args.zip args, Regrouped p (.tree .written) x.1.content x.2.content :=
        forall_zip_self (r := fun a b : Labelled Node =>
          Regrouped p (.tree .written) a.content b.content)
          fun a ha => (ih a.content (List.mem_map_of_mem ha)).1
      exact ⟨.call callee hs rfl hargs, .linkCall callee rfl hargs⟩
    | chain s value link =>
      have hvalue := ih value (by simp [parts])
      have hlink := ih link (by simp [parts])
      exact ⟨.chain hs hvalue.1 hlink.2, .linkChain hvalue.2 hlink.2⟩
    | functionDef s name params body =>
      refine ⟨.definition hs fun heq => hbinds ?_, .refused rfl rfl rfl⟩
      rw [heq]
      exact List.mem_cons_self
    | defaultValue s name value =>
      exact ⟨.defaultValue name hs (ih value (by simp [parts])).1, .refused rfl rfl rfl⟩
    | returnValue s value =>
      refine ⟨?_, .refused rfl rfl rfl⟩
      cases value with
      | none => exact .returnNothing hs
      | some value => exact .returnValue hs (ih value (by simp [parts])).1
    | ifElse s condition yes no =>
      have hcondition := (ih condition (by simp [parts])).1
      have hyes := (ih yes (by simp [parts])).1
      refine ⟨?_, .refused rfl rfl rfl⟩
      cases no with
      | none => exact .ifThen hs hcondition hyes
      | some no => exact .ifElse hs hcondition hyes (ih no (by simp [parts])).1
    | importName s name => exact ⟨.importName name hs, .refused rfl rfl rfl⟩

end Node
end ClipScript
