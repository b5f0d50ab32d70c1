/-
Trees without function definitions, and how deep their evaluation nests.

Evaluating a chain means evaluating the call it stands for, which is no part of the tree: it is made
on the fly, and it is evaluated one level deeper.  `Node.Plain` bounds the nesting so that this
is accounted for.  A chain counts for what its value and its links count together, and so the call
that takes its place counts for less (`Plain.unchainAs`, `Plain.pluginCall`).

A tree that defines no function is plain for some bound (`exists_plain`).
-/
import ClipScript.Proofs.Node.Formed

namespace ClipScript
namespace Node

/-- Trees that define no function and import certain names only, and whose evaluation nests at most
`k` deep, whatever chains are replaced by calls on the way. -/
inductive Plain (imported : String → Prop) : Nat → Node → Prop where
  | leaf {k : Nat} {s : Span} {v : Value} : Plain imported (k + 1) (.leaf s v)
  | sequence {k : Nat} {s : Span} {body : List Node} : (∀ n ∈ body, Plain imported k n) →
      Plain imported (k + 1) (.sequence s body)
  | assign {k : Nat} {s : Span} {target : Node} {op : AssignOp} {value : Node} : op ≠ .chain →
      Plain imported k target → Plain imported k value →
      Plain imported (k + 1) (.assign s target op value)
  | assignChain {j k : Nat} {s : Span} {target link : Node} : Plain imported j target →
      Plain imported k link → Plain imported (j + k + 1) (.assign s target .chain link)
  | binary {k : Nat} {s : Span} {op : BinaryOp} {lhs rhs : Node} : Plain imported k lhs →
      Plain imported k rhs → Plain imported (k + 1) (.binary s op lhs rhs)
  | unary {k : Nat} {s : Span} {op : UnaryOp} {operand : Node} : Plain imported k operand →
      Plain imported (k + 1) (.unary s op operand)
  | ternary {k : Nat} {s : Span} {condition yes no : Node} : Plain imported k condition →
      Plain imported k yes → Plain imported k no →
      Plain imported (k + 1) (.ternary s condition yes no)
  | call {k : Nat} {s : Span} {callee : Callee} {args : List (Labelled Node)} :
      (∀ a ∈ args, Plain imported k a.content) → Plain imported (k + 1) (.call s callee args)
  | chain {j k : Nat} {s : Span} {value link : Node} : Plain imported j value →
      Plain imported k link → Plain imported (j + k + 1) (.chain s value link)
  | defaultValue {k : Nat} {s : Span} {name : String} {value : Node} : Plain imported k value →
      Plain imported (k + 1) (.defaultValue s name value)
  | returnValue {k : Nat} {s : Span} {value : Option Node} : (∀ n ∈ value, Plain imported k n) →
      Plain imported (k + 1) (.returnValue s value)
  | ifElse {k : Nat} {s : Span} {condition yes : Node} {no : Option Node} :
      Plain imported k condition → Plain imported k yes → (∀ n ∈ no, Plain imported k n) →
      Plain imported (k + 1) (.ifElse s condition yes no)
  | importName {k : Nat} {s : Span} {name : String} : imported name →
      Plain imported (k + 1) (.importName s name)

variable {imported : String → Prop}

theorem Plain.pos {k : Nat} {n : Node} (h : n.Plain imported k) : 0 < k := by
  cases h <;> exact Nat.succ_pos _

theorem Plain.succ {k : Nat} {n : Node} (h : n.Plain imported k) : n.Plain imported (k + 1) := by
  induction h with
  | leaf => exact .leaf
  | sequence _ ih => exact .sequence ih
  | assign hop _ _ ihtarget ihvalue => exact .assign hop ihtarget ihvalue
  | @assignChain j k s target link htarget _ _ ihlink =>
    show Plain imported (j + (k + 1) + 1) _
    exact .assignChain htarget ihlink
  | binary _ _ ihlhs ihrhs => exact .binary ihlhs ihrhs
  | unary _ ih => exact .unary ih
  | ternary _ _ _ ihcondition ihyes ihno => exact .ternary ihcondition ihyes ihno
  | call _ ih => exact .call ih
  | @chain j k s value link hvalue _ _ ihlink =>
    show Plain imported (j + (k + 1) + 1) _
    exact .chain hvalue ihlink
  | defaultValue _ ih => exact .defaultValue ih
  | returnValue _ ih => exact .returnValue ih
  | ifElse _ _ _ ihcondition ihyes ihno => exact .ifElse ihcondition ihyes ihno
  | importName hname => exact .importName hname

theorem Plain.mono {k k' : Nat} {n : Node} (h : n.Plain imported k) (hk : k ≤ k') :
    n.Plain imported k' := by
  induction hk with
  | refl => exact h
  | step _ ih => exact ih.succ

/-- Replacing the chains of the tree keeps to the bound, and letting a value flow into it adds the
bound to that of the value. -/
def Reduces (imported : String → Prop) (k : Nat) (n : Node) : Prop :=
  (∀ u, n.unchain = .ok u → u.Plain imported k) ∧
    ∀ s v j u, v.Plain imported j → pipe s v n = .ok u → u.Plain imported (j + k)

variable {k : Nat}

theorem plain_of_unchainAll {body body' : List Node} (hbody : ∀ n ∈ body, n.Reduces imported k)
    (h : unchainAll body = .ok body') : ∀ n ∈ body', n.Plain imported k := by
  induction body generalizing body' with
  | nil =>
    cases h
    exact List.forall_mem_nil _
  | cons n rest ih =>
    rw [unchainAll] at h
    obtain ⟨u, hu, h⟩ := ok_of_bind h
    obtain ⟨rest', hrest, h⟩ := ok_of_bind h
    cases h
    rw [List.forall_mem_cons] at hbody ⊢
    exact ⟨hbody.1.1 u hu, ih hbody.2 hrest⟩

theorem plain_of_unchainArgs {args args' : List (Labelled Node)}
    (hargs : ∀ a ∈ args, a.content.Reduces imported k) (h : unchainArgs args = .ok args') :
    ∀ a ∈ args', a.content.Plain imported k := by
  induction args generalizing args' with
  | nil =>
    cases h
    exact List.forall_mem_nil _
  | cons a rest ih =>
    rw [unchainArgs] at h
    obtain ⟨u, hu, h⟩ := ok_of_bind h
    obtain ⟨rest', hrest, h⟩ := ok_of_bind h
    cases h
    rw [List.forall_mem_cons] at hargs ⊢
    exact ⟨hargs.1.1 u hu, ih hargs.2 hrest⟩

theorem reduces_of_not_callable {n : Node} (h : ∀ u, n.unchain = .ok u → u.Plain imported k)
    (hpipe : ∀ s v, pipe s v n = .error (.notCallable n.kindName)) : n.Reduces imported k := by
  refine ⟨h, fun s v j u _ hu => ?_⟩
  rw [hpipe] at hu
  cases hu

/-- The value flows into the first part of the links, and what comes of that into the second. -/
theorem reduces_chain {j : Nat} {s : Span} {value link : Node} (hvalue : value.Plain imported j)
    (hlink : link.Plain imported k) (ihvalue : value.Reduces imported j)
    (ihlink : link.Reduces imported k) : (chain s value link).Reduces imported (j + k + 1) := by
  refine ⟨fun u h => ?_, fun t v i u hv h => ?_⟩
  · cases hname : value.asIdentifier? with
    | some name =>
      rw [unchain_chain_of_isSome (by rw [hname]; rfl)] at h
      cases h
      exact .chain hvalue hlink
    | none =>
      rw [unchain_chain hname] at h
      obtain ⟨value', hvalue', h⟩ := ok_of_bind h
      exact (ihlink.2 s value' j u (ihvalue.1 value' hvalue') h).succ
  · rw [pipe] at h
    obtain ⟨first, hfirst, h⟩ := ok_of_bind h
    have hu := ihlink.2 t first (i + j) u (ihvalue.2 t v i first hv hfirst) h
    exact hu.mono (by omega)

theorem Plain.reduces {n : Node} (h : n.Plain imported k) : n.Reduces imported k := by
  induction h with
  | @leaf k s v =>
    refine ⟨fun u hu => by cases hu; exact .leaf, fun t v' j u hv hu => ?_⟩
    cases v with
    | identifier name =>
      cases hu
      exact .call (List.forall_mem_singleton.mpr (hv.mono (Nat.le_add_right j k)))
    | _ => cases hu
  | sequence _ ih =>
    refine reduces_of_not_callable (fun u h => ?_) fun _ _ => rfl
    rw [unchain] at h
    obtain ⟨body', hbody, h⟩ := ok_of_bind h
    cases h
    exact .sequence (plain_of_unchainAll ih hbody)
  | assign hop htarget _ _ ihvalue =>
    refine reduces_of_not_callable (fun u h => ?_) fun _ _ => rfl
    rw [unchain_assign hop] at h
    obtain ⟨value', hvalue', rfl⟩ := ok_of_map h
    exact .assign hop htarget (ihvalue.1 value' hvalue')
  | @assignChain j k s target link htarget _ ihtarget ihlink =>
    refine reduces_of_not_callable (fun u h => ?_) fun _ _ => rfl
    rw [unchain_assign_chain] at h
    obtain ⟨call, hcall, rfl⟩ := ok_of_map h
    obtain ⟨target', htarget', hcall⟩ := ok_of_bind hcall
    exact .assign (by decide) (htarget.mono (Nat.le_add_right j k))
      (ihlink.2 s target' j call (ihtarget.1 target' htarget') hcall)
  | binary _ _ ihlhs ihrhs =>
    refine reduces_of_not_callable (fun u h => ?_) fun _ _ => rfl
    rw [unchain] at h
    obtain ⟨lhs', hlhs, h⟩ := ok_of_bind h
    obtain ⟨rhs', hrhs, h⟩ := ok_of_bind h
    cases h
    exact .binary (ihlhs.1 _ hlhs) (ihrhs.1 _ hrhs)
  | unary _ ih =>
    refine reduces_of_not_callable (fun u h => ?_) fun _ _ => rfl
    rw [unchain] at h
    obtain ⟨operand', hoperand, h⟩ := ok_of_bind h
    cases h
    exact .unary (ih.1 _ hoperand)
  | ternary _ _ _ ihcondition ihyes ihno =>
    refine reduces_of_not_callable (fun u h => ?_) fun _ _ => rfl
    rw [unchain] at h
    obtain ⟨condition', hcondition, h⟩ := ok_of_bind h
    obtain ⟨yes', hyes, h⟩ := ok_of_bind h
    obtain ⟨no', hno, h⟩ := ok_of_bind h
    cases h
    exact .ternary (ihcondition.1 _ hcondition) (ihyes.1 _ hyes) (ihno.1 _ hno)
  | @call k s callee args _ ih =>
    refine ⟨fun u h => ?_, fun t v j u hv h => ?_⟩
    · rw [unchain] at h
      obtain ⟨args', hargs, h⟩ := ok_of_bind h
      cases h
      exact .call (plain_of_unchainArgs ih hargs)
    · rw [pipe] at h
      obtain ⟨args', hargs, h⟩ := ok_of_bind h
      cases h
      refine .call (List.forall_mem_cons.mpr ⟨hv.mono (Nat.le_add_right j k), fun a ha => ?_⟩)
      exact (plain_of_unchainArgs ih hargs a ha).mono (Nat.le_add_left k j)
  | chain hvalue hlink ihvalue ihlink => exact reduces_chain hvalue hlink ihvalue ihlink
  | defaultValue _ ih =>
    refine reduces_of_not_callable (fun u h => ?_) fun _ _ => rfl
    rw [unchain] at h
    obtain ⟨value', hvalue, h⟩ := ok_of_bind h
    cases h
    exact .defaultValue (ih.1 _ hvalue)
  | @returnValue k s value hvalue ih =>
    refine reduces_of_not_callable (fun u h => ?_) fun _ _ => rfl
    cases value with
    | none =>
      cases h
      exact .returnValue hvalue
    | some value =>
      rw [unchain] at h
      obtain ⟨value', hvalue', h⟩ := ok_of_bind h
      cases h
      refine .returnValue fun n hn => ?_
      cases hn
      exact (ih value rfl).1 _ hvalue'
  | @ifElse k s condition yes no hcondition hyes hno ihcondition ihyes ihno =>
    refine reduces_of_not_callable (fun u h => ?_) fun _ _ => rfl
    cases no with
    | none =>
      rw [unchain] at h
      obtain ⟨condition', hcondition', h⟩ := ok_of_bind h
      obtain ⟨yes', hyes', h⟩ := ok_of_bind h
      cases h
      refine .ifElse (ihcondition.1 _ hcondition') (ihyes.1 _ hyes') fun n hn => ?_
      cases hn
    | some no =>
      rw [unchain] at h
      obtain ⟨condition', hcondition', h⟩ := ok_of_bind h
      obtain ⟨yes', hyes', h⟩ := ok_of_bind h
      obtain ⟨no', hno', h⟩ := ok_of_bind h
      cases h
      refine .ifElse (ihcondition.1 _ hcondition') (ihyes.1 _ hyes') fun n hn => ?_
      cases hn
      exact (ihno no rfl).1 _ hno'
  | importName hname =>
    exact reduces_of_not_callable (fun u h => by cases h; exact .importName hname) fun _ _ => rfl

namespace Plain

theorem unchain {n u : Node} (h : n.Plain imported k) (hu : n.unchain = .ok u) :
    u.Plain imported k :=
  h.reduces.1 u hu

theorem unchainAs {j : Nat} {s : Span} {value link u : Node} (hvalue : value.Plain imported j)
    (hlink : link.Plain imported k) (hu : Node.unchainAs s value link = .ok u) :
    u.Plain imported (j + k) := by
  obtain ⟨value', hvalue', hu⟩ := ok_of_bind hu
  exact hlink.reduces.2 s value' j u (hvalue.unchain hvalue') hu

/-- The name of the plugin counts for one, whether it ends up in the call or not. -/
theorem pluginCall {owner : String} {s : Span} {link u : Node} (hlink : link.Plain imported k)
    (hu : Node.pluginCall owner s link = .ok u) : u.Plain imported (1 + k) := by
  have howner : (identifier s owner).Plain imported 1 := .leaf
  induction link using Node.induct generalizing u k with
  | call t callee args _ =>
    cases callee with
    | named function =>
      cases hlink with
      | @call k _ _ _ hargs =>
        rw [Node.pluginCall] at hu
        obtain ⟨args', hargs', hu⟩ := ok_of_bind hu
        cases hu
        have hcall : (Node.call s (.plugin owner function) args').Plain imported (k + 1) :=
          .call (plain_of_unchainArgs (fun a ha => (hargs a ha).reduces) hargs')
        exact hcall.mono (Nat.le_add_left _ _)
    | plugin owner' function => exact howner.unchainAs hlink hu
  | leaf t v =>
    cases v with
    | identifier function =>
      cases hu
      have hcall : (Node.call s (.plugin owner function) []).Plain imported (0 + 1) :=
        .call (List.forall_mem_nil _)
      exact hcall.mono (Nat.le_add_right _ _)
    | _ => exact howner.unchainAs hlink hu
  | chain t first rest ihfirst ihrest =>
    cases hlink with
    | chain hfirst hrest =>
      rw [Node.pluginCall] at hu
      obtain ⟨call, hcall, hu⟩ := ok_of_bind hu
      have hu := hrest.reduces.2 s call _ u (ihfirst hfirst hcall) hu
      exact hu.mono (by omega)
  | _ => exact howner.unchainAs hlink hu

end Plain

def isDefinition : Node → Bool
  | functionDef _ _ _ _ => true
  | _ => false

/-- A tree that, by itself, is no definition and imports none but certain names. -/
def Harmless (imported : String → Prop) (n : Node) : Prop :=
  n.isDefinition = false ∧ ∀ name ∈ n.imported?, imported name

theorem exists_bound (imported : String → Prop) (nodes : List Node) :
    ∃ k, ∀ n ∈ nodes, (∃ j, n.Plain imported j) → n.Plain imported k := by
  induction nodes with
  | nil => exact ⟨0, List.forall_mem_nil _⟩
  | cons n rest ih =>
    obtain ⟨k, hk⟩ := ih
    by_cases hn : ∃ j, n.Plain imported j
    · obtain ⟨j, hj⟩ := hn
      refine ⟨j + k, List.forall_mem_cons.mpr ⟨fun _ => hj.mono (Nat.le_add_right j k), ?_⟩⟩
      exact fun m hm hplain => (hk m hm hplain).mono (Nat.le_add_left k j)
    · exact ⟨k, List.forall_mem_cons.mpr ⟨fun h => absurd h hn, hk⟩⟩

/-- A chain of two parts that nest `k` deep counts for both of them. -/
theorem plain_of_parts {n : Node} (h : n.Harmless imported)
    (hparts : ∀ part ∈ n.parts, part.Plain imported k) : n.Plain imported (k + k + 1) := by
  have hmore : ∀ part ∈ n.parts, part.Plain imported (k + k) :=
    fun part hpart => (hparts part hpart).mono (Nat.le_add_right k k)
  cases n with
  | leaf s v => exact .leaf
  | sequence s body => exact .sequence hmore
  | assign s target op value =>
    by_cases hop : op = .chain
    · subst hop
      exact .assignChain (hparts target (by simp [parts])) (hparts value (by simp [parts]))
    · exact .assign hop (hmore target (by simp [parts])) (hmore value (by simp [parts]))
  | binary s op lhs rhs =>
    exact .binary (hmore lhs (by simp [parts])) (hmore rhs (by simp [parts]))
  | unary s op operand => exact .unary (hmore operand (by simp [parts]))
  | ternary s condition yes no =>
    exact .ternary (hmore condition (by simp [parts])) (hmore yes (by simp [parts]))
      (hmore no (by simp [parts]))
  | call s callee args => exact .call fun a ha => hmore a.content (List.mem_map_of_mem ha)
  | chain s value link =>
    exact .chain (hparts value (by simp [parts])) (hparts link (by simp [parts]))
  | functionDef s name params body => cases h.1
  | defaultValue s name value => exact .defaultValue (hmore value (by simp [parts]))
  | returnValue s value => exact .returnValue fun n hn => hmore n (Option.mem_toList.mpr hn)
  | ifElse s condition yes no =>
    refine .ifElse (hmore condition (by simp [parts])) (hmore yes (by simp [parts])) fun n hn => ?_
    exact hmore n (List.mem_cons_of_mem _ (List.mem_cons_of_mem _ (Option.mem_toList.mpr hn)))
  | importName s name => exact .importName (h.2 name rfl)

theorem inductParts {motive : Node → Prop}
    (h : ∀ n, (∀ part ∈ n.parts, motive part) → motive n) (n : Node) : motive n := by
  induction n using Node.induct <;> refine h _ ?_ <;> simp_all [parts]

theorem exists_plain {n : Node} (h : ∀ u ∈ n.subtrees, u.Harmless imported) :
    ∃ k, n.Plain imported k := by
  induction n using inductParts with
  | h n ih =>
    have hparts : ∀ part ∈ n.parts, ∃ k, part.Plain imported k :=
      fun part hpart => ih part hpart (forall_subtrees_of_mem_parts h hpart)
    obtain ⟨k, hk⟩ := exists_bound imported n.parts
    exact ⟨k + k + 1, plain_of_parts (h n n.self_mem_subtrees)
      fun part hpart => hk part hpart (hparts part hpart)⟩

end Node
end ClipScript
