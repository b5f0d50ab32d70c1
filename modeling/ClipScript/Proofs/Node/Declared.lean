/-
The parameters that a tree declares.

A function can be defined anywhere in a tree, and what is defined during a run are the functions of
the trees that are run.  `Node.Declares` says of a tree that all parameters declared in it are good.
Replacing chains by calls declares nothing new, so it holds of the trees that come up during a run
if it holds of the scripts.
-/
import ClipScript.Proofs.Node.Unplaced

namespace ClipScript
namespace Node

inductive Declares (good : Param → Prop) : Node → Prop where
  | leaf {s : Span} {v : Value} : Declares good (.leaf s v)
  | sequence {s : Span} {body : List Node} : (∀ n ∈ body, Declares good n) →
      Declares good (.sequence s body)
  | assign {s : Span} {target : Node} {op : AssignOp} {value : Node} : Declares good target →
      Declares good value → Declares good (.assign s target op value)
  | binary {s : Span} {op : BinaryOp} {lhs rhs : Node} : Declares good lhs → Declares good rhs →
      Declares good (.binary s op lhs rhs)
  | unary {s : Span} {op : UnaryOp} {operand : Node} : Declares good operand →
      Declares good (.unary s op operand)
  | ternary {s : Span} {condition yes no : Node} : Declares good condition → Declares good yes →
      Declares good no → Declares good (.ternary s condition yes no)
  | call {s : Span} {callee : Callee} {args : List (Labelled Node)} :
      (∀ a ∈ args, Declares good a.content) → Declares good (.call s callee args)
  | chain {s : Span} {value link : Node} : Declares good value → Declares good link →
      Declares good (.chain s value link)
  | functionDef {s : Span} {name : String} {params : List Param} {body : Node} :
      (∀ p ∈ params, good p) → Declares good body → Declares good (.functionDef s name params body)
  | defaultValue {s : Span} {name : String} {value : Node} : Declares good value →
      Declares good (.defaultValue s name value)
  | returnValue {s : Span} {value : Option Node} : (∀ n ∈ value, Declares good n) →
      Declares good (.returnValue s value)
  | ifElse {s : Span} {condition yes : Node} {no : Option Node} : Declares good condition →
      Declares good yes → (∀ n ∈ no, Declares good n) → Declares good (.ifElse s condition yes no)
  | importName {s : Span} {name : String} : Declares good (.importName s name)

variable {good : Param → Prop}

theorem declares_of_forall (h : ∀ p, good p) (n : Node) : n.Declares good := by
  induction n using Node.induct with
  | leaf s v => exact .leaf
  | sequence s body ih => exact .sequence ih
  | assign s target op value ihtarget ihvalue => exact .assign ihtarget ihvalue
  | binary s op lhs rhs ihlhs ihrhs => exact .binary ihlhs ihrhs
  | unary s op operand ih => exact .unary ih
  | ternary s condition yes no ihcondition ihyes ihno => exact .ternary ihcondition ihyes ihno
  | call s callee args ih => exact .call ih
  | chain s value link ihvalue ihlink => exact .chain ihvalue ihlink
  | functionDef s name params body ih => exact .functionDef (fun p _ => h p) ih
  | defaultValue s name value ih => exact .defaultValue ih
  | returnValue s value ih => exact .returnValue ih
  | ifElse s condition yes no ihcondition ihyes ihno => exact .ifElse ihcondition ihyes ihno
  | importName s name => exact .importName

/-- Neither replacing the chains of the tree nor letting a value flow into it declares anything
bad. -/
def Rewrites (good : Param → Prop) (n : Node) : Prop :=
  (∀ u, n.unchain = .ok u → u.Declares good) ∧
    ∀ s v u, v.Declares good → pipe s v n = .ok u → u.Declares good

theorem declares_of_unchainAll {body body' : List Node} (hbody : ∀ n ∈ body, n.Rewrites good)
    (h : unchainAll body = .ok body') : ∀ n ∈ body', n.Declares good := by
  induction body generalizing body' with
  | nil =>
    cases h
    nofun
  | cons n rest ih =>
    rw [unchainAll] at h
    obtain ⟨u, hu, h⟩ := ok_of_bind h
    obtain ⟨rest', hrest, h⟩ := ok_of_bind h
    cases h
    rw [List.forall_mem_cons] at hbody ⊢
    exact ⟨hbody.1.1 u hu, ih hbody.2 hrest⟩

theorem declares_of_unchainArgs {args args' : List (Labelled Node)}
    (hargs : ∀ a ∈ args, a.content.Rewrites good) (h : unchainArgs args = .ok args') :
    ∀ a ∈ args', a.content.Declares good := by
  induction args generalizing args' with
  | nil =>
    cases h
    nofun
  | cons a rest ih =>
    rw [unchainArgs] at h
    obtain ⟨u, hu, h⟩ := ok_of_bind h
    obtain ⟨rest', hrest, h⟩ := ok_of_bind h
    cases h
    rw [List.forall_mem_cons] at hargs ⊢
    exact ⟨hargs.1.1 u hu, ih hargs.2 hrest⟩

theorem rewrites_of_not_callable {n : Node} (h : ∀ u, n.unchain = .ok u → u.Declares good)
    (hpipe : ∀ s v, pipe s v n = .error (.notCallable n.kindName)) : n.Rewrites good := by
  refine ⟨h, fun s v u _ hu => ?_⟩
  rw [hpipe] at hu
  cases hu

theorem rewrites_chain {s : Span} {value link : Node} (hvalue : value.Declares good)
    (hlink : link.Declares good) (ihvalue : value.Rewrites good) (ihlink : link.Rewrites good) :
    (chain s value link).Rewrites good := by
  refine ⟨fun u h => ?_, fun t v u hv h => ?_⟩
  · cases hname : value.asIdentifier? with
    | some name =>
      rw [unchain_chain_of_isSome (by rw [hname]; rfl)] at h
      cases h
      exact .chain hvalue hlink
    | none =>
      rw [unchain_chain hname] at h
      obtain ⟨value', hvalue', h⟩ := ok_of_bind h
      exact ihlink.2 s value' u (ihvalue.1 value' hvalue') h
  · rw [pipe] at h
    obtain ⟨first, hfirst, h⟩ := ok_of_bind h
    exact ihlink.2 t first u (ihvalue.2 t v first hv hfirst) h

theorem rewrites_assign {s : Span} {target : Node} {op : AssignOp} {value : Node}
    (htarget : target.Declares good) (ihtarget : target.Rewrites good)
    (ihvalue : value.Rewrites good) : (assign s target op value).Rewrites good := by
  refine rewrites_of_not_callable (fun u h => ?_) fun _ _ => rfl
  by_cases hop : op = .chain
  · subst hop
    rw [unchain_assign_chain] at h
    obtain ⟨call, hcall, rfl⟩ := ok_of_map h
    obtain ⟨target', htarget', hcall⟩ := ok_of_bind hcall
    exact .assign htarget (ihvalue.2 s target' call (ihtarget.1 target' htarget') hcall)
  · rw [unchain_assign hop] at h
    obtain ⟨value', hvalue', rfl⟩ := ok_of_map h
    exact .assign htarget (ihvalue.1 value' hvalue')

theorem Declares.rewrites {n : Node} (h : n.Declares good) : n.Rewrites good := by
  induction h with
  | @leaf s v =>
    refine ⟨fun u hu => by cases hu; exact .leaf, fun t v' u hv hu => ?_⟩
    cases v with
    | identifier name =>
      cases hu
      exact .call (List.forall_mem_singleton.mpr hv)
    | _ => cases hu
  | sequence _ ih =>
    refine rewrites_of_not_callable (fun u h => ?_) fun _ _ => rfl
    rw [unchain] at h
    obtain ⟨body', hbody, h⟩ := ok_of_bind h
    cases h
    exact .sequence (declares_of_unchainAll ih hbody)
  | assign htarget _ ihtarget ihvalue => exact rewrites_assign htarget ihtarget ihvalue
  | binary _ _ ihlhs ihrhs =>
    refine rewrites_of_not_callable (fun u h => ?_) fun _ _ => rfl
    rw [unchain] at h
    obtain ⟨lhs', hlhs, h⟩ := ok_of_bind h
    obtain ⟨rhs', hrhs, h⟩ := ok_of_bind h
    cases h
    exact .binary (ihlhs.1 _ hlhs) (ihrhs.1 _ hrhs)
  | unary _ ih =>
    refine rewrites_of_not_callable (fun u h => ?_) fun _ _ => rfl
    rw [unchain] at h
    obtain ⟨operand', hoperand, h⟩ := ok_of_bind h
    cases h
    exact .unary (ih.1 _ hoperand)
  | ternary _ _ _ ihcondition ihyes ihno =>
    refine rewrites_of_not_callable (fun u h => ?_) fun _ _ => rfl
    rw [unchain] at h
    obtain ⟨condition', hcondition, h⟩ := ok_of_bind h
    obtain ⟨yes', hyes, h⟩ := ok_of_bind h
    obtain ⟨no', hno, h⟩ := ok_of_bind h
    cases h
    exact .ternary (ihcondition.1 _ hcondition) (ihyes.1 _ hyes) (ihno.1 _ hno)
  | call _ ih =>
    refine ⟨fun u h => ?_, fun t v u hv h => ?_⟩
    · rw [unchain] at h
      obtain ⟨args', hargs, h⟩ := ok_of_bind h
      cases h
      exact .call (declares_of_unchainArgs ih hargs)
    · rw [pipe] at h
      obtain ⟨args', hargs, h⟩ := ok_of_bind h
      cases h
      exact .call (List.forall_mem_cons.mpr ⟨hv, declares_of_unchainArgs ih hargs⟩)
  | chain hvalue hlink ihvalue ihlink => exact rewrites_chain hvalue hlink ihvalue ihlink
  | functionDef hparams _ ih =>
    refine rewrites_of_not_callable (fun u h => ?_) fun _ _ => rfl
    rw [unchain] at h
    obtain ⟨body', hbody, h⟩ := ok_of_bind h
    cases h
    exact .functionDef hparams (ih.1 _ hbody)
  | defaultValue _ ih =>
    refine rewrites_of_not_callable (fun u h => ?_) fun _ _ => rfl
    rw [unchain] at h
    obtain ⟨value', hvalue, h⟩ := ok_of_bind h
    cases h
    exact .defaultValue (ih.1 _ hvalue)
  | @returnValue s value hvalue ih =>
    refine rewrites_of_not_callable (fun u h => ?_) fun _ _ => rfl
    cases value with
    | none =>
      cases h
      exact .returnValue hvalue
    | some value =>
      rw [unchain] at h
      obtain ⟨value', hvalue', h⟩ := ok_of_bind h
      cases h
      refine .returnValue fun n hn => ?_
      cases hn
      exact (ih value rfl).1 _ hvalue'
  | @ifElse s condition yes no hcondition hyes hno ihcondition ihyes ihno =>
    refine rewrites_of_not_callable (fun u h => ?_) fun _ _ => rfl
    cases no with
    | none =>
      rw [unchain] at h
      obtain ⟨condition', hcondition', h⟩ := ok_of_bind h
      obtain ⟨yes', hyes', h⟩ := ok_of_bind h
      cases h
      refine .ifElse (ihcondition.1 _ hcondition') (ihyes.1 _ hyes') fun n hn => ?_
      cases hn
    | some no =>
      rw [unchain] at h
      obtain ⟨condition', hcondition', h⟩ := ok_of_bind h
      obtain ⟨yes', hyes', h⟩ := ok_of_bind h
      obtain ⟨no', hno', h⟩ := ok_of_bind h
      cases h
      refine .ifElse (ihcondition.1 _ hcondition') (ihyes.1 _ hyes') fun n hn => ?_
      cases hn
      exact (ihno no rfl).1 _ hno'
  | importName =>
    exact rewrites_of_not_callable (fun u h => by cases h; exact .importName) fun _ _ => rfl

namespace Declares

theorem unchain {n u : Node} (h : n.Declares good) (hu : n.unchain = .ok u) : u.Declares good :=
  h.rewrites.1 u hu

theorem unchainAs {s : Span} {value link u : Node} (hvalue : value.Declares good)
    (hlink : link.Declares good) (hu : Node.unchainAs s value link = .ok u) : u.Declares good := by
  obtain ⟨value', hvalue', hu⟩ := ok_of_bind hu
  exact hlink.rewrites.2 s value' u (hvalue.unchain hvalue') hu

theorem pluginCall {owner : String} {s : Span} {link u : Node} (hlink : link.Declares good)
    (hu : Node.pluginCall owner s link = .ok u) : u.Declares good := by
  have hother : Node.unchainAs s (identifier s owner) link = .ok u → u.Declares good :=
    leaf.unchainAs hlink
  induction hlink generalizing u with
  | @call t callee args hargs ih =>
    cases callee with
    | named function =>
      rw [Node.pluginCall] at hu
      obtain ⟨args', hargs', hu⟩ := ok_of_bind hu
      cases hu
      exact .call (declares_of_unchainArgs (fun a ha => (hargs a ha).rewrites) hargs')
    | plugin owner' function => exact hother hu
  | @leaf t v =>
    cases v with
    | identifier function =>
      cases hu
      exact .call (List.forall_mem_nil _)
    | _ => exact hother hu
  | chain hfirst hrest ihfirst ihrest =>
    rw [Node.pluginCall] at hu
    obtain ⟨first, hfirst', hu⟩ := ok_of_bind hu
    exact hrest.rewrites.2 s first u (ihfirst hfirst' (leaf.unchainAs hfirst)) hu
  | _ => exact hother hu

end Declares
end Node
end ClipScript
