/-
Trees as scripts spell them.

The type of trees lets anything stand anywhere: a block or a `return` as an operand, an unnamed
argument behind a named one, a mandatory parameter behind an optional one.  No script is read as
such a tree.  `Node.Formed` says so: what stands where a value is read is an expression, and
arguments and parameters are in order.  Replacing chains by calls keeps it, for whole trees and for
the calls that are made on the fly (`Formed.unchain`, `Formed.unchainAs`, `Formed.pluginCall`).

`Node.subtrees` lists all trees within a tree, for statements about each of them.
-/
import ClipScript.Function
import ClipScript.Proofs.Node.Unplaced

namespace ClipScript

/-! ## Order -/

/-- Named arguments come last. -/
def Labelled.Ordered {α : Type} (args : List (Labelled α)) : Prop :=
  args.Pairwise fun a b => a.label.isSome → b.label.isSome

/-- Optional parameters come last. -/
def Param.Ordered (params : List Param) : Prop :=
  params.Pairwise fun p q => p.optional → q.optional

instance {α : Type} (args : List (Labelled α)) : Decidable (Labelled.Ordered args) :=
  inferInstanceAs (Decidable (List.Pairwise _ _))

instance (params : List Param) : Decidable (Param.Ordered params) :=
  inferInstanceAs (Decidable (List.Pairwise _ _))

/-- An argument may be added behind others unless it is unnamed and one of them is named. -/
theorem Labelled.Ordered.concat {α : Type} {args : List (Labelled α)} (h : Ordered args)
    {a : Labelled α} (ha : ∀ b ∈ args, b.label.isSome → a.label.isSome) :
    Ordered (args ++ [a]) :=
  List.pairwise_append.mpr ⟨h, List.pairwise_singleton _ _, fun b hb c hc => by
    rw [List.mem_singleton.mp hc]
    exact ha b hb⟩

theorem Param.Ordered.concat {params : List Param} (h : Ordered params) {p : Param}
    (hp : ∀ q ∈ params, q.optional → p.optional) : Ordered (params ++ [p]) :=
  List.pairwise_append.mpr ⟨h, List.pairwise_singleton _ _, fun q hq r hr => by
    rw [List.mem_singleton.mp hr]
    exact hp q hq⟩

theorem Labelled.Ordered.cons {α : Type} {args : List (Labelled α)} (h : Ordered args) (a : α) :
    Ordered (⟨none, a⟩ :: args) :=
  List.pairwise_cons.mpr ⟨fun _ _ hnone => (nomatch hnone), h⟩

theorem Labelled.ordered_iff_labels {α : Type} {args : List (Labelled α)} :
    Ordered args ↔ (args.map (·.label)).Pairwise fun l l' => l.isSome → l'.isSome := by
  rw [Ordered, List.pairwise_map]

/-- Behind the first optional parameter all are optional. -/
theorem Param.ordered_iff_dropWhile {params : List Param} :
    Ordered params ↔ ∀ p ∈ params.dropWhile (!·.optional), p.optional := by
  induction params with
  | nil => exact ⟨fun _ => List.forall_mem_nil _, fun _ => .nil⟩
  | cons p rest ih =>
    rw [Ordered] at ih ⊢
    rw [List.pairwise_cons, List.dropWhile_cons]
    cases hp : p.optional with
    | false => simpa using ih
    | true =>
      refine ⟨fun h => List.forall_mem_cons.mpr ⟨hp, fun q hq => h.1 q hq rfl⟩, fun h => ?_⟩
      have hrest : ∀ q ∈ rest, q.optional := (List.forall_mem_cons.mp h).2
      refine ⟨fun q hq _ => hrest q hq, ih.mpr fun q hq => hrest q ?_⟩
      exact (List.dropWhile_suffix _).subset hq

/-- The check that a definition makes is a check of order. -/
theorem UserFunction.checkOrder_eq_ok_iff (f : UserFunction) :
    f.checkOrder = .ok () ↔ Param.Ordered f.params := by
  have hdrop : f.params.drop f.mandatoryCount = f.params.dropWhile (!·.optional) := by
    have hsplit : f.params.takeWhile (!·.optional) ++ f.params.dropWhile (!·.optional) = f.params :=
      List.takeWhile_append_dropWhile
    calc f.params.drop f.mandatoryCount
        = (f.params.takeWhile (!·.optional) ++ f.params.dropWhile (!·.optional)).drop
            (f.params.takeWhile (!·.optional)).length := by rw [hsplit]; rfl
      _ = f.params.dropWhile (!·.optional) := List.drop_left
  rw [Param.ordered_iff_dropWhile, checkOrder, hdrop]
  cases hany : (f.params.dropWhile (!·.optional)).any (!·.optional) with
  | true =>
    obtain ⟨p, hp, hoptional⟩ := List.any_eq_true.mp hany
    refine ⟨nofun, fun h => ?_⟩
    rw [h p hp] at hoptional
    cases hoptional
  | false =>
    refine ⟨fun _ p hp => ?_, fun _ => rfl⟩
    simpa using List.any_eq_false.mp hany p hp

/-! ## Trees within a tree -/

namespace Node

/-- The trees that a tree is made of. -/
def parts : Node → List Node
  | leaf _ _ | importName _ _ => []
  | sequence _ body => body
  | assign _ target _ value => [target, value]
  | binary _ _ lhs rhs => [lhs, rhs]
  | unary _ _ operand => [operand]
  | ternary _ condition yes no => [condition, yes, no]
  | call _ _ args => args.map (·.content)
  | chain _ value link => [value, link]
  | functionDef _ _ _ body => [body]
  | defaultValue _ _ value => [value]
  | returnValue _ value => value.toList
  | ifElse _ condition yes no => condition :: yes :: no.toList

mutual

def subtrees : Node → List Node
  | leaf s v => [leaf s v]
  | importName s name => [importName s name]
  | sequence s body => sequence s body :: subtreesAll body
  | assign s target op value => assign s target op value :: (target.subtrees ++ value.subtrees)
  | binary s op lhs rhs => binary s op lhs rhs :: (lhs.subtrees ++ rhs.subtrees)
  | unary s op operand => unary s op operand :: operand.subtrees
  | ternary s condition yes no =>
    ternary s condition yes no :: (condition.subtrees ++ (yes.subtrees ++ no.subtrees))
  | call s callee args => call s callee args :: subtreesArgs args
  | chain s value link => chain s value link :: (value.subtrees ++ link.subtrees)
  | functionDef s name params body => functionDef s name params body :: body.subtrees
  | defaultValue s name value => defaultValue s name value :: value.subtrees
  | returnValue s none => [returnValue s none]
  | returnValue s (some value) => returnValue s (some value) :: value.subtrees
  | ifElse s condition yes none =>
    ifElse s condition yes none :: (condition.subtrees ++ yes.subtrees)
  | ifElse s condition yes (some no) =>
    ifElse s condition yes (some no) :: (condition.subtrees ++ (yes.subtrees ++ no.subtrees))

def subtreesAll : List Node → List Node
  | [] => []
  | node :: rest => node.subtrees ++ subtreesAll rest

def subtreesArgs : List (Labelled Node) → List Node
  | [] => []
  | ⟨_, value⟩ :: rest => value.subtrees ++ subtreesArgs rest

end

theorem subtreesAll_eq_flatMap (nodes : List Node) :
    subtreesAll nodes = nodes.flatMap subtrees := by
  induction nodes with
  | nil => rfl
  | cons node rest ih => rw [subtreesAll, ih, List.flatMap_cons]

theorem subtreesArgs_eq_flatMap (args : List (Labelled Node)) :
    subtreesArgs args = (args.map (·.content)).flatMap subtrees := by
  induction args with
  | nil => rfl
  | cons arg rest ih => rw [subtreesArgs, ih, List.map_cons, List.flatMap_cons]

theorem subtrees_eq (n : Node) : n.subtrees = n :: n.parts.flatMap subtrees := by
  cases n with
  | sequence s body => rw [subtrees, subtreesAll_eq_flatMap, parts]
  | call s callee args => rw [subtrees, subtreesArgs_eq_flatMap, parts]
  | returnValue s value => cases value <;> simp [subtrees, parts]
  | ifElse s condition yes no => cases no <;> simp [subtrees, parts]
  | _ => simp [subtrees, parts]

def imported? : Node → Option String
  | importName _ name => some name
  | _ => none

theorem self_mem_subtrees (n : Node) : n ∈ n.subtrees := by
  rw [subtrees_eq]
  exact List.mem_cons_self

/-- What holds of all trees within a tree holds of all trees within its parts. -/
theorem forall_subtrees_of_mem_parts {good : Node → Prop} {n part : Node}
    (h : ∀ u ∈ n.subtrees, good u) (hpart : part ∈ n.parts) : ∀ u ∈ part.subtrees, good u := by
  intro u hu
  refine h u ?_
  rw [subtrees_eq]
  exact List.mem_cons_of_mem _ (List.mem_flatMap.mpr ⟨part, hpart, hu⟩)

end Node

/-! ## Trees in good form -/

/-- What a tree is there for: to have its value read, or to be carried out. -/
inductive Role where
  | operand | statement
deriving DecidableEq, Repr

namespace Node

/-- Trees of the forms that scripts have, which import certain names only. -/
inductive Formed (imported : String → Prop) : Role → Node → Prop where
  /-- An expression is a statement. -/
  | alone {n : Node} : Formed imported .operand n → Formed imported .statement n
  | leaf {s : Span} {v : Value} : Formed imported .operand (.leaf s v)
  | assign {s : Span} {target : Node} {op : AssignOp} {value : Node} :
      Formed imported .operand target → Formed imported .operand value →
      Formed imported .operand (.assign s target op value)
  | binary {s : Span} {op : BinaryOp} {lhs rhs : Node} : Formed imported .operand lhs →
      Formed imported .operand rhs → Formed imported .operand (.binary s op lhs rhs)
  | unary {s : Span} {op : UnaryOp} {operand : Node} : Formed imported .operand operand →
      Formed imported .operand (.unary s op operand)
  | ternary {s : Span} {condition yes no : Node} : Formed imported .operand condition →
      Formed imported .operand yes → Formed imported .operand no →
      Formed imported .operand (.ternary s condition yes no)
  | call {s : Span} {callee : Callee} {args : List (Labelled Node)} : Labelled.Ordered args →
      (∀ a ∈ args, Formed imported .operand a.content) →
      Formed imported .operand (.call s callee args)
  | chain {s : Span} {value link : Node} : Formed imported .operand value →
      Formed imported .operand link → Formed imported .operand (.chain s value link)
  | sequence {s : Span} {body : List Node} : (∀ n ∈ body, Formed imported .statement n) →
      Formed imported .statement (.sequence s body)
  | functionDef {s : Span} {name : String} {params : List Param} {body : Node} :
      Param.Ordered params → Formed imported .statement body →
      Formed imported .statement (.functionDef s name params body)
  | defaultValue {s : Span} {name : String} {value : Node} : Formed imported .operand value →
      Formed imported .statement (.defaultValue s name value)
  | returnValue {s : Span} {value : Option Node} :
      (∀ n ∈ value, Formed imported .operand n) → Formed imported .statement (.returnValue s value)
  | ifElse {s : Span} {condition yes : Node} {no : Option Node} :
      Formed imported .operand condition → Formed imported .statement yes →
      (∀ n ∈ no, Formed imported .statement n) →
      Formed imported .statement (.ifElse s condition yes no)
  | importName {s : Span} {name : String} : imported name →
      Formed imported .statement (.importName s name)

variable {imported : String → Prop} {role : Role}

theorem Formed.statement {n : Node} (h : n.Formed imported role) :
    n.Formed imported .statement := by
  cases role with
  | operand => exact .alone h
  | statement => exact h

/-- Names that a tree does not import need not be allowed. -/
theorem Formed.importing {only : String → Prop} {n : Node} (h : n.Formed imported role)
    (hnames : ∀ u ∈ n.subtrees, ∀ name ∈ u.imported?, only name) : n.Formed only role := by
  have part {n part : Node} (hn : ∀ u ∈ n.subtrees, ∀ name ∈ u.imported?, only name)
      (hpart : part ∈ n.parts) : ∀ u ∈ part.subtrees, ∀ name ∈ u.imported?, only name :=
    forall_subtrees_of_mem_parts hn hpart
  induction h with
  | alone _ ih => exact .alone (ih hnames)
  | leaf => exact .leaf
  | assign _ _ ihtarget ihvalue =>
    exact .assign (ihtarget (part hnames (by simp [parts])))
      (ihvalue (part hnames (by simp [parts])))
  | binary _ _ ihlhs ihrhs =>
    exact .binary (ihlhs (part hnames (by simp [parts]))) (ihrhs (part hnames (by simp [parts])))
  | unary _ ih => exact .unary (ih (part hnames (by simp [parts])))
  | ternary _ _ _ ihcondition ihyes ihno =>
    exact .ternary (ihcondition (part hnames (by simp [parts])))
      (ihyes (part hnames (by simp [parts]))) (ihno (part hnames (by simp [parts])))
  | call horder _ ih =>
    exact .call horder fun a ha => ih a ha (part hnames (List.mem_map_of_mem ha))
  | chain _ _ ihvalue ihlink =>
    exact .chain (ihvalue (part hnames (by simp [parts]))) (ihlink (part hnames (by simp [parts])))
  | sequence _ ih => exact .sequence fun n hn => ih n hn (part hnames hn)
  | functionDef horder _ ih => exact .functionDef horder (ih (part hnames (by simp [parts])))
  | defaultValue _ ih => exact .defaultValue (ih (part hnames (by simp [parts])))
  | returnValue _ ih =>
    exact .returnValue fun n hn => ih n hn (part hnames (Option.mem_toList.mpr hn))
  | ifElse _ _ _ ihcondition ihyes ihno =>
    refine .ifElse (ihcondition (part hnames (by simp [parts])))
      (ihyes (part hnames (by simp [parts]))) fun n hn => ihno n hn (part hnames ?_)
    exact List.mem_cons_of_mem _ (List.mem_cons_of_mem _ (Option.mem_toList.mpr hn))
  | importName _ => exact .importName (hnames _ (self_mem_subtrees _) _ rfl)

/-! ## Chains -/

/-- Both replacing the chains of the tree and letting a value flow into it lead to trees in good
form. -/
def Reforms (imported : String → Prop) (role : Role) (n : Node) : Prop :=
  (∀ u, n.unchain = .ok u → u.Formed imported role) ∧
    ∀ s v u, v.Formed imported .operand → pipe s v n = .ok u → u.Formed imported .operand

theorem formed_of_unchainAll {body body' : List Node}
    (hbody : ∀ n ∈ body, n.Reforms imported .statement) (h : unchainAll body = .ok body') :
    ∀ n ∈ body', n.Formed imported .statement := by
  induction body generalizing body' with
  | nil =>
    cases h
    exact List.forall_mem_nil _
  | cons n rest ih =>
    rw [unchainAll] at h
    obtain ⟨u, hu, h⟩ := ok_of_bind h
    obtain ⟨rest', hrest, h⟩ := ok_of_bind h
    cases h
    rw [List.forall_mem_cons] at hbody ⊢
    exact ⟨hbody.1.1 u hu, ih hbody.2 hrest⟩

theorem labels_of_unchainArgs {args args' : List (Labelled Node)}
    (h : unchainArgs args = .ok args') : args'.map (·.label) = args.map (·.label) := by
  induction args generalizing args' with
  | nil =>
    cases h
    rfl
  | cons a rest ih =>
    rw [unchainArgs] at h
    obtain ⟨u, hu, h⟩ := ok_of_bind h
    obtain ⟨rest', hrest, h⟩ := ok_of_bind h
    cases h
    rw [List.map_cons, List.map_cons, ih hrest]

theorem ordered_of_unchainArgs {args args' : List (Labelled Node)} (horder : Labelled.Ordered args)
    (h : unchainArgs args = .ok args') : Labelled.Ordered args' := by
  rw [Labelled.ordered_iff_labels, labels_of_unchainArgs h, ← Labelled.ordered_iff_labels]
  exact horder

theorem formed_of_unchainArgs {args args' : List (Labelled Node)}
    (hargs : ∀ a ∈ args, a.content.Reforms imported .operand) (h : unchainArgs args = .ok args') :
    ∀ a ∈ args', a.content.Formed imported .operand := by
  induction args generalizing args' with
  | nil =>
    cases h
    exact List.forall_mem_nil _
  | cons a rest ih =>
    rw [unchainArgs] at h
    obtain ⟨u, hu, h⟩ := ok_of_bind h
    obtain ⟨rest', hrest, h⟩ := ok_of_bind h
    cases h
    rw [List.forall_mem_cons] at hargs ⊢
    exact ⟨hargs.1.1 u hu, ih hargs.2 hrest⟩

theorem reforms_of_not_callable {n : Node} (h : ∀ u, n.unchain = .ok u → u.Formed imported role)
    (hpipe : ∀ s v, pipe s v n = .error (.notCallable n.kindName)) : n.Reforms imported role := by
  refine ⟨h, fun s v u _ hu => ?_⟩
  rw [hpipe] at hu
  cases hu

theorem reforms_chain {s : Span} {value link : Node} (hvalue : value.Formed imported .operand)
    (hlink : link.Formed imported .operand) (ihvalue : value.Reforms imported .operand)
    (ihlink : link.Reforms imported .operand) : (chain s value link).Reforms imported .operand := by
  refine ⟨fun u h => ?_, fun t v u hv h => ?_⟩
  · cases hname : value.asIdentifier? with
    | some name =>
      rw [unchain_chain_of_isSome (by rw [hname]; rfl)] at h
      cases h
      exact .chain hvalue hlink
    | none =>
      rw [unchain_chain hname] at h
      obtain ⟨value', hvalue', h⟩ := ok_of_bind h
      exact ihlink.2 s value' u (ihvalue.1 value' hvalue') h
  · rw [pipe] at h
    obtain ⟨first, hfirst, h⟩ := ok_of_bind h
    exact ihlink.2 t first u (ihvalue.2 t v first hv hfirst) h

theorem reforms_assign {s : Span} {target : Node} {op : AssignOp} {value : Node}
    (htarget : target.Formed imported .operand) (ihtarget : target.Reforms imported .operand)
    (ihvalue : value.Reforms imported .operand) :
    (assign s target op value).Reforms imported .operand := by
  refine reforms_of_not_callable (fun u h => ?_) fun _ _ => rfl
  by_cases hop : op = .chain
  · subst hop
    rw [unchain_assign_chain] at h
    obtain ⟨call, hcall, rfl⟩ := ok_of_map h
    obtain ⟨target', htarget', hcall⟩ := ok_of_bind hcall
    exact .assign htarget (ihvalue.2 s target' call (ihtarget.1 target' htarget') hcall)
  · rw [unchain_assign hop] at h
    obtain ⟨value', hvalue', rfl⟩ := ok_of_map h
    exact .assign htarget (ihvalue.1 value' hvalue')

theorem Formed.reforms {n : Node} (h : n.Formed imported role) : n.Reforms imported role := by
  induction h with
  | alone _ ih => exact ⟨fun u hu => .alone (ih.1 u hu), ih.2⟩
  | @leaf s v =>
    refine ⟨fun u hu => by cases hu; exact .leaf, fun t v' u hv hu => ?_⟩
    cases v with
    | identifier name =>
      cases hu
      exact .call (List.pairwise_singleton _ _) (List.forall_mem_singleton.mpr hv)
    | _ => cases hu
  | assign htarget _ ihtarget ihvalue => exact reforms_assign htarget ihtarget ihvalue
  | binary _ _ ihlhs ihrhs =>
    refine reforms_of_not_callable (fun u h => ?_) fun _ _ => rfl
    rw [unchain] at h
    obtain ⟨lhs', hlhs, h⟩ := ok_of_bind h
    obtain ⟨rhs', hrhs, h⟩ := ok_of_bind h
    cases h
    exact .binary (ihlhs.1 _ hlhs) (ihrhs.1 _ hrhs)
  | unary _ ih =>
    refine reforms_of_not_callable (fun u h => ?_) fun _ _ => rfl
    rw [unchain] at h
    obtain ⟨operand', hoperand, h⟩ := ok_of_bind h
    cases h
    exact .unary (ih.1 _ hoperand)
  | ternary _ _ _ ihcondition ihyes ihno =>
    refine reforms_of_not_callable (fun u h => ?_) fun _ _ => rfl
    rw [unchain] at h
    obtain ⟨condition', hcondition, h⟩ := ok_of_bind h
    obtain ⟨yes', hyes, h⟩ := ok_of_bind h
    obtain ⟨no', hno, h⟩ := ok_of_bind h
    cases h
    exact .ternary (ihcondition.1 _ hcondition) (ihyes.1 _ hyes) (ihno.1 _ hno)
  | call horder _ ih =>
    refine ⟨fun u h => ?_, fun t v u hv h => ?_⟩
    · rw [unchain] at h
      obtain ⟨args', hargs, h⟩ := ok_of_bind h
      cases h
      exact .call (ordered_of_unchainArgs horder hargs) (formed_of_unchainArgs ih hargs)
    · rw [pipe] at h
      obtain ⟨args', hargs, h⟩ := ok_of_bind h
      cases h
      exact .call ((ordered_of_unchainArgs horder hargs).cons v)
        (List.forall_mem_cons.mpr ⟨hv, formed_of_unchainArgs ih hargs⟩)
  | chain hvalue hlink ihvalue ihlink => exact reforms_chain hvalue hlink ihvalue ihlink
  | sequence _ ih =>
    refine reforms_of_not_callable (fun u h => ?_) fun _ _ => rfl
    rw [unchain] at h
    obtain ⟨body', hbody, h⟩ := ok_of_bind h
    cases h
    exact .sequence (formed_of_unchainAll ih hbody)
  | functionDef horder _ ih =>
    refine reforms_of_not_callable (fun u h => ?_) fun _ _ => rfl
    rw [unchain] at h
    obtain ⟨body', hbody, h⟩ := ok_of_bind h
    cases h
    exact .functionDef horder (ih.1 _ hbody)
  | defaultValue _ ih =>
    refine reforms_of_not_callable (fun u h => ?_) fun _ _ => rfl
    rw [unchain] at h
    obtain ⟨value', hvalue, h⟩ := ok_of_bind h
    cases h
    exact .defaultValue (ih.1 _ hvalue)
  | @returnValue s value hvalue ih =>
    refine reforms_of_not_callable (fun u h => ?_) fun _ _ => rfl
    cases value with
    | none =>
      cases h
      exact .returnValue hvalue
    | some value =>
      rw [unchain] at h
      obtain ⟨value', hvalue', h⟩ := ok_of_bind h
      cases h
      refine .returnValue fun n hn => ?_
      cases hn
      exact (ih value rfl).1 _ hvalue'
  | @ifElse s condition yes no hcondition hyes hno ihcondition ihyes ihno =>
    refine reforms_of_not_callable (fun u h => ?_) fun _ _ => rfl
    cases no with
    | none =>
      rw [unchain] at h
      obtain ⟨condition', hcondition', h⟩ := ok_of_bind h
      obtain ⟨yes', hyes', h⟩ := ok_of_bind h
      cases h
      refine .ifElse (ihcondition.1 _ hcondition') (ihyes.1 _ hyes') fun n hn => ?_
      cases hn
    | some no =>
      rw [unchain] at h
      obtain ⟨condition', hcondition', h⟩ := ok_of_bind h
      obtain ⟨yes', hyes', h⟩ := ok_of_bind h
      obtain ⟨no', hno', h⟩ := ok_of_bind h
      cases h
      refine .ifElse (ihcondition.1 _ hcondition') (ihyes.1 _ hyes') fun n hn => ?_
      cases hn
      exact (ihno no rfl).1 _ hno'
  | importName hname =>
    exact reforms_of_not_callable (fun u h => by cases h; exact .importName hname) fun _ _ => rfl

namespace Formed

theorem unchain {n u : Node} (h : n.Formed imported role) (hu : n.unchain = .ok u) :
    u.Formed imported role :=
  h.reforms.1 u hu

theorem unchainAs {s : Span} {value link u : Node} (hvalue : value.Formed imported .operand)
    (hlink : link.Formed imported .operand) (hu : Node.unchainAs s value link = .ok u) :
    u.Formed imported .operand := by
  obtain ⟨value', hvalue', hu⟩ := ok_of_bind hu
  exact hlink.reforms.2 s value' u (hvalue.unchain hvalue') hu

/-- The first link gets no argument more, so it keeps its order. -/
theorem pluginCall {owner : String} {s : Span} {link u : Node}
    (hlink : link.Formed imported .operand) (hu : Node.pluginCall owner s link = .ok u) :
    u.Formed imported .operand := by
  induction link using Node.induct generalizing u with
  | call t callee args _ =>
    cases hlink with
    | call horder hargs =>
      cases callee with
      | named function =>
        rw [Node.pluginCall] at hu
        obtain ⟨args', hargs', hu⟩ := ok_of_bind hu
        cases hu
        exact .call (ordered_of_unchainArgs horder hargs')
          (formed_of_unchainArgs (fun a ha => (hargs a ha).reforms) hargs')
      | plugin owner' function => exact leaf.unchainAs (.call horder hargs) hu
  | leaf t v =>
    cases v with
    | identifier function =>
      cases hu
      exact .call .nil (List.forall_mem_nil _)
    | _ => exact leaf.unchainAs leaf hu
  | chain t first rest ihfirst ihrest =>
    cases hlink with
    | chain hfirst hrest =>
      rw [Node.pluginCall] at hu
      obtain ⟨call, hcall, hu⟩ := ok_of_bind hu
      exact hrest.reforms.2 s call u (ihfirst hfirst hcall) hu
  | _ => exact leaf.unchainAs hlink hu

end Formed
end Node
end ClipScript
