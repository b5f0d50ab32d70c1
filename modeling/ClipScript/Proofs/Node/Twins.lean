/-
The same tree at other places.

`Node.spans` lists every span of a tree, its own first.  Two trees are twins under a relation
between spans if they are the same tree without their places and their spans are related one by one.
What parsers do with spans is to merge them, so all that is asked of the relation is that it goes
with merging (`Merging`).  There is one rule for each form of node.
-/
import ClipScript.Proofs.Node.Unplaced
import Mathlib.Data.List.Forall2

namespace ClipScript

/-- Related spans merge to related spans. -/
def Merging (rel : Span → Span → Prop) : Prop :=
  ∀ ⦃a a' b b' : Span⦄, rel a a' → rel b b' → rel (a.merge b) (a'.merge b')

/-- The same parameter, at related places. -/
structure Param.Twin (rel : Span → Span → Prop) (p p' : Param) : Prop where
  shape : p.unplaced = p'.unplaced
  place : rel p.span p'.span

theorem Param.Twin.optional {rel : Span → Span → Prop} {p p' : Param} (h : p.Twin rel p') :
    p.optional = p'.optional :=
  show p.unplaced.optional = p'.unplaced.optional by rw [h.shape]

namespace Node

mutual

/-- Every span of a tree, its own first. -/
def spans : Node → List Span
  | leaf s _ => [s]
  | sequence s body => s :: spansAll body
  | assign s target _ value => s :: (target.spans ++ value.spans)
  | binary s _ lhs rhs => s :: (lhs.spans ++ rhs.spans)
  | unary s _ operand => s :: operand.spans
  | ternary s condition yes no => s :: (condition.spans ++ yes.spans ++ no.spans)
  | call s _ args => s :: spansArgs args
  | chain s value link => s :: (value.spans ++ link.spans)
  | functionDef s _ params body => s :: (params.map Param.span ++ body.spans)
  | defaultValue s _ value => s :: value.spans
  | returnValue s none => [s]
  | returnValue s (some value) => s :: value.spans
  | ifElse s condition yes none => s :: (condition.spans ++ yes.spans)
  | ifElse s condition yes (some no) => s :: (condition.spans ++ yes.spans ++ no.spans)
  | importName s _ => [s]

def spansAll : List Node → List Span
  | [] => []
  | node :: rest => node.spans ++ spansAll rest

def spansArgs : List (Labelled Node) → List Span
  | [] => []
  | ⟨_, value⟩ :: rest => value.spans ++ spansArgs rest

end

theorem exists_spans_eq_cons (n : Node) : ∃ more, n.spans = n.span :: more := by
  cases n with
  | returnValue s value => cases value <;> exact ⟨_, rfl⟩
  | ifElse s condition yes no => cases no <;> exact ⟨_, rfl⟩
  | _ => exact ⟨_, rfl⟩

structure Twin (rel : Span → Span → Prop) (n n' : Node) : Prop where
  shape : n.unplaced = n'.unplaced
  places : List.Forall₂ rel n.spans n'.spans

structure ArgTwin (rel : Span → Span → Prop) (a a' : Labelled Node) : Prop where
  label : a.label = a'.label
  content : Twin rel a.content a'.content

variable {rel : Span → Span → Prop} {s s' : Span}

theorem Twin.span {n n' : Node} (h : Twin rel n n') : rel n.span n'.span := by
  obtain ⟨more, hmore⟩ := exists_spans_eq_cons n
  obtain ⟨more', hmore'⟩ := exists_spans_eq_cons n'
  have hplaces := h.places
  rw [hmore, hmore'] at hplaces
  exact (List.forall₂_cons.mp hplaces).1

theorem twin_all {body body' : List Node} (h : List.Forall₂ (Twin rel) body body') :
    unplacedAll body = unplacedAll body' ∧ List.Forall₂ rel (spansAll body) (spansAll body') := by
  induction h with
  | nil => exact ⟨rfl, .nil⟩
  | cons hnode _ ih =>
    refine ⟨?_, List.rel_append hnode.places ih.2⟩
    rw [unplacedAll, unplacedAll, hnode.shape, ih.1]

theorem twin_args {args args' : List (Labelled Node)} (h : List.Forall₂ (ArgTwin rel) args args') :
    unplacedArgs args = unplacedArgs args' ∧
      List.Forall₂ rel (spansArgs args) (spansArgs args') := by
  induction h with
  | nil => exact ⟨rfl, .nil⟩
  | @cons a a' _ _ harg _ ih =>
    refine ⟨?_, List.rel_append harg.content.places ih.2⟩
    rw [unplacedArgs, unplacedArgs, harg.label, harg.content.shape, ih.1]

theorem twin_params {params params' : List Param}
    (h : List.Forall₂ (Param.Twin rel) params params') :
    params.map Param.unplaced = params'.map Param.unplaced ∧
      List.Forall₂ rel (params.map Param.span) (params'.map Param.span) := by
  induction h with
  | nil => exact ⟨rfl, .nil⟩
  | cons hparam _ ih =>
    refine ⟨?_, .cons hparam.place ih.2⟩
    rw [List.map_cons, List.map_cons, hparam.shape, ih.1]

namespace Twin

theorem leaf (hs : rel s s') (v : Value) : Twin rel (.leaf s v) (.leaf s' v) :=
  ⟨rfl, .cons hs .nil⟩

theorem sequence {body body' : List Node} (hs : rel s s')
    (hbody : List.Forall₂ (Twin rel) body body') :
    Twin rel (.sequence s body) (.sequence s' body') := by
  obtain ⟨hshape, hplaces⟩ := twin_all hbody
  exact ⟨by rw [unplaced, unplaced, hshape], .cons hs hplaces⟩

theorem assign {target target' value value' : Node} (hs : rel s s')
    (htarget : Twin rel target target') (op : AssignOp) (hvalue : Twin rel value value') :
    Twin rel (.assign s target op value) (.assign s' target' op value') :=
  ⟨by rw [unplaced, unplaced, htarget.shape, hvalue.shape],
    .cons hs (List.rel_append htarget.places hvalue.places)⟩

theorem binary {lhs lhs' rhs rhs' : Node} (hs : rel s s') (op : BinaryOp) (hlhs : Twin rel lhs lhs')
    (hrhs : Twin rel rhs rhs') : Twin rel (.binary s op lhs rhs) (.binary s' op lhs' rhs') :=
  ⟨by rw [unplaced, unplaced, hlhs.shape, hrhs.shape],
    .cons hs (List.rel_append hlhs.places hrhs.places)⟩

theorem unary {operand operand' : Node} (hs : rel s s') (op : UnaryOp)
    (hoperand : Twin rel operand operand') :
    Twin rel (.unary s op operand) (.unary s' op operand') :=
  ⟨by rw [unplaced, unplaced, hoperand.shape], .cons hs hoperand.places⟩

theorem ternary {condition condition' yes yes' no no' : Node} (hs : rel s s')
    (hcondition : Twin rel condition condition') (hyes : Twin rel yes yes')
    (hno : Twin rel no no') :
    Twin rel (.ternary s condition yes no) (.ternary s' condition' yes' no') :=
  ⟨by rw [unplaced, unplaced, hcondition.shape, hyes.shape, hno.shape],
    .cons hs (List.rel_append (List.rel_append hcondition.places hyes.places) hno.places)⟩

theorem call {args args' : List (Labelled Node)} (hs : rel s s') (callee : Callee)
    (hargs : List.Forall₂ (ArgTwin rel) args args') :
    Twin rel (.call s callee args) (.call s' callee args') := by
  obtain ⟨hshape, hplaces⟩ := twin_args hargs
  exact ⟨by rw [unplaced, unplaced, hshape], .cons hs hplaces⟩

theorem chain {value value' link link' : Node} (hs : rel s s') (hvalue : Twin rel value value')
    (hlink : Twin rel link link') : Twin rel (.chain s value link) (.chain s' value' link') :=
  ⟨by rw [unplaced, unplaced, hvalue.shape, hlink.shape],
    .cons hs (List.rel_append hvalue.places hlink.places)⟩

theorem functionDef {params params' : List Param} {body body' : Node} (hs : rel s s')
    (name : String) (hparams : List.Forall₂ (Param.Twin rel) params params')
    (hbody : Twin rel body body') :
    Twin rel (.functionDef s name params body) (.functionDef s' name params' body') := by
  obtain ⟨hshape, hplaces⟩ := twin_params hparams
  exact ⟨by rw [unplaced, unplaced, hshape, hbody.shape],
    .cons hs (List.rel_append hplaces hbody.places)⟩

theorem defaultValue {value value' : Node} (hs : rel s s') (name : String)
    (hvalue : Twin rel value value') :
    Twin rel (.defaultValue s name value) (.defaultValue s' name value') :=
  ⟨by rw [unplaced, unplaced, hvalue.shape], .cons hs hvalue.places⟩

theorem returnValue {value value' : Option Node} (hs : rel s s')
    (hvalue : Option.Rel (Twin rel) value value') :
    Twin rel (.returnValue s value) (.returnValue s' value') := by
  cases hvalue with
  | none => exact ⟨rfl, .cons hs .nil⟩
  | some hvalue => exact ⟨by rw [unplaced, unplaced, hvalue.shape], .cons hs hvalue.places⟩

theorem ifElse {condition condition' yes yes' : Node} {no no' : Option Node} (hs : rel s s')
    (hcondition : Twin rel condition condition') (hyes : Twin rel yes yes')
    (hno : Option.Rel (Twin rel) no no') :
    Twin rel (.ifElse s condition yes no) (.ifElse s' condition' yes' no') := by
  cases hno with
  | none =>
    exact ⟨by rw [unplaced, unplaced, hcondition.shape, hyes.shape],
      .cons hs (List.rel_append hcondition.places hyes.places)⟩
  | some hno =>
    exact ⟨by rw [unplaced, unplaced, hcondition.shape, hyes.shape, hno.shape],
      .cons hs (List.rel_append (List.rel_append hcondition.places hyes.places) hno.places)⟩

theorem importName (hs : rel s s') (name : String) :
    Twin rel (.importName s name) (.importName s' name) :=
  ⟨rfl, .cons hs .nil⟩

end Twin
end Node

def Program.spans (p : Program) : List Span := p.span :: Node.spansAll p.statements

def Program.unplaced (p : Program) : Program := ⟨Node.unplacedAll p.statements, .nowhere⟩

structure Program.Twin (rel : Span → Span → Prop) (p p' : Program) : Prop where
  shape : p.unplaced = p'.unplaced
  places : List.Forall₂ rel p.spans p'.spans

end ClipScript
