/-
The grammar of scripts, as a relation between trees and the kinds of tokens that spell them.

A derivation accounts for every token.  It fixes the tokens of a tree up to four choices: an
expression may be put in parentheses wherever one may stand, a number may be written in any way that
is read as that number, a colon or an equals sign may follow the name of an argument, and a lone
semicolon may stand among statements.  The places of nodes are left open.

Statements are derived behind the tokens that stand before them in the script, because these say
which plugins are imported.
-/
import ClipScript.Proofs.Node.Declared
import ClipScript.Proofs.Surface

namespace ClipScript
namespace Grammar

open ClipScript.Parser (paren)
open Surface (Mark ParamKind calleeKinds)

def Imports (kinds : List TokenKind) (name : String) : Prop :=
  [.keyword .importKw, .identifier name, .symbol .semicolon] <:+: kinds

theorem Imports.append {kinds : List TokenKind} {name : String} (h : Imports kinds name)
    (more : List TokenKind) : Imports (kinds ++ more) name :=
  h.trans (List.infix_append' [] kinds more)

inductive Separated {α : Type} (item : α → List TokenKind → Prop) :
    List α → List TokenKind → Prop where
  | nil : Separated item [] []
  | single {a : α} {kinds : List TokenKind} (head : item a kinds) : Separated item [a] kinds
  | cons {a b : α} {rest : List α} {kinds more : List TokenKind} (head : item a kinds)
      (tail : Separated item (b :: rest) more) :
      Separated item (a :: b :: rest) (kinds ++ .symbol .comma :: more)

inductive Argument (phrase : Node → List TokenKind → Prop) :
    Labelled Node → List TokenKind → Prop where
  | positional {n : Node} {kinds : List TokenKind} (value : phrase n kinds) :
      Argument phrase ⟨none, n⟩ kinds
  | named {label : String} {n : Node} {kinds : List TokenKind} (mark : Mark)
      (value : phrase n kinds) :
      Argument phrase ⟨some label, n⟩ (.identifier label :: .symbol mark.symbol :: kinds)

/-- A function may be called anywhere, a function of a plugin only where the plugin is known. -/
def Admits (known : String → Prop) : Callee → Prop
  | .named _ => True
  | .plugin owner _ => known owner

/-- Expressions of a level, where some plugins are known. -/
inductive Phrase (known : String → Prop) : Level → Node → List TokenKind → Prop where
  | tighten {level : Level} {n : Node} {kinds : List TokenKind}
      (tight : Phrase known level.tighter n kinds) : Phrase known level n kinds
  | number {s : Span} {x : Float} {digits : String} (read : Decimal.read? digits = some x) :
      Phrase known .primary (.leaf s (.number x)) [.number digits]
  | string {s : Span} {text : String} :
      Phrase known .primary (.leaf s (.string text)) [.string text]
  | boolean {s : Span} {b : Bool} :
      Phrase known .primary (.leaf s (.boolean b)) [.keyword (if b then .trueKw else .falseKw)]
  | name {s : Span} {x : String} : Phrase known .primary (.identifier s x) [.identifier x]
  | parens {n : Node} {kinds : List TokenKind} (inner : Phrase known .assignment n kinds) :
      Phrase known .primary n (paren kinds)
  | call {s : Span} {callee : Callee} {args : List (Labelled Node)} {kinds : List TokenKind}
      (admitted : Admits known callee)
      (separated : Separated (Argument (Phrase known .assignment)) args kinds) :
      Phrase known .primary (.call s callee args) (calleeKinds callee ++ paren kinds)
  | unary {s : Span} {op : UnaryOp} {operand : Node} {kinds : List TokenKind}
      (inner : Phrase known .unary operand kinds) :
      Phrase known .unary (.unary s op operand) (.symbol op.symbol :: kinds)
  | chain {s : Span} {value link : Node} {kinds more : List TokenKind}
      (left : Phrase known .unary value kinds) (right : Phrase known .chain link more) :
      Phrase known .chain (.chain s value link) (kinds ++ .symbol .dot :: more)
  | binary {s : Span} {op : BinaryOp} {lhs rhs : Node} {kinds more : List TokenKind}
      (left : Phrase known op.leftLevel lhs kinds) (right : Phrase known op.rightLevel rhs more) :
      Phrase known op.level (.binary s op lhs rhs) (kinds ++ .symbol op.symbol :: more)
  | ternary {s : Span} {condition yes no : Node} {kinds first second : List TokenKind}
      (test : Phrase known .disjunction condition kinds)
      (left : Phrase known .disjunction yes first) (right : Phrase known .ternary no second) :
      Phrase known .ternary (.ternary s condition yes no)
        (kinds ++ .symbol .question :: (first ++ .symbol .pipe :: second))
  | assign {s : Span} {target : Node} {op : AssignOp} {value : Node} {kinds more : List TokenKind}
      (left : Phrase known .ternary target kinds) (right : Phrase known .assignment value more) :
      Phrase known .assignment (.assign s target op value) (kinds ++ .symbol op.symbol :: more)

inductive Declaration : Param → List TokenKind → Prop where
  | mandatory {s : Span} {name : String} (kind : ParamKind) :
      Declaration ⟨name, kind.toValueKind, false, s⟩ [.keyword kind.keyword, .identifier name]
  | optional {s : Span} {name : String} (kind : ParamKind) :
      Declaration ⟨name, kind.toValueKind, true, s⟩
        [.keyword .optKw, .keyword kind.keyword, .identifier name]

def braced (kinds : List TokenKind) : List TokenKind :=
  .symbol .leftBrace :: kinds ++ [.symbol .rightBrace]

mutual

/-- A statement behind the tokens `before`.  The lone semicolon leaves no node. -/
inductive Sentence : List TokenKind → Option Node → List TokenKind → Prop where
  | empty {before : List TokenKind} : Sentence before none [.symbol .semicolon]
  | expression {before : List TokenKind} {n : Node} {kinds : List TokenKind}
      (value : Phrase (Imports before) .assignment n kinds) :
      Sentence before (some n) (kinds ++ [.symbol .semicolon])
  | block {before : List TokenKind} {s : Span} {body : List Node} {kinds : List TokenKind}
      (inner : Text (before ++ [.symbol .leftBrace]) body kinds) :
      Sentence before (some (.sequence s body)) (braced kinds)
  | ifThen {before : List TokenKind} {s place : Span} {condition : Node} {yes : Option Node}
      {kinds first : List TokenKind} (test : Phrase (Imports before) .assignment condition kinds)
      (left : Sentence (before ++ .keyword .ifKw :: paren kinds) yes first) :
      Sentence before (some (.ifElse s condition (yes.getD (.sequence place [])) none))
        (.keyword .ifKw :: paren kinds ++ first)
  | ifElse {before : List TokenKind} {s place place' : Span} {condition : Node}
      {yes no : Option Node} {kinds first second : List TokenKind}
      (test : Phrase (Imports before) .assignment condition kinds)
      (left : Sentence (before ++ .keyword .ifKw :: paren kinds) yes first)
      (right : Sentence (before ++ .keyword .ifKw :: paren kinds ++ first ++ [.keyword .elseKw])
        no second) :
      Sentence before
        (some (.ifElse s condition (yes.getD (.sequence place []))
          (some (no.getD (.sequence place' [])))))
        (.keyword .ifKw :: paren kinds ++ first ++ .keyword .elseKw :: second)
  | functionDef {before : List TokenKind} {s place : Span} {name : String} {params : List Param}
      {body : List Node} {kinds inside : List TokenKind}
      (declared : Separated Declaration params kinds)
      (inner : Text (before ++ .keyword .functionKw :: .identifier name :: paren kinds
        ++ [.symbol .leftBrace]) body inside) :
      Sentence before (some (.functionDef s name params (.sequence place body)))
        (.keyword .functionKw :: .identifier name :: paren kinds ++ braced inside)
  | defaultValue {before : List TokenKind} {s : Span} {name : String} {n : Node}
      {kinds : List TokenKind} (value : Phrase (Imports before) .assignment n kinds) :
      Sentence before (some (.defaultValue s name n))
        (.keyword .defaultKw :: paren (.identifier name :: .symbol .comma :: kinds)
          ++ [.symbol .semicolon])
  | returnNothing {before : List TokenKind} {s : Span} :
      Sentence before (some (.returnValue s none)) [.keyword .returnKw, .symbol .semicolon]
  | returnValue {before : List TokenKind} {s : Span} {n : Node} {kinds : List TokenKind}
      (value : Phrase (Imports before) .assignment n kinds) :
      Sentence before (some (.returnValue s (some n)))
        (.keyword .returnKw :: kinds ++ [.symbol .semicolon])
  | importName {before : List TokenKind} {s : Span} {name : String} :
      Sentence before (some (.importName s name))
        [.keyword .importKw, .identifier name, .symbol .semicolon]

/-- Statements one after the other, behind the tokens `before`. -/
inductive Text : List TokenKind → List Node → List TokenKind → Prop where
  | nil {before : List TokenKind} : Text before [] []
  | cons {before : List TokenKind} {n : Option Node} {rest : List Node}
      {kinds more : List TokenKind} (head : Sentence before n kinds)
      (tail : Text (before ++ kinds) rest more) :
      Text before (n.toList ++ rest) (kinds ++ more)

end

theorem Sentence.kinds_ne_nil {before kinds : List TokenKind} {n : Option Node}
    (h : Sentence before n kinds) : kinds ≠ [] := by
  cases h <;> simp [braced]

/-! ## What scripts declare

A parameter is written with one of four kinds, and only functions have parameters. -/

theorem Separated.forall_mem {α : Type} {item : α → List TokenKind → Prop} {items : List α}
    {kinds : List TokenKind} (h : Separated item items kinds) : ∀ a ∈ items, ∃ own, item a own := by
  induction h with
  | nil => nofun
  | single head => exact List.forall_mem_singleton.mpr ⟨_, head⟩
  | cons head tail ih => exact List.forall_mem_cons.mpr ⟨⟨_, head⟩, ih⟩

theorem Declaration.isStorable {p : Param} {kinds : List TokenKind} (h : Declaration p kinds) :
    p.kind.isStorable := by
  cases h with
  | mandatory kind => cases kind <;> rfl
  | optional kind => cases kind <;> rfl

section Phrases

variable {good : Param → Prop} {known : String → Prop}

mutual

theorem Phrase.declares {level : Level} {n : Node} {kinds : List TokenKind} :
    Phrase known level n kinds → n.Declares good
  | .tighten tight => tight.declares
  | .number _ => .leaf
  | .string => .leaf
  | .boolean => .leaf
  | .name => .leaf
  | .parens inner => inner.declares
  | .call _ separated => .call (declares_of_separated separated)
  | .unary inner => .unary inner.declares
  | .chain left right => .chain left.declares right.declares
  | .binary left right => .binary left.declares right.declares
  | .ternary test left right => .ternary test.declares left.declares right.declares
  | .assign left right => .assign left.declares right.declares

theorem declares_of_separated {args : List (Labelled Node)} {kinds : List TokenKind} :
    Separated (Argument (Phrase known .assignment)) args kinds →
      ∀ a ∈ args, a.content.Declares good
  | .nil => nofun
  | .single head => List.forall_mem_singleton.mpr (declares_of_argument head)
  | .cons head tail =>
    List.forall_mem_cons.mpr ⟨declares_of_argument head, declares_of_separated tail⟩

theorem declares_of_argument {a : Labelled Node} {kinds : List TokenKind} :
    Argument (Phrase known .assignment) a kinds → a.content.Declares good
  | .positional value => value.declares
  | .named _ value => value.declares

end

end Phrases

theorem declares_getD {n : Option Node} {place : Span} {good : Param → Prop}
    (h : ∀ u ∈ n.toList, u.Declares good) : (n.getD (.sequence place [])).Declares good := by
  cases n with
  | none => exact .sequence nofun
  | some u => exact h u List.mem_cons_self

mutual

theorem Sentence.declares {before kinds : List TokenKind} {n : Option Node} :
    Sentence before n kinds → ∀ u ∈ n.toList, u.Declares (·.kind.isStorable)
  | .empty => nofun
  | .expression value => List.forall_mem_singleton.mpr value.declares
  | .block inner => List.forall_mem_singleton.mpr (.sequence inner.declares)
  | .ifThen test left =>
    List.forall_mem_singleton.mpr (.ifElse test.declares (declares_getD left.declares) nofun)
  | .ifElse test left right =>
    List.forall_mem_singleton.mpr (.ifElse test.declares (declares_getD left.declares) fun _ h =>
      Option.mem_some.mp h ▸ declares_getD right.declares)
  | .functionDef declared inner =>
    List.forall_mem_singleton.mpr (.functionDef
      (fun p hp => (declared.forall_mem p hp).elim fun _ h => h.isStorable)
      (.sequence inner.declares))
  | .defaultValue value => List.forall_mem_singleton.mpr (.defaultValue value.declares)
  | .returnNothing => List.forall_mem_singleton.mpr (.returnValue nofun)
  | .returnValue value =>
    List.forall_mem_singleton.mpr (.returnValue fun _ h => Option.mem_some.mp h ▸ value.declares)
  | .importName => List.forall_mem_singleton.mpr .importName

theorem Text.declares {before kinds : List TokenKind} {body : List Node} :
    Text before body kinds → ∀ u ∈ body, u.Declares (·.kind.isStorable)
  | .nil => nofun
  | .cons head tail => by
    intro u hu
    rcases List.mem_append.mp hu with hfirst | hrest
    · exact head.declares u hfirst
    · exact tail.declares u hrest

end

end Grammar
end ClipScript
