/-
Programs as they are written.

A tree that the parser gives back has a place for every node.  The types below are trees without
places that can be written down at all: names stand where the grammar wants names, arguments and
parameters come in the order it asks for, and a numeral is a text that can be read.  `toNode` is the
tree that such a program stands for.

`kinds` writes a program down as kinds of tokens.  It puts parentheses where the level of an operand
is too loose for its position, and in two places where a name would be taken for something else: a
name that is known as a plugin, and a positional argument that looks like a named one.  What
statements may refer to depends on the imports that stand before them in the text, so the names
imported so far are handed on from one statement to the next.
-/
import ClipScript.Proofs.Parser.Reading

namespace ClipScript

/-! ## Levels -/

namespace Level

def rank : Level → Nat
  | assignment => 0
  | ternary => 1
  | disjunction => 2
  | conjunction => 3
  | equality => 4
  | comparison => 5
  | sum => 6
  | product => 7
  | power => 8
  | concat => 9
  | chain => 10
  | unary => 11
  | primary => 12

def tighter : Level → Level
  | assignment => ternary
  | ternary => disjunction
  | disjunction => conjunction
  | conjunction => equality
  | equality => comparison
  | comparison => sum
  | sum => product
  | product => power
  | power => concat
  | concat => chain
  | chain => unary
  | unary => primary
  | primary => primary

end Level

/-- The level of the left operand.  Only powers group to the right. -/
def BinaryOp.leftLevel (op : BinaryOp) : Level :=
  if op.level = .power then .concat else op.level

def BinaryOp.rightLevel (op : BinaryOp) : Level :=
  if op.level = .power then .power else op.level.tighter

theorem BinaryOp.leftLevel_pos (op : BinaryOp) : 0 < op.leftLevel.rank := by
  rcases op with op | _ | op <;> first | decide | (cases op <;> decide)

namespace Surface

open ClipScript.Parser (paren commas)

/-! ## Expressions -/

/-- The text of a number. -/
structure Numeral where
  digits : String
  readable : (Decimal.read? digits).isSome

def Numeral.value (n : Numeral) : Float := (Decimal.read? n.digits).get n.readable

inductive Expr where
  | number (n : Numeral)
  | string (s : String)
  | boolean (b : Bool)
  | name (name : String)
  | assign (target : Expr) (op : AssignOp) (value : Expr)
  | binary (op : BinaryOp) (lhs rhs : Expr)
  | unary (op : UnaryOp) (operand : Expr)
  | ternary (condition yes no : Expr)
  | call (callee : Callee) (positional : List Expr) (named : List (String × Expr))
  | chain (value link : Expr)

/-- What stands between the name and the value of a named argument. -/
inductive Mark where
  | colon | equals
deriving DecidableEq

def Mark.symbol : Mark → Symbol
  | colon => .colon
  | equals => .equals

/-- An operand of level `own` where one of level `level` is wanted. -/
def operand (level own : Level) (kinds : List TokenKind) : List TokenKind :=
  if own.rank < level.rank then paren kinds else kinds

/-- The name of a callee as it is written. -/
def calleeKinds : Callee → List TokenKind
  | .named name => [.identifier name]
  | .plugin owner function => [.identifier owner, .symbol .dot, .identifier function]

namespace Expr

def level : Expr → Level
  | assign .. => .assignment
  | ternary .. => .ternary
  | binary op _ _ => op.level
  | chain .. => .chain
  | unary .. => .unary
  | _ => .primary

/-- An assignment `x = value`, which as an argument would be taken for a named one. -/
def isNamedLike : Expr → Bool
  | assign (name _) .assign _ => true
  | _ => false

mutual

def toNode : Expr → Node
  | number n => .leaf .nowhere (.number n.value)
  | string s => .leaf .nowhere (.string s)
  | boolean b => .leaf .nowhere (.boolean b)
  | name x => .leaf .nowhere (.identifier x)
  | assign target op value => .assign .nowhere target.toNode op value.toNode
  | binary op lhs rhs => .binary .nowhere op lhs.toNode rhs.toNode
  | unary op operand => .unary .nowhere op operand.toNode
  | ternary condition yes no => .ternary .nowhere condition.toNode yes.toNode no.toNode
  | call callee positional named =>
    .call .nowhere callee (positionalNodes positional ++ namedNodes named)
  | chain value link => .chain .nowhere value.toNode link.toNode

def positionalNodes : List Expr → List (Labelled Node)
  | [] => []
  | e :: rest => ⟨none, e.toNode⟩ :: positionalNodes rest

def namedNodes : List (String × Expr) → List (Labelled Node)
  | [] => []
  | (label, e) :: rest => ⟨some label, e.toNode⟩ :: namedNodes rest

end

section Kinds

variable (mark : Mark) (imported : List String)

mutual

/-- An expression as it is written, without parentheses around it. -/
def kinds : Expr → List TokenKind
  | number n => [.number n.digits]
  | string s => [.string s]
  | boolean b => [.keyword (if b then .trueKw else .falseKw)]
  | name x => if imported.contains x then paren [.identifier x] else [.identifier x]
  | assign target op value =>
    operand .ternary target.level target.kinds ++ .symbol op.symbol :: value.kinds
  | binary op lhs rhs =>
    operand op.leftLevel lhs.level lhs.kinds ++ .symbol op.symbol ::
      operand op.rightLevel rhs.level rhs.kinds
  | unary op e => .symbol op.symbol :: operand .unary e.level e.kinds
  | ternary condition yes no =>
    operand .disjunction condition.level condition.kinds ++ .symbol .question ::
      (operand .disjunction yes.level yes.kinds ++ .symbol .pipe ::
        operand .ternary no.level no.kinds)
  | call callee positional named =>
    calleeKinds callee ++ paren (commas (positionalKinds positional ++ namedKinds named))
  | chain value link =>
    operand .unary value.level value.kinds ++ .symbol .dot :: operand .chain link.level link.kinds

def positionalKinds : List Expr → List (List TokenKind)
  | [] => []
  | e :: rest => (if e.isNamedLike then paren e.kinds else e.kinds) :: positionalKinds rest

def namedKinds : List (String × Expr) → List (List TokenKind)
  | [] => []
  | (label, e) :: rest => (.identifier label :: .symbol mark.symbol :: e.kinds) :: namedKinds rest

end

end Kinds

mutual

/-- Every plugin that is called has been imported. -/
def admitted (imported : List String) : Expr → Bool
  | number _ | string _ | boolean _ | name _ => true
  | assign target _ value => target.admitted imported && value.admitted imported
  | binary _ lhs rhs => lhs.admitted imported && rhs.admitted imported
  | unary _ e => e.admitted imported
  | ternary condition yes no =>
    condition.admitted imported && yes.admitted imported && no.admitted imported
  | call callee positional named =>
    (match callee with
      | .named _ => true
      | .plugin owner _ => imported.contains owner)
    && positionalAdmitted imported positional && namedAdmitted imported named
  | chain value link => value.admitted imported && link.admitted imported

def positionalAdmitted (imported : List String) : List Expr → Bool
  | [] => true
  | e :: rest => e.admitted imported && positionalAdmitted imported rest

def namedAdmitted (imported : List String) : List (String × Expr) → Bool
  | [] => true
  | (_, e) :: rest => e.admitted imported && namedAdmitted imported rest

end

theorem positionalAdmitted_eq (imported : List String) (es : List Expr) :
    positionalAdmitted imported es = es.all (admitted imported) := by
  induction es with
  | nil => rfl
  | cons e rest ih => rw [positionalAdmitted, ih, List.all_cons]

theorem namedAdmitted_eq (imported : List String) (xs : List (String × Expr)) :
    namedAdmitted imported xs = xs.all fun x => x.2.admitted imported := by
  induction xs with
  | nil => rfl
  | cons x rest ih => rw [namedAdmitted, ih, List.all_cons]

/-- Induction on an expression, with the statement at hand for every argument of a call. -/
@[elab_as_elim]
theorem induct {motive : Expr → Prop} (number : ∀ n, motive (.number n))
    (string : ∀ s, motive (.string s)) (boolean : ∀ b, motive (.boolean b))
    (name : ∀ x, motive (.name x))
    (assign : ∀ target op value, motive target → motive value → motive (.assign target op value))
    (binary : ∀ op lhs rhs, motive lhs → motive rhs → motive (.binary op lhs rhs))
    (unary : ∀ op operand, motive operand → motive (.unary op operand))
    (ternary : ∀ condition yes no, motive condition → motive yes → motive no →
      motive (.ternary condition yes no))
    (call : ∀ callee positional named, (∀ e ∈ positional, motive e) →
      (∀ x ∈ named, motive x.2) → motive (.call callee positional named))
    (chain : ∀ value link, motive value → motive link → motive (.chain value link)) (e : Expr) :
    motive e := by
  refine @Expr.rec motive (fun es => ∀ e ∈ es, motive e) (fun xs => ∀ x ∈ xs, motive x.2)
    (fun x => motive x.2) number string boolean name assign binary unary ternary call chain
    ?_ ?_ ?_ ?_ ?_ e
  · intro e he
    cases he
  · intro head tail hhead htail e he
    rcases List.mem_cons.mp he with rfl | he
    · exact hhead
    · exact htail e he
  · intro x hx
    cases hx
  · intro head tail hhead htail x hx
    rcases List.mem_cons.mp hx with rfl | hx
    · exact hhead
    · exact htail x hx
  · intro label e he
    exact he

/-! ## Arguments -/

section Arguments

variable (mark : Mark) (imported : List String)

/-- A positional argument as it is written. -/
def argumentKinds (e : Expr) : List TokenKind :=
  if e.isNamedLike then paren (e.kinds mark imported) else e.kinds mark imported

/-- The arguments of a call one after the other, each as it is written and as the tree has it. -/
def argumentItems (positional : List Expr) (named : List (String × Expr)) :
    List (List TokenKind × Labelled Node) :=
  positional.map (fun e => (e.argumentKinds mark imported, ⟨none, e.toNode⟩))
  ++ named.map fun x =>
    (.identifier x.1 :: .symbol mark.symbol :: x.2.kinds mark imported, ⟨some x.1, x.2.toNode⟩)

theorem argumentItems_fst (positional : List Expr) (named : List (String × Expr)) :
    (argumentItems mark imported positional named).map Prod.fst
      = positionalKinds mark imported positional ++ namedKinds mark imported named := by
  have hpositional : positionalKinds mark imported positional
      = positional.map (argumentKinds mark imported) := by
    induction positional with
    | nil => rfl
    | cons e rest ih => rw [positionalKinds, ih, List.map_cons, argumentKinds]
  have hnamed : namedKinds mark imported named
      = named.map fun x => .identifier x.1 :: .symbol mark.symbol :: x.2.kinds mark imported := by
    induction named with
    | nil => rfl
    | cons x rest ih => rw [namedKinds, ih, List.map_cons]
  rw [argumentItems, List.map_append, List.map_map, List.map_map, hpositional, hnamed]
  rfl

theorem argumentItems_snd (positional : List Expr) (named : List (String × Expr)) :
    (argumentItems mark imported positional named).map Prod.snd
      = positionalNodes positional ++ namedNodes named := by
  have hpositional : positionalNodes positional = positional.map fun e => ⟨none, e.toNode⟩ := by
    induction positional with
    | nil => rfl
    | cons e rest ih => rw [positionalNodes, ih, List.map_cons]
  have hnamed : namedNodes named = named.map fun x => ⟨some x.1, x.2.toNode⟩ := by
    induction named with
    | nil => rfl
    | cons x rest ih => rw [namedNodes, ih, List.map_cons]
  rw [argumentItems, List.map_append, List.map_map, List.map_map, hpositional, hnamed]
  rfl

end Arguments

/-! ## First tokens -/

def isBeginning : TokenKind → Bool
  | .identifier _ | .number _ | .string _ | .keyword .trueKw | .keyword .falseKw
  | .symbol .leftParen | .symbol .minus | .symbol .bang => true
  | _ => false

def Begins (kinds : List TokenKind) : Prop := ∃ k rest, kinds = k :: rest ∧ isBeginning k

theorem Begins.append {kinds : List TokenKind} (h : Begins kinds) (more : List TokenKind) :
    Begins (kinds ++ more) := by
  obtain ⟨k, rest, rfl, hk⟩ := h
  exact ⟨k, rest ++ more, rfl, hk⟩

theorem Begins.operand {kinds : List TokenKind} (h : Begins kinds) (level own : Level) :
    Begins (operand level own kinds) := by
  rw [Surface.operand]
  split
  · exact ⟨_, _, rfl, rfl⟩
  · exact h

theorem begins (mark : Mark) (imported : List String) (e : Expr) :
    Begins (e.kinds mark imported) := by
  induction e using Expr.induct with
  | number n => exact ⟨_, _, rfl, rfl⟩
  | string s => exact ⟨_, _, rfl, rfl⟩
  | boolean b => cases b <;> exact ⟨_, _, rfl, rfl⟩
  | name x =>
    rw [kinds]
    split <;> exact ⟨_, _, rfl, rfl⟩
  | assign target op value ihtarget ihvalue =>
    rw [kinds]
    exact (ihtarget.operand _ _).append _
  | binary op lhs rhs ihlhs ihrhs =>
    rw [kinds]
    exact (ihlhs.operand _ _).append _
  | unary op operand ih => cases op <;> exact ⟨_, _, rfl, rfl⟩
  | ternary condition yes no ihcondition ihyes ihno =>
    rw [kinds]
    exact (ihcondition.operand _ _).append _
  | call callee positional named ihpositional ihnamed =>
    rw [kinds]
    cases callee <;> exact ⟨_, _, rfl, rfl⟩
  | chain value link ihvalue ihlink =>
    rw [kinds]
    exact (ihvalue.operand _ _).append _

def looksNamed : List TokenKind → Bool
  | .identifier _ :: .symbol .colon :: _ | .identifier _ :: .symbol .equals :: _ => true
  | _ => false

theorem looksNamed_paren (kinds more : List TokenKind) : looksNamed (paren kinds ++ more) = false :=
  rfl

theorem looksNamed_identifier {x : String} {k : TokenKind} (more : List TokenKind)
    (hcolon : k ≠ .symbol .colon) (hequals : k ≠ .symbol .equals) :
    looksNamed (.identifier x :: k :: more) = false := by
  unfold looksNamed
  split
  · next h => simp_all
  · next h => simp_all
  · rfl

section Operands

variable {mark : Mark} {imported : List String} {e : Expr} {level : Level}

/-- An operand does not look like a named argument, unless it is a name and what comes after it
makes it one. -/
theorem looksNamed_operand {k : TokenKind} (more : List TokenKind)
    (h : (∃ x, e = .name x) ∨
      ∀ more, looksNamed (operand level e.level (e.kinds mark imported) ++ more) = false)
    (hcolon : k ≠ .symbol .colon) (hequals : k ≠ .symbol .equals) :
    looksNamed (operand level e.level (e.kinds mark imported) ++ k :: more) = false := by
  rcases h with ⟨x, rfl⟩ | h
  · rw [operand, kinds]
    split
    · rfl
    · split
      · rfl
      · exact looksNamed_identifier more hcolon hequals
  · exact h (k :: more)

theorem not_looksNamed_operand
    (h : e.isNamedLike = false →
      (∃ x, e = .name x) ∨ ∀ more, looksNamed (e.kinds mark imported ++ more) = false)
    (hlevel : e.isNamedLike = false ∨ 0 < level.rank) :
    (∃ x, e = .name x) ∨
      ∀ more, looksNamed (operand level e.level (e.kinds mark imported) ++ more) = false := by
  by_cases hwrap : e.level.rank < level.rank
  · refine .inr fun more => ?_
    rw [operand, if_pos hwrap]
    exact looksNamed_paren _ _
  · rw [operand, if_neg hwrap]
    refine h ?_
    rcases hlevel with hnamed | hlevel
    · exact hnamed
    · -- an assignment would have been put in parentheses
      cases e with
      | assign target op value => exact absurd hlevel hwrap
      | _ => rfl

end Operands

theorem not_looksNamed (mark : Mark) (imported : List String) (e : Expr)
    (h : e.isNamedLike = false) :
    (∃ x, e = .name x) ∨ ∀ more, looksNamed (e.kinds mark imported ++ more) = false := by
  induction e using Expr.induct with
  | number n => exact .inr fun _ => rfl
  | string s => exact .inr fun _ => rfl
  | boolean b => exact .inr fun _ => rfl
  | name x => exact .inl ⟨x, rfl⟩
  | assign target op value ihtarget ihvalue =>
    refine .inr fun more => ?_
    rw [kinds, List.append_assoc, List.cons_append]
    have htarget : (∃ x, target = .name x) ∨ ∀ more, looksNamed
        (operand .ternary target.level (target.kinds mark imported) ++ more) = false :=
      not_looksNamed_operand ihtarget (.inr (by decide))
    by_cases hop : op = .assign
    · rcases htarget with ⟨x, rfl⟩ | htarget
      · rw [hop] at h
        cases h
      · exact htarget _
    · refine looksNamed_operand _ htarget ?_ ?_
      · rcases op with _ | op | _ <;> first | decide | (cases op <;> decide)
      · rcases op with _ | op | _ <;>
          first | exact absurd rfl hop | decide | (cases op <;> decide)
  | binary op lhs rhs ihlhs ihrhs =>
    refine .inr fun more => ?_
    rw [kinds, List.append_assoc, List.cons_append]
    refine looksNamed_operand _ (not_looksNamed_operand ihlhs (.inr op.leftLevel_pos)) ?_ ?_
    · rcases op with op | _ | op <;> first | decide | (cases op <;> decide)
    · rcases op with op | _ | op <;> first | decide | (cases op <;> decide)
  | unary op operand ih => cases op <;> exact .inr fun _ => rfl
  | ternary condition yes no ihcondition ihyes ihno =>
    refine .inr fun more => ?_
    rw [kinds, List.append_assoc, List.cons_append]
    exact looksNamed_operand _ (not_looksNamed_operand ihcondition (.inr (by decide))) nofun nofun
  | call callee positional named ihpositional ihnamed =>
    refine .inr fun more => ?_
    cases callee <;> rfl
  | chain value link ihvalue ihlink =>
    refine .inr fun more => ?_
    rw [kinds, List.append_assoc, List.cons_append]
    exact looksNamed_operand _ (not_looksNamed_operand ihvalue (.inr (by decide))) nofun nofun

theorem begins_argumentKinds (mark : Mark) (imported : List String) (e : Expr) :
    Begins (e.argumentKinds mark imported) := by
  rw [argumentKinds]
  split
  · exact ⟨_, _, rfl, rfl⟩
  · exact e.begins mark imported

theorem not_looksNamed_argumentKinds (mark : Mark) (imported : List String) (e : Expr)
    {k : TokenKind} (more : List TokenKind) (hcolon : k ≠ .symbol .colon)
    (hequals : k ≠ .symbol .equals) :
    looksNamed (e.argumentKinds mark imported ++ k :: more) = false := by
  rw [argumentKinds]
  split
  · exact looksNamed_paren _ _
  · next hnamed =>
    have hnamed : e.isNamedLike = false := by simpa using hnamed
    have hkinds : operand .assignment e.level (e.kinds mark imported) = e.kinds mark imported :=
      if_neg (Nat.not_lt_zero _)
    rw [← hkinds]
    refine looksNamed_operand more ?_ hcolon hequals
    exact not_looksNamed_operand (not_looksNamed mark imported e) (.inl hnamed)

end Expr

/-! ## Parameters -/

inductive ParamKind where
  | number | boolean | string | clip
deriving DecidableEq

def ParamKind.toValueKind : ParamKind → ValueKind
  | number => .number
  | boolean => .boolean
  | string => .string
  | clip => .clip

def ParamKind.keyword : ParamKind → Keyword
  | number => .numKw
  | boolean => .boolKw
  | string => .stringKw
  | clip => .clipKw

structure Params where
  mandatory : List (ParamKind × String)
  optional : List (ParamKind × String)

namespace Params

/-- The parameters one after the other, each as it is written and as the tree has it. -/
def items (ps : Params) : List (List TokenKind × Param) :=
  ps.mandatory.map (fun (kind, name) =>
    ([.keyword kind.keyword, .identifier name], ⟨name, kind.toValueKind, false, .nowhere⟩))
  ++ ps.optional.map (fun (kind, name) =>
    ([.keyword .optKw, .keyword kind.keyword, .identifier name],
      ⟨name, kind.toValueKind, true, .nowhere⟩))

end Params

/-! ## Statements -/

inductive Stmt where
  | expr (e : Expr)
  | block (body : List Stmt)
  | ifThen (condition : Expr) (yes : Stmt)
  | ifElse (condition : Expr) (yes no : Stmt)
  | functionDef (name : String) (params : Params) (body : List Stmt)
  | defaultValue (name : String) (value : Expr)
  | returnValue (value : Option Expr)
  | importName (name : String)

namespace Stmt

/-- Whether an `else` after the statement would be taken as part of it. -/
def isOpen : Stmt → Bool
  | ifThen _ _ => true
  | ifElse _ _ no => no.isOpen
  | _ => false

mutual

def toNode : Stmt → Node
  | expr e => e.toNode
  | block body => .sequence .nowhere (toNodes body)
  | ifThen condition yes => .ifElse .nowhere condition.toNode yes.toNode none
  | ifElse condition yes no => .ifElse .nowhere condition.toNode yes.toNode (some no.toNode)
  | functionDef name params body =>
    .functionDef .nowhere name (params.items.map Prod.snd) (.sequence .nowhere (toNodes body))
  | defaultValue name value => .defaultValue .nowhere name value.toNode
  | returnValue value => .returnValue .nowhere (value.map Expr.toNode)
  | importName name => .importName .nowhere name

def toNodes : List Stmt → List Node
  | [] => []
  | s :: rest => s.toNode :: toNodes rest

end

mutual

/-- The names that are imported after a statement, if `imported` are before it. -/
def importedAfter : Stmt → List String → List String
  | importName name, imported => name :: imported
  | block body, imported | functionDef _ _ body, imported => importedAfterAll body imported
  | ifThen _ yes, imported => yes.importedAfter imported
  | ifElse _ yes no, imported => no.importedAfter (yes.importedAfter imported)
  | expr _, imported | defaultValue _ _, imported | returnValue _, imported => imported

def importedAfterAll : List Stmt → List String → List String
  | [], imported => imported
  | s :: rest, imported => importedAfterAll rest (s.importedAfter imported)

end

section Kinds

variable (mark : Mark)

mutual

/-- A statement as it is written where `imported` are known. -/
def kinds : Stmt → List String → List TokenKind
  | expr e, imported => e.kinds mark imported ++ [.symbol .semicolon]
  | block body, imported => .symbol .leftBrace :: kindsAll body imported ++ [.symbol .rightBrace]
  | ifThen condition yes, imported =>
    .keyword .ifKw :: paren (condition.kinds mark imported) ++ yes.kinds imported
  | ifElse condition yes no, imported =>
    .keyword .ifKw :: paren (condition.kinds mark imported) ++ (yes.kinds imported
      ++ .keyword .elseKw :: no.kinds (yes.importedAfter imported))
  | functionDef name params body, imported =>
    .keyword .functionKw :: .identifier name :: paren (commas (params.items.map Prod.fst))
      ++ .symbol .leftBrace :: kindsAll body imported ++ [.symbol .rightBrace]
  | defaultValue name value, imported =>
    .keyword .defaultKw :: .symbol .leftParen :: .identifier name :: .symbol .comma ::
      value.kinds mark imported ++ [.symbol .rightParen, .symbol .semicolon]
  | returnValue none, _ => [.keyword .returnKw, .symbol .semicolon]
  | returnValue (some value), imported =>
    .keyword .returnKw :: value.kinds mark imported ++ [.symbol .semicolon]
  | importName name, _ => [.keyword .importKw, .identifier name, .symbol .semicolon]

def kindsAll : List Stmt → List String → List TokenKind
  | [], _ => []
  | s :: rest, imported => s.kinds imported ++ kindsAll rest (s.importedAfter imported)

end

end Kinds

mutual

/-- Every plugin is imported before it is called, and every `else` belongs to the `if` it is written
for. -/
def admitted : Stmt → List String → Bool
  | expr e, imported => e.admitted imported
  | block body, imported | functionDef _ _ body, imported => admittedAll body imported
  | ifThen condition yes, imported => condition.admitted imported && yes.admitted imported
  | ifElse condition yes no, imported =>
    condition.admitted imported && !yes.isOpen && yes.admitted imported
      && no.admitted (yes.importedAfter imported)
  | defaultValue _ value, imported => value.admitted imported
  | returnValue none, _ | importName _, _ => true
  | returnValue (some value), imported => value.admitted imported

def admittedAll : List Stmt → List String → Bool
  | [], _ => true
  | s :: rest, imported => s.admitted imported && admittedAll rest (s.importedAfter imported)

end

attribute [simp] kinds admitted

/-- Induction on a statement, with the statement at hand for everything in a block. -/
@[elab_as_elim]
theorem induct {motive : Stmt → Prop} (expr : ∀ e, motive (.expr e))
    (block : ∀ body, (∀ s ∈ body, motive s) → motive (.block body))
    (ifThen : ∀ condition yes, motive yes → motive (.ifThen condition yes))
    (ifElse : ∀ condition yes no, motive yes → motive no → motive (.ifElse condition yes no))
    (functionDef : ∀ name params body, (∀ s ∈ body, motive s) →
      motive (.functionDef name params body))
    (defaultValue : ∀ name value, motive (.defaultValue name value))
    (returnValue : ∀ value, motive (.returnValue value))
    (importName : ∀ name, motive (.importName name)) (s : Stmt) : motive s := by
  refine @Stmt.rec motive (fun body => ∀ s ∈ body, motive s) expr block ifThen ifElse functionDef
    defaultValue returnValue importName ?_ ?_ s
  · intro s hs
    cases hs
  · intro head tail hhead htail s hs
    rcases List.mem_cons.mp hs with rfl | hs
    · exact hhead
    · exact htail s hs

/-- Tokens that end a block or a script, or that go on with a statement. -/
def isContinuation : TokenKind → Bool
  | .symbol .rightBrace | .keyword .elseKw | .eof => true
  | _ => false

theorem begins (mark : Mark) (imported : List String) (s : Stmt) :
    ∃ k rest, s.kinds mark imported = k :: rest ∧ isContinuation k = false := by
  cases s with
  | expr e =>
    obtain ⟨k, rest, hkinds, hk⟩ := e.begins mark imported
    refine ⟨k, rest ++ [.symbol .semicolon], by rw [kinds, hkinds]; rfl, ?_⟩
    unfold Expr.isBeginning at hk
    split at hk <;> first | rfl | cases hk
  | returnValue value =>
    cases value with
    | none => exact ⟨_, _, rfl, rfl⟩
    | some value => exact ⟨_, _, by rw [kinds]; rfl, rfl⟩
  | _ => exact ⟨_, _, rfl, rfl⟩

end Stmt
end Surface
end ClipScript
