/-
Nodes: the tree of a script.

Statements and expressions are one type, because the evaluator treats them alike and because a
block is a value where it stands as a branch.  Every node carries the span it was read from.
-/
import ClipScript.Token
import ClipScript.Value

namespace ClipScript

inductive Arithmetic where
  | add | sub | mul | div | pow | mod
deriving DecidableEq, Repr

inductive Comparison where
  | equal | notEqual | less | lessEqual | greater | greaterEqual | and | or
deriving DecidableEq, Repr

inductive BinaryOp where
  | arithmetic (op : Arithmetic)
  | concat
  | comparison (op : Comparison)
deriving DecidableEq, Repr

inductive UnaryOp where
  | negate | not
deriving DecidableEq, Repr

/-- The ways of assigning: `=`, one of the compound forms such as `+=`, or `.=`, which pipes the
variable through a call. -/
inductive AssignOp where
  | assign
  | update (op : Arithmetic)
  | chain
deriving DecidableEq, Repr

def Arithmetic.symbol : Arithmetic → Symbol
  | add => .plus
  | sub => .minus
  | mul => .star
  | div => .slash
  | pow => .caret
  | mod => .percent

def Comparison.symbol : Comparison → Symbol
  | equal => .equalEqual
  | notEqual => .bangEqual
  | less => .less
  | lessEqual => .lessEqual
  | greater => .greater
  | greaterEqual => .greaterEqual
  | and => .andAnd
  | or => .pipePipe

def BinaryOp.symbol : BinaryOp → Symbol
  | arithmetic op => op.symbol
  | concat => .plusPlus
  | comparison op => op.symbol

def UnaryOp.symbol : UnaryOp → Symbol
  | negate => .minus
  | not => .bang

def AssignOp.symbol : AssignOp → Symbol
  | assign => .equals
  | update .add => .plusEquals
  | update .sub => .minusEquals
  | update .mul => .starEquals
  | update .div => .slashEquals
  | update .pow => .caretEquals
  | update .mod => .percentEquals
  | chain => .dotEquals

inductive Callee where
  | named (name : String)
  | plugin (owner function : String)
deriving DecidableEq, Repr

def Callee.display : Callee → String
  | named name => name
  | plugin owner function => owner ++ "." ++ function

structure Labelled (α : Type) where
  label : Option String
  content : α
deriving Repr

structure Param where
  name : String
  kind : ValueKind
  optional : Bool
  span : Span
deriving DecidableEq, Repr

inductive Node where
  | leaf (span : Span) (value : Value)
  | sequence (span : Span) (body : List Node)
  | assign (span : Span) (target : Node) (op : AssignOp) (value : Node)
  | binary (span : Span) (op : BinaryOp) (lhs rhs : Node)
  | unary (span : Span) (op : UnaryOp) (operand : Node)
  | ternary (span : Span) (condition yes no : Node)
  | call (span : Span) (callee : Callee) (args : List (Labelled Node))
  /-- A value and what it flows into: a call, a bare name, or another chain. -/
  | chain (span : Span) (value call : Node)
  | functionDef (span : Span) (name : String) (params : List Param) (body : Node)
  | defaultValue (span : Span) (name : String) (value : Node)
  | returnValue (span : Span) (value : Option Node)
  | ifElse (span : Span) (condition yes : Node) (no : Option Node)
  | importName (span : Span) (name : String)
deriving Repr, Inhabited

namespace Node

def span : Node → Span
  | leaf s _ | sequence s _ | assign s _ _ _ | binary s _ _ _ | unary s _ _ | ternary s _ _ _
  | call s _ _ | chain s _ _ | functionDef s _ _ _ | defaultValue s _ _ | returnValue s _
  | ifElse s _ _ _ | importName s _ => s

def identifier (span : Span) (name : String) : Node := leaf span (.identifier name)

def asIdentifier? : Node → Option String
  | leaf _ (.identifier name) => some name
  | _ => none

/-- What a node is called where a name should have stood. -/
def kindName : Node → String
  | leaf _ value => value.kind.name
  | _ => "operation"

def ofBinary (op : BinaryOp) (lhs rhs : Node) : Node :=
  binary (lhs.span.merge rhs.span) op lhs rhs

@[simp] theorem asIdentifier?_identifier (span : Span) (name : String) :
    (identifier span name).asIdentifier? = some name := rfl

theorem eq_identifier_of_asIdentifier? {node : Node} {name : String}
    (h : node.asIdentifier? = some name) : node = identifier node.span name := by
  unfold asIdentifier? at h
  split at h
  · cases h; rfl
  · cases h

end Node

structure Program where
  statements : List Node
  span : Span
deriving Repr

end ClipScript
