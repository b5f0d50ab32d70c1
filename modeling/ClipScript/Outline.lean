/-
Outlines: a tree of a script written out for inspection.

An outline is a tree of named records, named tuples, lists and atoms.  Each part of it stands on a
line of its own, four columns further in than what it is part of, and ends in a comma.
-/
import ClipScript.Node

namespace ClipScript

inductive Outline where
  | atom (text : String)
  | record (name : String) (fields : List (String × Outline))
  | tuple (name : String) (item : Outline)
  | list (items : List Outline)
deriving Repr, Inhabited

namespace Outline

def margin (depth : Nat) : String := String.ofList (List.replicate (4 * depth) ' ')

mutual

/-- An outline that begins where it is written and whose further lines are at `depth`. -/
def render (depth : Nat) : Outline → String
  | atom text => text
  | record name fields =>
    name ++ " \x7b\n" ++ renderFields (depth + 1) fields ++ margin depth ++ "\x7d"
  | tuple name item =>
    name ++ "(\n" ++ margin (depth + 1) ++ item.render (depth + 1) ++ ",\n" ++ margin depth ++ ")"
  | list [] => "[]"
  | list (item :: rest) =>
    "[\n" ++ margin (depth + 1) ++ item.render (depth + 1) ++ ",\n"
      ++ renderItems (depth + 1) rest ++ margin depth ++ "]"

def renderItems (depth : Nat) : List Outline → String
  | [] => ""
  | item :: rest => margin depth ++ item.render depth ++ ",\n" ++ renderItems depth rest

def renderFields (depth : Nat) : List (String × Outline) → String
  | [] => ""
  | (name, item) :: rest =>
    margin depth ++ name ++ ": " ++ item.render depth ++ ",\n" ++ renderFields depth rest

end

def nat (n : Nat) : Outline := atom (toString n)

def bool (b : Bool) : Outline := atom (if b then "true" else "false")

def string (s : String) : Outline := atom (Text.quoted s)

def option : Option Outline → Outline
  | none => atom "None"
  | some item => tuple "Some" item

end Outline

def Span.outline (s : Span) : Outline :=
  .record "Span" [("start", .nat s.start), ("end", .nat s.stop), ("line", .nat s.line),
    ("column", .nat s.column)]

def ValueKind.outline : ValueKind → Outline
  | void => .atom "Void"
  | number => .atom "Number"
  | boolean => .atom "Boolean"
  | string => .atom "String"
  | clip => .atom "Clip"
  | identifier => .atom "Identifier"

def Value.outline : Value → Outline
  | void => .atom "Void"
  | number n => .tuple "Number" (.atom (Decimal.marked.render n))
  | boolean b => .tuple "Boolean" (.bool b)
  | string s => .tuple "String" (.string s)
  | clip c => .tuple "Clip" (.string c.label)
  | identifier name => .tuple "Identifier" (.string name)

def Arithmetic.outline : Arithmetic → Outline
  | add => .atom "Add"
  | sub => .atom "Sub"
  | mul => .atom "Mul"
  | div => .atom "Div"
  | pow => .atom "Pow"
  | mod => .atom "Mod"

def BinaryOp.outline : BinaryOp → Outline
  | arithmetic op => op.outline
  | concat => .atom "Concat"
  | comparison .equal => .atom "Equal"
  | comparison .notEqual => .atom "NotEqual"
  | comparison .less => .atom "Less"
  | comparison .lessEqual => .atom "LessEqual"
  | comparison .greater => .atom "Greater"
  | comparison .greaterEqual => .atom "GreaterEqual"
  | comparison .and => .atom "And"
  | comparison .or => .atom "Or"

def UnaryOp.outline : UnaryOp → Outline
  | negate => .atom "Negate"
  | not => .atom "Not"

def AssignOp.outline : AssignOp → Outline
  | assign => .atom "Assign"
  | update op => op.outline
  | chain => .atom "Chain"

def Callee.outline : Callee → Outline
  | named name => .tuple "Named" (.string name)
  | plugin owner function =>
    .record "Plugin" [("plugin", .string owner), ("function", .string function)]

def Param.outline (p : Param) : Outline :=
  .record "Param" [("name", .string p.name), ("kind", p.kind.outline),
    ("optional", .bool p.optional), ("span", p.span.outline)]

namespace Node

def outlineAs (form : Outline) (span : Span) : Outline :=
  .record "Node" [("kind", form), ("span", span.outline)]

mutual

def outline : Node → Outline
  | leaf s v => outlineAs (.tuple "Leaf" v.outline) s
  | sequence s body => outlineAs (.tuple "Sequence" (.list (outlineAll body))) s
  | assign s target op value =>
    outlineAs (.record "Assign" [("target", target.outline), ("op", op.outline),
      ("value", value.outline)]) s
  | binary s op lhs rhs =>
    outlineAs (.record "Binary" [("op", op.outline), ("lhs", lhs.outline), ("rhs", rhs.outline)]) s
  | unary s op operand =>
    outlineAs (.record "Unary" [("op", op.outline), ("operand", operand.outline)]) s
  | ternary s condition yes no =>
    outlineAs (.record "Ternary" [("condition", condition.outline), ("then", yes.outline),
      ("otherwise", no.outline)]) s
  | call s callee args =>
    outlineAs (.record "Call" [("callee", callee.outline), ("args", .list (outlineArgs args))]) s
  | chain s value link =>
    outlineAs (.record "Chain" [("value", value.outline), ("call", link.outline)]) s
  | functionDef s name params body =>
    outlineAs (.record "FunctionDef" [("name", .string name),
      ("params", .list (params.map Param.outline)), ("body", body.outline)]) s
  | defaultValue s name value =>
    outlineAs (.record "Default" [("name", .string name), ("value", value.outline)]) s
  | returnValue s none => outlineAs (.tuple "Return" (.option none)) s
  | returnValue s (some value) => outlineAs (.tuple "Return" (.option (some value.outline))) s
  | ifElse s condition yes none =>
    outlineAs (.record "If" [("condition", condition.outline), ("then", yes.outline),
      ("otherwise", .option none)]) s
  | ifElse s condition yes (some no) =>
    outlineAs (.record "If" [("condition", condition.outline), ("then", yes.outline),
      ("otherwise", .option (some no.outline))]) s
  | importName s name => outlineAs (.tuple "Import" (.string name)) s

def outlineAll : List Node → List Outline
  | [] => []
  | node :: rest => node.outline :: outlineAll rest

def outlineArgs : List (Labelled Node) → List Outline
  | [] => []
  | ⟨label, node⟩ :: rest =>
    .record "Arg" [("name", .option (label.map .string)), ("value", node.outline)]
      :: outlineArgs rest

end

end Node

def Program.outline (p : Program) : Outline :=
  .record "Program" [("statements", .list (Node.outlineAll p.statements)),
    ("span", p.span.outline)]

end ClipScript
