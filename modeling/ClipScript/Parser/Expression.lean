/-
Expressions: thirteen levels of precedence, from assignment down to a single literal.

Each level is a parser that reads its operands at the next higher level.  Where the grammar comes
back to a level of the same or lower precedence (the value of an assignment, the inside of
parentheses, the operand of a unary operator) it does so through `again`, and only after a token
was read.  `expressionAt` ties that knot with the number of tokens left as its bound; when no token
is left there is no expression, which is what its base case says.
-/
import ClipScript.Decimal.Reading
import ClipScript.Parser.Cursor

namespace ClipScript

inductive Level where
  | assignment | ternary | disjunction | conjunction | equality | comparison | sum | product
  | power | concat | chain | unary | primary
deriving DecidableEq, Repr

def BinaryOp.level : BinaryOp → Level
  | .comparison .or => .disjunction
  | .comparison .and => .conjunction
  | .comparison .equal | .comparison .notEqual => .equality
  | .comparison _ => .comparison
  | .arithmetic .add | .arithmetic .sub => .sum
  | .arithmetic .pow => .power
  | .arithmetic _ => .product
  | .concat => .concat

def Level.operator? : Level → TokenKind → Option BinaryOp
  | .disjunction, .symbol .pipePipe => some (.comparison .or)
  | .conjunction, .symbol .andAnd => some (.comparison .and)
  | .equality, .symbol .equalEqual => some (.comparison .equal)
  | .equality, .symbol .bangEqual => some (.comparison .notEqual)
  | .comparison, .symbol .less => some (.comparison .less)
  | .comparison, .symbol .lessEqual => some (.comparison .lessEqual)
  | .comparison, .symbol .greater => some (.comparison .greater)
  | .comparison, .symbol .greaterEqual => some (.comparison .greaterEqual)
  | .sum, .symbol .plus => some (.arithmetic .add)
  | .sum, .symbol .minus => some (.arithmetic .sub)
  | .product, .symbol .star => some (.arithmetic .mul)
  | .product, .symbol .slash => some (.arithmetic .div)
  | .product, .symbol .percent => some (.arithmetic .mod)
  | .power, .symbol .caret => some (.arithmetic .pow)
  | .concat, .symbol .plusPlus => some .concat
  | _, _ => none

def AssignOp.ofToken? : TokenKind → Option AssignOp
  | .symbol .equals => some .assign
  | .symbol .plusEquals => some (.update .add)
  | .symbol .minusEquals => some (.update .sub)
  | .symbol .starEquals => some (.update .mul)
  | .symbol .slashEquals => some (.update .div)
  | .symbol .caretEquals => some (.update .pow)
  | .symbol .percentEquals => some (.update .mod)
  | .symbol .dotEquals => some .chain
  | _ => none

def UnaryOp.ofToken? : TokenKind → Option UnaryOp
  | .symbol .minus => some .negate
  | .symbol .bang => some .not
  | _ => none

theorem Level.operator?_symbol (op : BinaryOp) :
    op.level.operator? (.symbol op.symbol) = some op := by
  rcases op with op | _ | op <;> first | rfl | (cases op <;> rfl)

theorem AssignOp.ofToken?_symbol (op : AssignOp) : ofToken? (.symbol op.symbol) = some op := by
  rcases op with _ | op | _ <;> first | rfl | (cases op <;> rfl)

namespace Parser

def leftRounds (level : Level) (operand : Parser Node) : Nat → Node → Parser Node
  | 0, sofar => return sofar
  | n + 1, sofar => do
    match level.operator? (← peek).kind with
    | none => return sofar
    | some op =>
      discard advance
      let rhs ← operand
      leftRounds level operand n (.ofBinary op sofar rhs)

def leftLevel (level : Level) (operand : Parser Node) : Parser Node := do
  let first ← operand
  leftRounds level operand (← remaining) first

section Levels

/- `again` is the parser for coming back to a level after a token was read. -/
variable (again : Level → Parser Node)

/-- An argument.  A name and a colon or an equals sign make it a named one.  After a named argument
only named ones may follow. -/
def argument (before : List (Labelled Node)) : Parser (Labelled Node) := do
  let c ← get
  let arg ← match c.rest with
    | ⟨.identifier name, _⟩ :: ⟨.symbol .colon, _⟩ :: rest
    | ⟨.identifier name, _⟩ :: ⟨.symbol .equals, _⟩ :: rest =>
      set { c with rest := rest }
      pure ⟨some name, ← again .assignment⟩
    | _ => pure ⟨none, ← again .assignment⟩
  if arg.label.isNone && before.any (·.label.isSome) then
    throw ⟨.argumentOrder, arg.content.span⟩
  return arg

def callTo (callee : Callee) (start : Span) : Parser Node := do
  let (args, close) ← parenthesised (argument again)
  return .call (start.merge close) callee args

def named (name : String) (span : Span) : Parser Node := do
  let c ← get
  match c.rest with
  | ⟨.symbol .leftParen, _⟩ :: _ => callTo again (.named name) span
  | ⟨.symbol .dot, _⟩ :: ⟨.identifier function, _⟩ :: ⟨.symbol .leftParen, s⟩ :: rest =>
    if c.imported.contains name then
      set { c with rest := ⟨.symbol .leftParen, s⟩ :: rest }
      callTo again (.plugin name function) span
    else return .identifier span name
  | _ => return .identifier span name

def primary : Parser Node := do
  let token ← advance
  match token.kind with
  | .number digits =>
    match Decimal.read? digits with
    | some n => return .leaf token.span (.number n)
    | none => throw ⟨.invalidNumber digits, token.span⟩
  | .string s => return .leaf token.span (.string s)
  | .keyword .trueKw => return .leaf token.span (.boolean true)
  | .keyword .falseKw => return .leaf token.span (.boolean false)
  | .identifier name => named again name token.span
  | .symbol .leftParen =>
    let inner ← again .assignment
    discard <| expect .rightParen
    return inner
  | _ => unexpected .expression token

def unary : Parser Node := do
  match UnaryOp.ofToken? (← peek).kind with
  | none => primary again
  | some op =>
    let start := (← advance).span
    let operand ← again .unary
    return .unary (start.merge operand.span) op operand

/-- Chains nest to the right: `a.f().g()` is `a` flowing into the chain `f().g()`. -/
def chain : Parser Node := do
  let value ← unary again
  if ← accept (.symbol .dot) then
    let call ← again .chain
    return .chain (value.span.merge call.span) value call
  else return value

def concat : Parser Node := leftLevel .concat (chain again)

def power : Parser Node := do
  let base ← concat again
  match Level.power.operator? (← peek).kind with
  | none => return base
  | some op =>
    discard advance
    let exponent ← again .power
    return .ofBinary op base exponent

def product : Parser Node := leftLevel .product (power again)

def sum : Parser Node := leftLevel .sum (product again)

def comparison : Parser Node := leftLevel .comparison (sum again)

def equality : Parser Node := leftLevel .equality (comparison again)

def conjunction : Parser Node := leftLevel .conjunction (equality again)

def disjunction : Parser Node := leftLevel .disjunction (conjunction again)

/-- The condition and the first branch stand at the level of `||`, the second branch may be another
ternary. -/
def ternary : Parser Node := do
  let condition ← disjunction again
  if ← accept (.symbol .question) then
    let yes ← again .disjunction
    discard <| expect .pipe
    let no ← again .ternary
    return .ternary (condition.span.merge no.span) condition yes no
  else return condition

def assignment : Parser Node := do
  let target ← ternary again
  match AssignOp.ofToken? (← peek).kind with
  | none => return target
  | some op =>
    discard advance
    let value ← again .assignment
    return .assign (target.span.merge value.span) target op value

def atLevel : Level → Parser Node
  | .assignment => assignment again
  | .ternary => ternary again
  | .disjunction => disjunction again
  | .conjunction => conjunction again
  | .equality => equality again
  | .comparison => comparison again
  | .sum => sum again
  | .product => product again
  | .power => power again
  | .concat => concat again
  | .chain => chain again
  | .unary => unary again
  | .primary => primary again

end Levels

def expressionAt : Nat → Level → Parser Node
  | 0, _ => do unexpected .expression (← peek)
  | n + 1, level => atLevel (expressionAt n) level

def expression : Parser Node := do expressionAt (← remaining) .assignment

end Parser
end ClipScript
