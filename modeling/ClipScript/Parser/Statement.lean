/-
Statements and whole scripts.

A block and the branches of an `if` hold statements again; `statementAt` ties that knot in the same
way as the one of expressions.  A lone semicolon is a statement that leaves no node.
-/
import ClipScript.Parser.Expression

namespace ClipScript
namespace Parser

def param : Parser Param := do
  let start := (← peek).span
  let optional ← accept (.keyword .optKw)
  let token ← advance
  let kind ← match token.kind with
    | .keyword .numKw => pure ValueKind.number
    | .keyword .boolKw => pure ValueKind.boolean
    | .keyword .stringKw => pure ValueKind.string
    | .keyword .clipKw => pure ValueKind.clip
    | _ => unexpected .parameterType token
  let (name, finish) ← expectName .parameterName
  return { name, kind, optional, span := start.merge finish }

def paramOf (function : String) (before : List Param) : Parser Param := do
  let p ← param
  if !p.optional && before.any (·.optional) then
    throw ⟨.parameterOrder function, p.span⟩
  return p

def defaultStatement : Parser Node := do
  let start := (← advance).span
  discard <| expect .leftParen
  let (name, _) ← expectName .parameterName
  discard <| expect .comma
  let value ← expression
  discard <| expect .rightParen
  let finish ← expect .semicolon
  return .defaultValue (start.merge finish) name value

def returnStatement : Parser Node := do
  let start := (← advance).span
  let value ← if ← check (.symbol .semicolon) then pure none else some <$> expression
  let finish ← expect .semicolon
  return .returnValue (start.merge finish) value

/-- `import name;`, after which the name is known to the rest of the text. -/
def importStatement : Parser Node := do
  let start := (← advance).span
  let (name, _) ← expectName .importName
  let finish ← expect .semicolon
  modify fun c => { c with imported := name :: c.imported }
  return .importName (start.merge finish) name

section Nested

/- `again` is the parser for a statement inside another one. -/
variable (again : Parser (Option Node))

/-- The statements of a block up to its closing brace, which stays.  When the count runs out
nothing is left to read, so the brace is missing. -/
def blockBody : Nat → Parser (List Node)
  | 0 => do unexpected (.symbol .rightBrace) (← peek)
  | n + 1 => do
    let token ← peek
    match token.kind with
    | .symbol .rightBrace => return []
    | .eof => unexpected (.symbol .rightBrace) token
    | _ =>
      let statement ← again
      let rest ← blockBody n
      return statement.toList ++ rest

def block : Parser Node := do
  let start ← expect .leftBrace
  let body ← blockBody again (← remaining)
  let finish := (← advance).span
  return .sequence (start.merge finish) body

/-- A branch of an `if`.  An empty statement stands for an empty block. -/
def branch : Parser Node := do
  let place := (← peek).span
  return (← again).getD (.sequence place [])

def ifStatement : Parser Node := do
  let start := (← advance).span
  discard <| expect .leftParen
  let condition ← expression
  discard <| expect .rightParen
  let yes ← branch again
  let no ← if ← accept (.keyword .elseKw) then some <$> branch again else pure none
  return .ifElse (start.merge (no.getD yes).span) condition yes no

def functionStatement : Parser Node := do
  let start := (← advance).span
  let (name, _) ← expectName .functionName
  let (params, _) ← parenthesised (paramOf name)
  let body ← block again
  return .functionDef (start.merge body.span) name params body

def statementWith : Parser (Option Node) := do
  match (← peek).kind with
  | .symbol .semicolon =>
    discard advance
    return none
  | .symbol .leftBrace => some <$> block again
  | .keyword .ifKw => some <$> ifStatement again
  | .keyword .functionKw => some <$> functionStatement again
  | .keyword .defaultKw => some <$> defaultStatement
  | .keyword .returnKw => some <$> returnStatement
  | .keyword .importKw => some <$> importStatement
  | _ =>
    let value ← expression
    discard <| expect .semicolon
    return some value

end Nested

def statementAt : Nat → Parser (Option Node)
  | 0 => do unexpected .expression (← peek)
  | n + 1 => statementWith (statementAt n)

def statement : Parser (Option Node) := do statementAt (← remaining)

def statements : Nat → Parser (List Node)
  | 0 => return []
  | n + 1 => do
    if ← check .eof then return []
    else
      let first ← statement
      let rest ← statements n
      return first.toList ++ rest

def program : Parser Program := do
  let start := (← peek).span
  let body ← statements (← remaining)
  let span := match body.getLast? with
    | some last => start.merge last.span
    | none => start
  return ⟨body, span⟩

end Parser

def Program.ofTokens (tokens : List Token) : Except ParseError Program :=
  (Parser.program.run' (Cursor.start tokens))

end ClipScript
