/-
The cursor: what a parser still has to read, and the steps that read one token.

A parser is a state transformer over a cursor.  Past the last token it sees an end of input for
ever, placed where the last token stood, so no step needs to ask whether a token is there.
-/
import ClipScript.Parser.Error
import ClipScript.Node

namespace ClipScript

/-- Where a parser stands.  `finish` is the place of the end of input, and `imported` holds the
names that an earlier `import` made known as plugins or scripts. -/
structure Cursor where
  rest : List Token
  finish : Span
  imported : List String := []

def Cursor.head (c : Cursor) : Token := c.rest.headD ⟨.eof, c.finish⟩

def Cursor.start (tokens : List Token) : Cursor :=
  { rest := tokens, finish := (tokens.getLast?.map (·.span)).getD .nowhere }

abbrev Parser := StateT Cursor (Except ParseError)

namespace Parser

variable {α : Type}

def peek : Parser Token := return (← get).head

def advance : Parser Token := do
  let c ← get
  set { c with rest := c.rest.tail }
  return c.head

/-- How many tokens are left.  Every loop of the grammar reads at least one token a round, so this
number bounds its rounds. -/
def remaining : Parser Nat := return (← get).rest.length

def unexpected (expected : Expectation) (found : Token) : Parser α :=
  throw ⟨.unexpectedToken expected found.kind, found.span⟩

def check (kind : TokenKind) : Parser Bool := return (← peek).kind == kind

def accept (kind : TokenKind) : Parser Bool := do
  if ← check kind then
    discard advance
    return true
  else return false

def expect (s : Symbol) : Parser Span := do
  let token ← advance
  if token.kind == .symbol s then return token.span else unexpected (.symbol s) token

def expectName (expected : Expectation) : Parser (String × Span) := do
  let token ← advance
  match token.kind with
  | .identifier name => return (name, token.span)
  | _ => unexpected expected token

/-- One or more items with commas between them.  An item is told which items came before it.  The
count bounds the rounds; when it runs out nothing is left to read, and the last item fails. -/
def separated (item : List α → Parser α) : Nat → List α → Parser (List α)
  | 0, before => return before ++ [← item before]
  | n + 1, before => do
    let before := before ++ [← item before]
    if ← accept (.symbol .comma) then separated item n before else return before

def parenthesised (item : List α → Parser α) : Parser (List α × Span) := do
  discard <| expect .leftParen
  let items ← if ← check (.symbol .rightParen) then pure [] else separated item (← remaining) []
  let close ← expect .rightParen
  return (items, close)

end Parser
end ClipScript
