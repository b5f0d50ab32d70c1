/-
Tokens: the words of a script.

Punctuation is one type, `Symbol`, with its spelling in one table, so that the lexer, the parser
and the error messages agree on it.
-/
import ClipScript.Span
import ClipScript.Text.Quoted

namespace ClipScript

inductive Keyword where
  | functionKw | returnKw | defaultKw | importKw | ifKw | elseKw | optKw
  | numKw | boolKw | stringKw | clipKw | trueKw | falseKw
deriving DecidableEq, Repr

namespace Keyword

def text : Keyword → String
  | functionKw => "function"
  | returnKw => "return"
  | defaultKw => "default"
  | importKw => "import"
  | ifKw => "if"
  | elseKw => "else"
  | optKw => "opt"
  | numKw => "num"
  | boolKw => "bool"
  | stringKw => "string"
  | clipKw => "clip"
  | trueKw => "true"
  | falseKw => "false"

def ofText? : String → Option Keyword
  | "function" => some functionKw
  | "return" => some returnKw
  | "default" => some defaultKw
  | "import" => some importKw
  | "if" => some ifKw
  | "else" => some elseKw
  | "opt" => some optKw
  | "num" => some numKw
  | "bool" => some boolKw
  | "string" => some stringKw
  | "clip" => some clipKw
  | "true" => some trueKw
  | "false" => some falseKw
  | _ => none

/-- The two tables agree: a word is the keyword that is spelled like it. -/
theorem ofText?_eq_some_iff {word : String} {k : Keyword} :
    ofText? word = some k ↔ k.text = word := by
  constructor
  · intro h
    unfold ofText? at h
    split at h <;> cases h <;> rfl
  · rintro rfl
    cases k <;> rfl

end Keyword

inductive Symbol where
  | leftBrace | rightBrace | leftParen | rightParen | comma | dot | semicolon | colon
  | equals | plusEquals | minusEquals | starEquals | slashEquals | caretEquals | percentEquals
  | dotEquals | equalEqual | bangEqual | less | lessEqual | greater | greaterEqual
  | plus | plusPlus | minus | star | slash | percent | caret | question | bang
  | pipe | andAnd | pipePipe
deriving DecidableEq, Repr

namespace Symbol

def text : Symbol → String
  | leftBrace => "\x7b"
  | rightBrace => "\x7d"
  | leftParen => "("
  | rightParen => ")"
  | comma => ","
  | dot => "."
  | semicolon => ";"
  | colon => ":"
  | equals => "="
  | plusEquals => "+="
  | minusEquals => "-="
  | starEquals => "*="
  | slashEquals => "/="
  | caretEquals => "^="
  | percentEquals => "%="
  | dotEquals => ".="
  | equalEqual => "=="
  | bangEqual => "!="
  | less => "<"
  | lessEqual => "<="
  | greater => ">"
  | greaterEqual => ">="
  | plus => "+"
  | plusPlus => "++"
  | minus => "-"
  | star => "*"
  | slash => "/"
  | percent => "%"
  | caret => "^"
  | question => "?"
  | bang => "!"
  | pipe => "|"
  | andAnd => "&&"
  | pipePipe => "||"

def ofPair? : Char → Char → Option Symbol
  | '+', '+' => some plusPlus
  | '+', '=' => some plusEquals
  | '-', '=' => some minusEquals
  | '*', '=' => some starEquals
  | '/', '=' => some slashEquals
  | '^', '=' => some caretEquals
  | '%', '=' => some percentEquals
  | '.', '=' => some dotEquals
  | '=', '=' => some equalEqual
  | '!', '=' => some bangEqual
  | '<', '=' => some lessEqual
  | '>', '=' => some greaterEqual
  | '&', '&' => some andAnd
  | '|', '|' => some pipePipe
  | _, _ => none

def ofChar? : Char → Option Symbol
  | '\x7b' => some leftBrace
  | '\x7d' => some rightBrace
  | '(' => some leftParen
  | ')' => some rightParen
  | ',' => some comma
  | '.' => some dot
  | ';' => some semicolon
  | ':' => some colon
  | '=' => some equals
  | '<' => some less
  | '>' => some greater
  | '+' => some plus
  | '-' => some minus
  | '*' => some star
  | '/' => some slash
  | '%' => some percent
  | '^' => some caret
  | '?' => some question
  | '!' => some bang
  | '|' => some pipe
  | _ => none

end Symbol

inductive TokenKind where
  | identifier (name : String)
  | number (digits : String)
  | string (value : String)
  | keyword (word : Keyword)
  | symbol (symbol : Symbol)
  | eof
deriving DecidableEq, Repr

def TokenKind.describe : TokenKind → String
  | identifier name => "identifier `" ++ name ++ "`"
  | number digits => "number `" ++ digits ++ "`"
  | string value => "string " ++ Text.quoted value
  | keyword word => "keyword `" ++ word.text ++ "`"
  | symbol s => "`" ++ s.text ++ "`"
  | eof => "end of input"

structure Token where
  kind : TokenKind
  span : Span
deriving DecidableEq, Repr

end ClipScript
