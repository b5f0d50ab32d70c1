/-
Lines of a settings file: `key = value`, blank lines and comments.

A key is bare or quoted and a value is a boolean or a quoted string.  Double quotes allow escapes
and single quotes take everything as it stands.
-/
import ClipScript.Decimal.Reading

namespace ClipScript
namespace Settings

inductive Item where
  | flag (b : Bool)
  | text (s : String)
deriving DecidableEq, Repr

namespace Line

def isSpace (c : Char) : Bool := c == ' ' || c == '\t'

def isPlain (c : Char) : Bool := c == '\t' || (0x20 ≤ c.toNat && c.toNat ≠ 0x7F)

def isKeyChar (c : Char) : Bool := c.isAlphanum || c == '_' || c == '-'

def hexValue? (c : Char) : Option Nat :=
  if c.isDigit then some (c.toNat - '0'.toNat)
  else if 'a' ≤ c ∧ c ≤ 'f' then some (c.toNat - 'a'.toNat + 10)
  else if 'A' ≤ c ∧ c ≤ 'F' then some (c.toNat - 'A'.toNat + 10)
  else none

def hexChar? (digits : List Char) : Option Char := do
  let n ← digits.foldlM (fun n c => return 16 * n + (← hexValue? c)) 0
  if h : n.isValidChar then some (Char.ofNatAux n h) else none

def escape? : Char → Option Char
  | 'b' => some '\x08'
  | 't' => some '\t'
  | 'n' => some '\n'
  | 'f' => some '\x0c'
  | 'r' => some '\r'
  | '"' => some '"'
  | '\\' => some '\\'
  | _ => none

def doubleQuoted : List Char → Option (List Char × List Char)
  | [] => none
  | '"' :: rest => some ([], rest)
  | '\\' :: 'u' :: a :: b :: c :: d :: rest => do
    let code ← hexChar? [a, b, c, d]
    let (s, rest) ← doubleQuoted rest
    return (code :: s, rest)
  | '\\' :: 'U' :: a :: b :: c :: d :: e :: f :: g :: h :: rest => do
    let code ← hexChar? [a, b, c, d, e, f, g, h]
    let (s, rest) ← doubleQuoted rest
    return (code :: s, rest)
  | '\\' :: c :: rest => do
    let code ← escape? c
    let (s, rest) ← doubleQuoted rest
    return (code :: s, rest)
  | c :: rest =>
    if isPlain c && c != '\\' then (doubleQuoted rest).map fun (s, rest) => (c :: s, rest)
    else none

def singleQuoted (text : List Char) : Option (List Char × List Char) :=
  match text.dropWhile (· != '\'') with
  | [] => none
  | _ :: rest =>
    let s := text.takeWhile (· != '\'')
    if s.all isPlain then some (s, rest) else none

def key? (text : List Char) : Option (String × List Char) :=
  match text with
  | '"' :: rest => (doubleQuoted rest).map fun (s, rest) => (String.ofList s, rest)
  | '\'' :: rest => (singleQuoted rest).map fun (s, rest) => (String.ofList s, rest)
  | text =>
    let key := text.takeWhile isKeyChar
    if key.isEmpty then none else some (String.ofList key, text.dropWhile isKeyChar)

def item? (text : List Char) : Option (Item × List Char) :=
  match text with
  | '"' :: rest => (doubleQuoted rest).map fun (s, rest) => (.text (String.ofList s), rest)
  | '\'' :: rest => (singleQuoted rest).map fun (s, rest) => (.text (String.ofList s), rest)
  | 't' :: 'r' :: 'u' :: 'e' :: rest => some (.flag true, rest)
  | 'f' :: 'a' :: 'l' :: 's' :: 'e' :: rest => some (.flag false, rest)
  | _ => none

def isVoid (text : List Char) : Bool :=
  match text.dropWhile isSpace with
  | [] => true
  | c :: comment => c == '#' && comment.all isPlain

/-- A line: `some none` if it sets nothing, and `none` if it is malformed. -/
def read (line : List Char) : Option (Option (String × Item)) :=
  if isVoid line then some none
  else do
    let (key, rest) ← key? (line.dropWhile isSpace)
    match rest.dropWhile isSpace with
    | '=' :: rest =>
      let (item, rest) ← item? (rest.dropWhile isSpace)
      if isVoid rest then some (some (key, item)) else none
    | _ => none

/-- The lines of a text.  A carriage return before a line feed is part of the line's end. -/
def split (text : List Char) : List (List Char) :=
  let pieces := text.splitOn '\n'
  pieces.dropLast.map (fun line => if line.getLast? = some '\r' then line.dropLast else line)
    ++ pieces.getLast?.toList

end Line
end Settings
end ClipScript
