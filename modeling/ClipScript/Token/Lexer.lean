/-
The lexer: from the text of a script to its tokens.

`scan` looks at the head of a text and says what stands there: a piece of trivia, a token, or
something that cannot be read.  Each answer carries the characters it took and the characters it
left, so `lexFrom` needs no index: positions follow from moving over what was taken, and the loop
ends because the rest is shorter (`length_rest_lt`).
-/
import ClipScript.Token
import ClipScript.Text.Blank
import ClipScript.Text.Position

namespace ClipScript

inductive LexFault where
  | unexpectedChar (c : Char)
  | unterminatedString
  | unterminatedComment
  | invalidNumber
  | nonAsciiNameChar (c : Char)
deriving DecidableEq, Repr

def LexFault.message : LexFault → String
  | unexpectedChar c => "unexpected character `" ++ c.toString ++ "`"
  | unterminatedString => "unterminated string literal"
  | unterminatedComment => "unterminated block comment"
  | invalidNumber => "invalid numeric literal"
  | nonAsciiNameChar c => "non-ASCII identifier character `" ++ c.toString ++ "`"

structure LexError where
  fault : LexFault
  span : Span
deriving DecidableEq, Repr

namespace Lexer

/-! ## Character classes -/

def isNameStart (c : Char) : Bool := c == '_' || c.isAlpha

def isNameChar (c : Char) : Bool := isNameStart c || c.isDigit

def isAscii (c : Char) : Bool := c.toNat < 128

def isDigitChar (c : Char) : Bool := c.isDigit || c == '_'

/-! ## What stands at the head of a text -/

/-- What stands at the head of a text.  `taken` is what was read and `rest` what follows it.  A
fault lies in `taken`, behind what was read `before` it. -/
inductive Scan where
  | finished
  | trivia (taken rest : List Char)
  | token (kind : TokenKind) (taken rest : List Char)
  | stuck (fault : LexFault) (before taken : List Char)

def lineComment (text : List Char) : Scan :=
  let line := text.takeWhile (· != '\n')
  match text.dropWhile (· != '\n') with
  | [] => .trivia line []
  | c :: rest => .trivia (line ++ [c]) rest

def closeComment : List Char → Option (List Char × List Char)
  | [] => none
  | '*' :: '/' :: rest => some (['*', '/'], rest)
  | c :: rest => (closeComment rest).map fun (taken, rest) => (c :: taken, rest)

/-- A comment that has to be closed.  An open one is reported at its two opening characters. -/
def blockComment (opening body : List Char) : Scan :=
  match closeComment body with
  | some (taken, rest) => .trivia (opening ++ taken) rest
  | none => .stuck .unterminatedComment [] opening

def name (text : List Char) : Scan :=
  let taken := text.takeWhile isNameChar
  match taken.dropWhile isAscii with
  | c :: _ => .stuck (.nonAsciiNameChar c) (taken.takeWhile isAscii) [c]
  | [] =>
    let word := String.ofList taken
    let kind := match Keyword.ofText? word with
      | some keyword => .keyword keyword
      | none => .identifier word
    .token kind taken (text.dropWhile isNameChar)

def digits (taken : List Char) : List Char := taken.filter (· != '_')

def numeral (literal taken rest : List Char) : Scan :=
  if literal.isEmpty then .stuck .invalidNumber [] taken
  else .token (.number (String.ofList literal)) taken rest

/-- A number.  A point belongs to it only if a digit follows: `3.f()` is a chain that starts at
the number 3. -/
def number (text : List Char) : Scan :=
  let whole := text.takeWhile isDigitChar
  match text.dropWhile isDigitChar with
  | '.' :: d :: rest =>
    if d.isDigit then
      let fraction := (d :: rest).takeWhile isDigitChar
      numeral (digits whole ++ '.' :: digits fraction) (whole ++ '.' :: fraction)
        ((d :: rest).dropWhile isDigitChar)
    else numeral (digits whole) whole ('.' :: d :: rest)
  | rest => numeral (digits whole) whole rest

def unescape : Char → Char
  | 'n' => '\n'
  | 'r' => '\r'
  | 't' => '\t'
  | c => c

/-- The value of a string up to its closing quote, the characters it was written with, and what
follows the quote. -/
def stringBody : List Char → Option (List Char × List Char × List Char)
  | [] => none
  | '"' :: rest => some ([], ['"'], rest)
  | '\\' :: c :: rest =>
    (stringBody rest).map fun (value, taken, rest) =>
      (unescape c :: value, '\\' :: c :: taken, rest)
  | c :: rest => (stringBody rest).map fun (value, taken, rest) => (c :: value, c :: taken, rest)

def string (body : List Char) : Scan :=
  match stringBody body with
  | some (value, taken, rest) => .token (.string (String.ofList value)) ('"' :: taken) rest
  | none => .stuck .unterminatedString [] ('"' :: body)

def symbol (c : Char) (rest : List Char) : Scan :=
  let single := match Symbol.ofChar? c with
    | some s => .token (.symbol s) [c] rest
    | none => .stuck (.unexpectedChar c) [] [c]
  match rest with
  | d :: rest =>
    match Symbol.ofPair? c d with
    | some s => .token (.symbol s) [c, d] rest
    | none => single
  | [] => single

def scan : List Char → Scan
  | [] => .finished
  | '/' :: '/' :: rest => lineComment ('/' :: '/' :: rest)
  | '/' :: '*' :: rest => blockComment ['/', '*'] rest
  | c :: rest =>
    if Text.isBlank c then .trivia [c] rest
    else if c == '#' then lineComment (c :: rest)
    else if isNameStart c then name (c :: rest)
    else if c.isDigit then number (c :: rest)
    else if c == '"' then string rest
    else symbol c rest

/-! ## Nothing is lost -/

def Scan.Splits (text : List Char) : Scan → Prop
  | .finished => text = []
  | .trivia taken rest | .token _ taken rest => taken ≠ [] ∧ taken ++ rest = text
  | .stuck _ before taken => taken ≠ [] ∧ before ++ taken <+: text

theorem splits_lineComment {c : Char} {rest : List Char} (h : c ≠ '\n') :
    (lineComment (c :: rest)).Splits (c :: rest) := by
  have joined := List.takeWhile_append_dropWhile (p := (· != '\n')) (l := c :: rest)
  have head : (c :: rest).takeWhile (· != '\n') ≠ [] := by simp [h]
  unfold lineComment
  split
  · next e => rw [e] at joined; exact ⟨head, joined⟩
  · next e => rw [e] at joined; exact ⟨by simp, by simpa using joined⟩

theorem append_of_closeComment {body taken rest : List Char}
    (h : closeComment body = some (taken, rest)) : taken ++ rest = body := by
  fun_induction closeComment body generalizing taken rest with
  | case1 => simp at h
  | case2 r => simp only [Option.some.injEq, Prod.mk.injEq] at h; obtain ⟨rfl, rfl⟩ := h; rfl
  | case3 c r _ ih =>
    obtain ⟨⟨t, u⟩, hu, e⟩ := Option.map_eq_some_iff.1 h
    obtain ⟨rfl, rfl⟩ := Prod.mk.inj e
    simp [ih hu]

theorem append_of_stringBody {body value taken rest : List Char}
    (h : stringBody body = some (value, taken, rest)) : taken ++ rest = body := by
  fun_induction stringBody body generalizing value taken rest with
  | case1 => simp at h
  | case2 r => simp only [Option.some.injEq, Prod.mk.injEq] at h; obtain ⟨-, rfl, rfl⟩ := h; rfl
  | case3 c r ih =>
    obtain ⟨⟨v, t, u⟩, hu, e⟩ := Option.map_eq_some_iff.1 h
    obtain ⟨-, rfl, rfl⟩ := Prod.mk.inj e |>.imp_right Prod.mk.inj
    simp [ih hu]
  | case4 c r _ _ ih =>
    obtain ⟨⟨v, t, u⟩, hu, e⟩ := Option.map_eq_some_iff.1 h
    obtain ⟨-, rfl, rfl⟩ := Prod.mk.inj e |>.imp_right Prod.mk.inj
    simp [ih hu]

theorem splits_blockComment (rest : List Char) :
    (blockComment ['/', '*'] rest).Splits ('/' :: '*' :: rest) := by
  unfold blockComment
  split
  · next taken rest h => exact ⟨by simp, by simp [append_of_closeComment h]⟩
  · exact ⟨by simp, rest, rfl⟩

theorem splits_name {c : Char} {rest : List Char} (h : isNameStart c = true) :
    (name (c :: rest)).Splits (c :: rest) := by
  unfold name
  dsimp only
  split
  · next d more hdrop =>
    refine ⟨List.cons_ne_nil _ _, .trans ⟨more, ?_⟩ (List.takeWhile_prefix isNameChar)⟩
    rw [List.append_assoc, List.singleton_append, ← hdrop, List.takeWhile_append_dropWhile]
  · exact ⟨by simp [isNameChar, h], List.takeWhile_append_dropWhile⟩

theorem splits_numeral {literal taken rest text : List Char} (h : taken ≠ [])
    (happend : taken ++ rest = text) : (numeral literal taken rest).Splits text := by
  unfold numeral
  split
  · exact ⟨h, rest, happend⟩
  · exact ⟨h, happend⟩

theorem splits_number {c : Char} {rest : List Char} (h : c.isDigit = true) :
    (number (c :: rest)).Splits (c :: rest) := by
  have head : (c :: rest).takeWhile isDigitChar ≠ [] := by simp [isDigitChar, h]
  have joined := List.takeWhile_append_dropWhile (p := isDigitChar) (l := c :: rest)
  unfold number
  split
  · next d r e =>
    rw [e] at joined
    split
    · refine splits_numeral (by simp) ?_
      rw [List.append_assoc, List.cons_append, List.takeWhile_append_dropWhile]
      exact joined
    · exact splits_numeral head joined
  · exact splits_numeral head joined

theorem splits_string (rest : List Char) : (string rest).Splits ('"' :: rest) := by
  unfold string
  split
  · next h => exact ⟨by simp, by simp [append_of_stringBody h]⟩
  · exact ⟨by simp, [], by simp⟩

theorem splits_symbol (c : Char) (rest : List Char) : (symbol c rest).Splits (c :: rest) := by
  unfold symbol
  dsimp only
  split
  · split
    · exact ⟨by simp, rfl⟩
    · split
      · exact ⟨by simp, rfl⟩
      · exact ⟨by simp, _, rfl⟩
  · split
    · exact ⟨by simp, rfl⟩
    · exact ⟨by simp, _, rfl⟩

theorem splits_scan (text : List Char) : (scan text).Splits text := by
  unfold scan
  split
  · rfl
  · exact splits_lineComment (by decide)
  · exact splits_blockComment _
  · next c rest _ _ =>
    split
    · exact ⟨by simp, rfl⟩
    · split
      · next h => rw [beq_iff_eq] at h; subst h; exact splits_lineComment (by decide)
      · split
        · next h => exact splits_name h
        · split
          · next h => exact splits_number h
          · split
            · next h => rw [beq_iff_eq] at h; subst h; exact splits_string rest
            · exact splits_symbol c rest

theorem length_rest_lt {text taken rest : List Char} (h : taken ≠ [] ∧ taken ++ rest = text) :
    rest.length < text.length := by
  obtain ⟨ne, rfl⟩ := h
  have := List.length_pos_iff.2 ne
  simp only [List.length_append]
  omega

/-! ## The whole text -/

def lexFrom (place : Text.Position) (text : List Char) : Except LexError (List Token) :=
  match h : scan text with
  | .finished => .ok [⟨.eof, place.span []⟩]
  | .trivia taken rest =>
    have : rest.length < text.length := length_rest_lt (h ▸ splits_scan text)
    lexFrom (place.after taken) rest
  | .token kind taken rest =>
    have : rest.length < text.length := length_rest_lt (h ▸ splits_scan text)
    match lexFrom (place.after taken) rest with
    | .ok tokens => .ok (⟨kind, place.span taken⟩ :: tokens)
    | .error e => .error e
  | .stuck fault before taken => .error ⟨fault, (place.after before).span taken⟩
termination_by text.length

/-- A byte order mark at the very start is skipped, though it counts as a column. -/
def byteOrderMark : Char := '\uFEFF'

def lex (source : String) : Except LexError (List Token) :=
  match source.toList with
  | [] => lexFrom .start []
  | c :: rest =>
    if c == byteOrderMark then lexFrom (Text.Position.start.next c) rest
    else lexFrom .start (c :: rest)

end Lexer
end ClipScript
