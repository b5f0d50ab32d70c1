/-
Positions: where a reader of a script stands.

A position counts bytes, lines and characters at once.  Everything the lexer says about places is
computed by moving a position over the text that was read, so a place is accurate as soon as the
text is.
-/
import ClipScript.Span

namespace ClipScript
namespace Text

structure Position where
  offset : Nat
  line : Nat
  column : Nat
deriving DecidableEq, Repr, Inhabited

namespace Position

def start : Position := ⟨0, 1, 1⟩

/-- The place after `c`.  Only a line feed begins a new line. -/
def next (p : Position) (c : Char) : Position :=
  if c = '\n' then ⟨p.offset + c.utf8Size, p.line + 1, 1⟩
  else ⟨p.offset + c.utf8Size, p.line, p.column + 1⟩

def after (p : Position) (text : List Char) : Position := text.foldl next p

def span (p : Position) (text : List Char) : Span :=
  { start := p.offset, stop := (p.after text).offset, line := p.line, column := p.column }

@[simp] theorem after_nil (p : Position) : p.after [] = p := rfl

@[simp] theorem after_cons (p : Position) (c : Char) (text : List Char) :
    p.after (c :: text) = (p.next c).after text := rfl

theorem after_append (p : Position) (s t : List Char) :
    p.after (s ++ t) = (p.after s).after t := List.foldl_append

end Position
end Text
end ClipScript
