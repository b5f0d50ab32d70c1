/-
Spans: the stretch of a script that a token, a node or an error stands for.

A span is a range of bytes together with the line and column of its first character.  The line
and the column are kept rather than recomputed because a span outlives the text it points into.
-/
namespace ClipScript

/-- A range of bytes and the place of its first character.  Lines and columns count from one, and
the all-zero span stands for no place at all. -/
structure Span where
  start : Nat := 0
  stop : Nat := 0
  line : Nat := 0
  column : Nat := 0
deriving DecidableEq, Repr, Inhabited

namespace Span

def nowhere : Span := {}

/-- The smallest span over both.  It keeps the place of whichever starts first, and of two that
start together the left one. -/
def merge (a b : Span) : Span :=
  let first := if a.start ≤ b.start then a else b
  { start := first.start, stop := max a.stop b.stop, line := first.line, column := first.column }

theorem start_merge (a b : Span) : (a.merge b).start = min a.start b.start := by
  simp only [merge]
  split <;> omega

theorem stop_merge (a b : Span) : (a.merge b).stop = max a.stop b.stop := rfl

end Span
end ClipScript
