/-
Scripts: from text to a program.
-/
import ClipScript.Fault
import ClipScript.Parser.Statement

namespace ClipScript

/-- The script that a text spells.  Errors carry their place and no function, since nothing is
running while a text is read. -/
def Program.ofSource (source : String) : Except RuntimeError Program :=
  match Lexer.lex source with
  | .error e => .error (.ofLex e)
  | .ok tokens =>
    match Program.ofTokens tokens with
    | .error e => .error (.ofParse e)
    | .ok program => .ok program

end ClipScript
