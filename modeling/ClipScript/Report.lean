/-
Reports: what a run tells its user.

Messages and warnings are recorded while a script runs and worded only when they are shown.  A
fatal error is one line, and an error in the grammar also shows the offending row of the script
with a caret under it.
-/
import ClipScript.Fault

namespace ClipScript

def programName : String := "delbrot"

def versionNumber : String := "0.1.0"

def version : String := programName ++ " v" ++ versionNumber

inductive Report where
  | message (text : String)
  | warning (line : Nat) (function : Option String) (text : String)
deriving DecidableEq, Repr

/-! ## Colours -/

inductive Colour where
  | red | yellow | cyan
deriving DecidableEq, Repr

def Colour.code : Colour → String
  | red => "\x1b[31m"
  | yellow => "\x1b[33m"
  | cyan => "\x1b[36m"

def Colour.paint (colour : Colour) (wanted : Bool) (text : String) : String :=
  if wanted then colour.code ++ text ++ "\x1b[0m" else text

/-! ## Lines -/

def functionLabel : Option String → String
  | some name => if name.isEmpty then "" else name ++ ": "
  | none => ""

namespace Report

def warningLine (line : Nat) (function : Option String) (text : String) (colour : Bool) : String :=
  Colour.yellow.paint colour
    (programName ++ ":" ++ toString line ++ " warning: " ++ functionLabel function ++ text)

def messageLine (text : String) (colour : Bool) : String := Colour.cyan.paint colour text

def message? : Report → Option String
  | message text => some text
  | warning _ _ _ => none

def warning? (colour : Bool) : Report → Option String
  | warning line function text => some (warningLine line function text colour)
  | message _ => none

end Report

namespace RuntimeError

def fatalLine (e : RuntimeError) (colour : Bool) : String :=
  let place := match e.line with
    | some line => ":" ++ toString line ++ " error: "
    | none => ": error: "
  Colour.red.paint colour
    (programName ++ place ++ functionLabel e.function ++ e.fault.message)

def summary (e : RuntimeError) : String := e.fault.kind.text ++ ": " ++ e.fault.message

end RuntimeError

/-! ## Snippets -/

namespace Snippet

def afterLines : Nat → List Char → List Char
  | 0, text => text
  | n + 1, text =>
    match text.dropWhile (· != '\n') with
    | [] => []
    | _ :: rest => afterLines n rest

/-- A row of a text, counted from one.  A carriage return right before the line feed is not part
of the row, and a row that does not exist is empty. -/
def row (text : List Char) (line : Nat) : List Char :=
  let text := afterLines (line - 1) text
  let row := text.takeWhile (· != '\n')
  if (text.dropWhile (· != '\n')).isEmpty then row
  else if row.getLast? = some '\r' then row.dropLast else row

def lineLabel (line : Nat) : String :=
  let digits := (toString line).toList
  String.ofList (List.replicate (4 - digits.length) ' ' ++ digits)

/-- How many carets mark a span: one for each of its bytes, as far as the row reaches, and at least
one. -/
def caretCount (row : List Char) (span : Span) : Nat :=
  min (max 1 (span.stop - span.start))
    (max 1 ((String.ofList row).utf8ByteSize - (span.column - 1)))

def caretRow (row : List Char) (span : Span) : List Char :=
  List.replicate (span.column - 1) ' ' ++ List.replicate (caretCount row span) '^'

end Snippet

def snippet (source : String) (span : Span) : String :=
  let row := Snippet.row source.toList span.line
  " --> line " ++ toString span.line ++ ", column " ++ toString span.column ++ "\n"
    ++ Snippet.lineLabel span.line ++ " | " ++ String.ofList row ++ "\n"
    ++ "     | " ++ String.ofList (Snippet.caretRow row span)

def RuntimeError.snippet? (e : RuntimeError) (source : String) : Option String :=
  if e.fault.kind = .grammar then e.span.map (snippet source) else none

end ClipScript
