/-
Faults: everything that can stop a script.

A fault is a cause.  Its kind and its wording are functions of it, so that no two places can word
one cause differently.  A `RuntimeError` is a fault together with the place it was first
attributed to.
-/
import ClipScript.Token.Lexer
import ClipScript.Parser.Error
import ClipScript.Node

namespace ClipScript

inductive ErrorKind where
  | type | arity | argumentOrder | unknownParameter | name | assignment | grammar | configuration
  | outOfMemory | io
deriving DecidableEq, Repr

def ErrorKind.text : ErrorKind → String
  | type => "TypeError"
  | arity => "ArityError"
  | argumentOrder => "ArgumentOrderError"
  | unknownParameter => "UnknownParameterError"
  | name => "NameError"
  | assignment => "AssignmentError"
  | grammar => "SyntaxError"
  | configuration => "ConfigurationError"
  | outOfMemory => "OutOfMemoryError"
  | io => "IoError"

inductive Side where
  | left | right
deriving DecidableEq, Repr

def Side.text : Side → String
  | left => "LHS"
  | right => "RHS"

inductive Fault where
  -- reading a script
  | lexical (fault : LexFault)
  | grammatical (fault : GrammarFault)
  | notCallable (what : String)
  -- operators and conditions
  | unaryOperand (op : UnaryOp) (got : ValueKind)
  | arithmeticOperand (side : Side) (op : Arithmetic) (got : ValueKind)
  | concatMixed (lhs rhs : ValueKind)
  | concatClips
  | concatUndefined (kind : ValueKind)
  | compareMixed (lhs rhs : ValueKind)
  | compareUnsupported (kind : ValueKind)
  | compareUndefined (op : Comparison) (kind : ValueKind)
  | ternaryCondition (got : ValueKind)
  | ifCondition (got : ValueKind)
  -- names and variables
  | undefinedName (name : String)
  | undefinedFunction (name : String)
  | notAFunction (name : String) (kind : ValueKind)
  | constantTarget (what : String)
  | unstorable (kind : ValueKind)
  | defaultOutsideFunction
  | defaultOfMandatory (name : String)
  | defaultOfUndefined (name : String)
  -- arguments and parameters
  | argumentOrder
  | parameterOrder (function : String)
  | mandatoryCount (expected given : Nat)
  | argumentCount (expected given : Nat)
  | parameterMismatch (position : Nat) (function : String) (expected got : ValueKind)
  | argumentMismatch (position : Nat) (expected got : ValueKind)
  | optionalMismatch (name : String) (expected got : ValueKind)
  | unknownOptional (name function : String)
  | missingArgument (position : Nat)
  -- plugins and imports
  | pluginNotLoaded (plugin : String)
  | pluginFunctionMissing (plugin function : String)
  | pluginUnloadable (plugin reason : String)
  | importAmbiguous (name : String)
  | importMissing (name : String)
  | importCycle (name : String)
  | scriptUnreadable (path reason : String)
  -- native functions
  | notAValue (got : ValueKind)
  | notShowable (got : ValueKind)
  | assertion (message : Option String)
  | raised (kind : ErrorKind) (message : String)
deriving DecidableEq, Repr

namespace Fault

def kind : Fault → ErrorKind
  | grammatical .argumentOrder | grammatical (.parameterOrder _) | argumentOrder
  | parameterOrder _ => .argumentOrder
  | lexical _ | grammatical _ | notCallable _ | defaultOutsideFunction => .grammar
  | unaryOperand _ _ | arithmeticOperand _ _ _ | concatMixed _ _ | concatClips | concatUndefined _
  | compareMixed _ _ | compareUnsupported _ | compareUndefined _ _ | ternaryCondition _
  | ifCondition _ | notAFunction _ _ | unstorable _ | parameterMismatch _ _ _ _
  | argumentMismatch _ _ _ | optionalMismatch _ _ _ | notAValue _ | notShowable _
  | assertion _ => .type
  | undefinedName _ | undefinedFunction _ | pluginNotLoaded _ | pluginFunctionMissing _ _ => .name
  | constantTarget _ => .assignment
  | defaultOfMandatory _ | defaultOfUndefined _ | unknownOptional _ _ => .unknownParameter
  | mandatoryCount _ _ | argumentCount _ _ | missingArgument _ => .arity
  | pluginUnloadable _ _ | importAmbiguous _ | importMissing _ | importCycle _ => .configuration
  | scriptUnreadable _ _ => .io
  | raised kind _ => kind

def named (name : String) : String := "\"" ++ name ++ "\""

def plural (n : Nat) : String := if n = 1 then "" else "s"

def expectedGot (expected : String) (got : ValueKind) : String :=
  "expected " ++ expected ++ ", got " ++ got.name

def message : Fault → String
  | lexical fault => fault.message
  | grammatical fault => fault.message
  | notCallable what => "expected function name, got " ++ what
  | unaryOperand .negate got => "- " ++ expectedGot "number" got
  | unaryOperand .not got => "! " ++ expectedGot "boolean" got
  | arithmeticOperand side op got =>
    "type mismatch: " ++ side.text ++ " of " ++ op.symbol.text ++ " " ++ expectedGot "number" got
  | concatMixed lhs rhs =>
    "type mismatch: cannot concatenate " ++ lhs.name ++ " with " ++ rhs.name
  | concatClips => "clip concatenation is not supported (yet)"
  | concatUndefined kind => "the concatenation operator is not defined on " ++ kind.name ++ "s"
  | compareMixed lhs rhs => "type mismatch: cannot compare " ++ lhs.name ++ " to " ++ rhs.name
  | compareUnsupported kind =>
    "comparison operators are not supported for " ++ kind.name ++ "s (yet)"
  | compareUndefined op kind =>
    "type mismatch: operator " ++ op.symbol.text ++ " is not defined for " ++ kind.name ++ "s"
  | ternaryCondition got => "arg 1 of ?| " ++ expectedGot "boolean" got
  | ifCondition got => "if " ++ expectedGot "boolean" got
  | undefinedName name => "reference to undefined variable or function " ++ named name
  | undefinedFunction name => "reference to undefined function " ++ named name
  | notAFunction name kind => named name ++ " is a " ++ kind.name ++ ", not a function"
  | constantTarget what => "invalid assignment: can't assign to constant type " ++ what
  | unstorable kind => "invalid assignment: can't assign type " ++ kind.name ++ " to variable"
  | defaultOutsideFunction => "can't set defaults outside of function body"
  | defaultOfMandatory name => "could not set default of mandatory parameter " ++ name
  | defaultOfUndefined name => "could not set default of undefined parameter " ++ name
  | argumentOrder => GrammarFault.message .argumentOrder
  | parameterOrder function => GrammarFault.message (.parameterOrder function)
  | mandatoryCount expected given =>
    "expected " ++ toString expected ++ " mandatory argument" ++ plural expected ++ ", got "
      ++ toString given
  | argumentCount expected given =>
    "expected " ++ toString expected ++ " argument" ++ plural expected ++ ", got " ++ toString given
  | parameterMismatch position function expected got =>
    "type mismatch: arg " ++ toString position ++ " of " ++ function ++ " "
      ++ expectedGot expected.name got
  | argumentMismatch position expected got =>
    "arg " ++ toString position ++ " " ++ expectedGot expected.name got
  | optionalMismatch name expected got =>
    "type mismatch: optional argument " ++ named name ++ " " ++ expectedGot expected.name got
  | unknownOptional name function =>
    name ++ " is not an optional parameter of function " ++ function
  | missingArgument position => "missing argument " ++ toString position
  | pluginNotLoaded plugin => "plugin " ++ named plugin ++ " not loaded"
  | pluginFunctionMissing plugin function =>
    "function " ++ named function ++ " not found in plugin " ++ plugin
  | pluginUnloadable plugin reason => "could not load plugin " ++ named plugin ++ ": " ++ reason
  | importAmbiguous name =>
    "both a script and a plugin with name " ++ named name ++ " exist: rename or remove one of them"
  | importMissing name => "could not load script or plugin " ++ named name ++ ": file not found"
  | importCycle name => "script " ++ named name ++ " is already being imported"
  | scriptUnreadable path reason => "could not read script " ++ named path ++ ": " ++ reason
  | notAValue got => "arg 1 " ++ expectedGot "a value" got
  | notShowable got => "arg 1 " ++ expectedGot "number or boolean" got
  | assertion message => message.getD "assertion failed"
  | raised _ message => message

end Fault

/-- Where an error was first attributed: a place, and the function that was running there. -/
structure Origin where
  span : Span
  function : Option String
deriving DecidableEq, Repr

structure RuntimeError where
  fault : Fault
  origin : Option Origin := none
deriving DecidableEq, Repr

namespace RuntimeError

/-- Attributes an error to a place.  The first attribution stays. -/
def located (e : RuntimeError) (span : Span) (function : Option String) : RuntimeError :=
  { e with origin := e.origin.or (some ⟨span, function⟩) }

theorem located_of_isSome {e : RuntimeError} (h : e.origin.isSome) (span : Span)
    (function : Option String) : e.located span function = e := by
  obtain ⟨fault, _ | origin⟩ := e
  · cases h
  · rfl

theorem isSome_origin_located (e : RuntimeError) (span : Span) (function : Option String) :
    (e.located span function).origin.isSome := by
  simp [located]

def span (e : RuntimeError) : Option Span := e.origin.map (·.span)

def line (e : RuntimeError) : Option Nat := e.span.map (·.line)

def function (e : RuntimeError) : Option String := e.origin.bind (·.function)

def ofLex (e : LexError) : RuntimeError := ⟨.lexical e.fault, some ⟨e.span, none⟩⟩

def ofParse (e : ParseError) : RuntimeError := ⟨.grammatical e.fault, some ⟨e.span, none⟩⟩

end RuntimeError
end ClipScript
