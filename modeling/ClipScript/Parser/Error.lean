/-
Why a list of tokens is not a script.
-/
import ClipScript.Token

namespace ClipScript

inductive Expectation where
  | symbol (symbol : Symbol)
  | expression
  | functionName
  | parameterName
  | parameterType
  | importName
deriving DecidableEq, Repr

def Expectation.text : Expectation → String
  | symbol s => "'" ++ s.text ++ "'"
  | expression => "expression"
  | functionName => "function name"
  | parameterName => "parameter name"
  | parameterType => "parameter type"
  | importName => "plugin or script name"

inductive GrammarFault where
  | unexpectedToken (expected : Expectation) (found : TokenKind)
  | invalidNumber (digits : String)
  | argumentOrder
  | parameterOrder (function : String)
deriving DecidableEq, Repr

def GrammarFault.message : GrammarFault → String
  | unexpectedToken expected found =>
    "unexpected " ++ found.describe ++ ", expected " ++ expected.text
  | invalidNumber digits => "invalid number literal `" ++ digits ++ "`"
  | argumentOrder => "optional arguments must follow mandatory arguments"
  | parameterOrder function =>
    "optional parameters must follow mandatory parameters in function " ++ function

structure ParseError where
  fault : GrammarFault
  span : Span
deriving DecidableEq, Repr

end ClipScript
