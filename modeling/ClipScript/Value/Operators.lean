/-
Operators on values.

Arithmetic asks for numbers, left operand first.  Every other binary operator first asks for two
values of one kind and only then whether it is defined for that kind.
-/
import ClipScript.Fault

namespace ClipScript

/-- The remainder of two numbers cut to whole 64-bit ones, with the sign of the left.  Numbers out
of range are cut to the nearest end of the range and a NaN to zero.  It is not a number when the
divisor is zero or when the quotient would overflow. -/
def truncatedRemainder (a b : Float) : Float :=
  let a := a.toInt64
  let b := b.toInt64
  if b == 0 || (a == Int64.minValue && b == -1) then 0.0 / 0.0 else (a % b).toFloat

def Arithmetic.apply (op : Arithmetic) (a b : Float) : Float :=
  match op with
  | add => a + b
  | sub => a - b
  | mul => a * b
  | div => a / b
  | pow => a.pow b
  | mod => truncatedRemainder a b

namespace Value

def arithmetic (op : Arithmetic) (lhs rhs : Value) : Except Fault Value :=
  match lhs, rhs with
  | number a, number b => .ok (number (op.apply a b))
  | number _, rhs => .error (.arithmeticOperand .right op rhs.kind)
  | lhs, _ => .error (.arithmeticOperand .left op lhs.kind)

def concat (lhs rhs : Value) : Except Fault Value :=
  if lhs.kind ≠ rhs.kind then .error (.concatMixed lhs.kind rhs.kind)
  else match lhs, rhs with
    | string a, string b => .ok (string (a ++ b))
    | clip _, _ => .error .concatClips
    | lhs, _ => .error (.concatUndefined lhs.kind)

def compare? : Comparison → Value → Value → Option Bool
  | .equal, number a, number b => some (a == b)
  | .notEqual, number a, number b => some (a != b)
  | .less, number a, number b => some (a < b)
  | .lessEqual, number a, number b => some (a ≤ b)
  | .greater, number a, number b => some (b < a)
  | .greaterEqual, number a, number b => some (b ≤ a)
  | .equal, boolean a, boolean b => some (a == b)
  | .notEqual, boolean a, boolean b => some (a != b)
  | .and, boolean a, boolean b => some (a && b)
  | .or, boolean a, boolean b => some (a || b)
  | .equal, string a, string b => some (a == b)
  | .notEqual, string a, string b => some (a != b)
  | _, _, _ => none

def compareFault (op : Comparison) (kind : ValueKind) : Fault :=
  match kind with
  | .clip | .void => .compareUnsupported kind
  | _ => .compareUndefined op kind

def comparison (op : Comparison) (lhs rhs : Value) : Except Fault Value :=
  if lhs.kind ≠ rhs.kind then .error (.compareMixed lhs.kind rhs.kind)
  else match compare? op lhs rhs with
    | some b => .ok (boolean b)
    | none => .error (compareFault op lhs.kind)

def binary (op : BinaryOp) (lhs rhs : Value) : Except Fault Value :=
  match op with
  | .arithmetic op => arithmetic op lhs rhs
  | .concat => concat lhs rhs
  | .comparison op => comparison op lhs rhs

def unary (op : UnaryOp) (operand : Value) : Except Fault Value :=
  match op, operand with
  | .negate, number n => .ok (number (-n))
  | .not, boolean b => .ok (boolean !b)
  | op, operand => .error (.unaryOperand op operand.kind)

theorem isStorable_of_binary {op : BinaryOp} {lhs rhs v : Value} (h : binary op lhs rhs = .ok v) :
    v.isStorable = true := by
  cases op with
  | arithmetic op =>
    simp only [binary, arithmetic] at h
    split at h <;> cases h
    rfl
  | concat =>
    simp only [binary, concat] at h
    split at h
    · cases h
    · split at h <;> cases h
      rfl
  | comparison op =>
    simp only [binary, comparison] at h
    split at h
    · cases h
    · split at h <;> cases h
      rfl

theorem isStorable_of_unary {op : UnaryOp} {operand v : Value} (h : unary op operand = .ok v) :
    v.isStorable = true := by
  unfold unary at h
  split at h <;> cases h <;> rfl

end Value
end ClipScript
