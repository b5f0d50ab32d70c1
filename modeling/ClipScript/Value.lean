/-
Values: what expressions compute.

Only numbers, booleans, strings and clips can be stored in a variable.  `void` is the result of a
call that returns nothing, and an identifier is a name that has not been looked up.
-/
import ClipScript.Decimal.Layout

namespace ClipScript

inductive ValueKind where
  | void | number | boolean | string | clip | identifier
deriving DecidableEq, Repr

namespace ValueKind

def name : ValueKind → String
  | void => "void"
  | number => "number"
  | boolean => "boolean"
  | string => "string"
  | clip => "clip"
  | identifier => "identifier"

def isStorable : ValueKind → Bool
  | number | boolean | string | clip => true
  | void | identifier => false

end ValueKind

/-- A handle to a media object.  The library never looks inside: handles with the same label are
the same object. -/
structure Clip where
  label : String
deriving DecidableEq, Repr

inductive Value where
  | void
  | number (n : Float)
  | boolean (b : Bool)
  | string (s : String)
  | clip (c : Clip)
  | identifier (name : String)
deriving Repr, Inhabited

namespace Value

def kind : Value → ValueKind
  | void => .void
  | number _ => .number
  | boolean _ => .boolean
  | string _ => .string
  | clip _ => .clip
  | identifier _ => .identifier

def isStorable (v : Value) : Bool := v.kind.isStorable

def text : Value → String
  | void => "void"
  | number n => Decimal.plain.render n
  | boolean b => if b then "true" else "false"
  | string s => s
  | clip _ => "<clip>"
  | identifier name => name

/-! ## A value seen as one kind -/

def number? : Value → Option Float
  | number n => some n
  | _ => none

def boolean? : Value → Option Bool
  | boolean b => some b
  | _ => none

def string? : Value → Option String
  | string s => some s
  | _ => none

def clip? : Value → Option Clip
  | clip c => some c
  | _ => none

theorem boolean?_eq_some_iff {v : Value} {b : Bool} : v.boolean? = some b ↔ v = .boolean b := by
  cases v <;> simp [boolean?]

theorem string?_eq_some_iff {v : Value} {s : String} : v.string? = some s ↔ v = .string s := by
  cases v <;> simp [string?]

/-! ## Equality -/

/-- Numbers are compared as numbers, so a NaN differs from itself and the two zeros are equal. -/
protected def beq : Value → Value → Bool
  | void, void => true
  | number a, number b => a == b
  | boolean a, boolean b => a == b
  | string a, string b => a == b
  | clip a, clip b => a == b
  | identifier a, identifier b => a == b
  | _, _ => false

instance : BEq Value := ⟨Value.beq⟩

end Value
end ClipScript
