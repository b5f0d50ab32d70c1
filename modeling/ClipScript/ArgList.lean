/-
Argument lists: the evaluated arguments of a call.

Unnamed arguments come first and named ones after them.  The two are kept apart, so the order is a
matter of type, and `push` is the only place that can refuse an argument.
-/
import ClipScript.Fault

namespace ClipScript

structure ArgList where
  unnamed : List Value := []
  named : List (String × Value) := []
deriving Repr, Inhabited

namespace ArgList

def empty : ArgList := {}

def ofValues (values : List Value) : ArgList := { unnamed := values }

/-- Adds an argument at the end.  An unnamed one cannot follow a named one. -/
def push (args : ArgList) (label : Option String) (value : Value) : Except Fault ArgList :=
  match label with
  | some name => .ok { args with named := args.named ++ [(name, value)] }
  | none =>
    if args.named.isEmpty then .ok { args with unnamed := args.unnamed ++ [value] }
    else .error .argumentOrder

def toList (args : ArgList) : List (Labelled Value) :=
  args.unnamed.map (⟨none, ·⟩) ++ args.named.map fun (name, value) => ⟨some name, value⟩

def size (args : ArgList) : Nat := args.unnamed.length + args.named.length

def isEmpty (args : ArgList) : Bool := args.unnamed.isEmpty && args.named.isEmpty

theorem toList_of_push {args more : ArgList} {label : Option String} {value : Value}
    (h : args.push label value = .ok more) : more.toList = args.toList ++ [⟨label, value⟩] := by
  cases label with
  | some name =>
    simp only [push, Except.ok.injEq] at h
    subst h
    simp [toList]
  | none =>
    simp only [push] at h
    split at h
    · next e =>
      simp only [Except.ok.injEq] at h
      subst h
      simp [toList, List.isEmpty_iff.1 e]
    · cases h

theorem length_toList (args : ArgList) : args.toList.length = args.size := by
  simp [toList, size]

/-! ## What native functions ask for -/

def checkCount (args : ArgList) (expected : Nat) : Except Fault Unit :=
  if args.unnamed.length = expected then .ok ()
  else .error (.argumentCount expected args.unnamed.length)

def checkKindsFrom (i : Nat) : List Value → List ValueKind → Except Fault Unit
  | value :: values, kind :: kinds =>
    if value.kind = kind then checkKindsFrom (i + 1) values kinds
    else .error (.argumentMismatch (i + 1) kind value.kind)
  | _, _ => .ok ()

def checkKinds (args : ArgList) (kinds : List ValueKind) : Except Fault Unit := do
  args.checkCount kinds.length
  checkKindsFrom 0 args.unnamed kinds

def value (args : ArgList) (index : Nat) : Except Fault Value :=
  match args.unnamed[index]? with
  | some v => .ok v
  | none => .error (.missingArgument (index + 1))

def typed {β : Type} (args : ArgList) (kind : ValueKind) (view : Value → Option β) (index : Nat) :
    Except Fault β := do
  let v ← args.value index
  match view v with
  | some b => .ok b
  | none => .error (.argumentMismatch (index + 1) kind v.kind)

def number (args : ArgList) (index : Nat) : Except Fault Float :=
  args.typed .number Value.number? index

def boolean (args : ArgList) (index : Nat) : Except Fault Bool :=
  args.typed .boolean Value.boolean? index

def string (args : ArgList) (index : Nat) : Except Fault String :=
  args.typed .string Value.string? index

def clip (args : ArgList) (index : Nat) : Except Fault Clip :=
  args.typed .clip Value.clip? index

/-- The first argument passed under a name, which has to be of a given kind. -/
def option (args : ArgList) (name : String) (kind : ValueKind) : Except Fault (Option Value) :=
  match args.named.lookup name with
  | none => .ok none
  | some v => if v.kind = kind then .ok (some v) else .error (.optionalMismatch name kind v.kind)

def optionNumber (args : ArgList) (name : String) : Except Fault (Option Float) :=
  return (← args.option name .number).bind Value.number?

def optionBoolean (args : ArgList) (name : String) : Except Fault (Option Bool) :=
  return (← args.option name .boolean).bind Value.boolean?

def optionString (args : ArgList) (name : String) : Except Fault (Option String) :=
  return (← args.option name .string).bind Value.string?

def optionClip (args : ArgList) (name : String) : Except Fault (Option Clip) :=
  return (← args.option name .clip).bind Value.clip?

end ArgList
end ClipScript
