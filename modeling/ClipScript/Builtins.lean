/-
The functions that every script can call: `print`, `typeof`, `str` and `assert`.
-/
import ClipScript.Scope

namespace ClipScript
namespace Builtins

def print : Native := fun args =>
  .andThen (args.checkCount 1) fun _ =>
  .andThen (args.value 0) fun v =>
  if v.isStorable then .message v.text (.value .void) else .fail (.notAValue v.kind)

def typeof : Native := fun args =>
  .andThen (args.checkCount 1) fun _ =>
  .andThen (args.value 0) fun v =>
  .value (.string v.kind.name)

def str : Native := fun args =>
  .andThen (args.checkCount 1) fun _ =>
  .andThen (args.value 0) fun v =>
  match v.kind with
  | .number | .boolean | .string => .value (.string v.text)
  | kind => .fail (.notShowable kind)

def assert : Native := fun args =>
  .andThen (args.checkKinds [.boolean]) fun _ =>
  .andThen (args.optionString "message") fun message =>
  .andThen (args.boolean 0) fun holds =>
  if holds then .value .void else .fail (.assertion message)

def all : List (String × Native) :=
  [("print", print), ("typeof", typeof), ("str", str), ("assert", assert)]

end Builtins

def Scopes.defineCore (s : Scopes) (name : String) (native : Native) : Scopes :=
  s.define .global name (.core name native)

def Scopes.initial : Scopes :=
  Builtins.all.foldl (fun s (name, native) => s.defineCore name native) .start

end ClipScript
