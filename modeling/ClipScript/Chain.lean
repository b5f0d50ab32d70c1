/-
Chains as calls: `a.f(b)` stands for `f(a, b)`, and `x .= f(b)` for `x = f(x, b)`.

`unchain` replaces every chain in a tree by the call it stands for.  A chain headed by a bare name
is kept, because the name may turn out to be a plugin when the chain is reached; `unchainAs` and
`pluginCall` are the two ways it can go then.
-/
import ClipScript.Fault

namespace ClipScript
namespace Node

mutual

def unchain : Node → Except Fault Node
  | leaf s v => .ok (leaf s v)
  | importName s name => .ok (importName s name)
  | chain s (leaf t (.identifier name)) link => .ok (chain s (leaf t (.identifier name)) link)
  | chain s value link => do pipe s (← value.unchain) link
  | assign s target .chain link => do
    return assign s target .assign (← pipe s (← target.unchain) link)
  | assign s target op value => return assign s target op (← value.unchain)
  | sequence s body => return sequence s (← unchainAll body)
  | binary s op lhs rhs => return binary s op (← lhs.unchain) (← rhs.unchain)
  | unary s op operand => return unary s op (← operand.unchain)
  | ternary s condition yes no =>
    return ternary s (← condition.unchain) (← yes.unchain) (← no.unchain)
  | call s callee args => return call s callee (← unchainArgs args)
  | functionDef s name params body => return functionDef s name params (← body.unchain)
  | defaultValue s name value => return defaultValue s name (← value.unchain)
  | returnValue s none => .ok (returnValue s none)
  | returnValue s (some value) => return returnValue s (some (← value.unchain))
  | ifElse s condition yes none => return ifElse s (← condition.unchain) (← yes.unchain) none
  | ifElse s condition yes (some no) =>
    return ifElse s (← condition.unchain) (← yes.unchain) (some (← no.unchain))

/-- Lets `value`, which holds no more chains, flow into a link.  Every call made on the way gets the
span of the whole chain. -/
def pipe (span : Span) (value : Node) : Node → Except Fault Node
  | call _ callee args => return call span callee (⟨none, value⟩ :: (← unchainArgs args))
  | leaf _ (.identifier name) => .ok (call span (.named name) [⟨none, value⟩])
  | chain _ first rest => do pipe span (← pipe span value first) rest
  | other => .error (.notCallable other.kindName)

def unchainAll : List Node → Except Fault (List Node)
  | [] => .ok []
  | node :: rest => return (← node.unchain) :: (← unchainAll rest)

def unchainArgs : List (Labelled Node) → Except Fault (List (Labelled Node))
  | [] => .ok []
  | ⟨label, value⟩ :: rest => return ⟨label, ← value.unchain⟩ :: (← unchainArgs rest)

end

def unchainAs (span : Span) (value link : Node) : Except Fault Node := do
  pipe span (← value.unchain) link

/-- The call that a chain stands for when its head is the name of a plugin: the first link is a
function of the plugin and gets no extra argument, and its result flows into the other links.  Any
other first link is taken as in an ordinary chain, with the name itself as the value. -/
def pluginCall (owner : String) (span : Span) : Node → Except Fault Node
  | call _ (.named function) args =>
    return call span (.plugin owner function) (← unchainArgs args)
  | leaf _ (.identifier function) => .ok (call span (.plugin owner function) [])
  | chain _ first rest => do pipe span (← pluginCall owner span first) rest
  | other => unchainAs span (identifier span owner) other

end Node
end ClipScript
