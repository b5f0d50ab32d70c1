/-
A coupling turned round.

`Simulates` goes one way: what the first run does, the second does.  To compare two runs both ways
one needs the same comparison with the runs exchanged, and `Coupling.symm` is the coupling for it.
Everything a coupling relates can be turned round, trees of the same form included (`Like.symm`), so
nothing about single operations has to be shown twice.
-/
import ClipScript.Proofs.Coupling.Evaluation

theorem Option.Rel.turned {α β : Type} {r : α → β → Prop} {r' : β → α → Prop}
    (h : ∀ a b, r a b → r' b a) {x : Option α} {y : Option β} (hxy : Option.Rel r x y) :
    Option.Rel r' y x := by
  cases hxy with
  | none => exact .none
  | some hab => exact .some (h _ _ hab)

theorem List.Forall₂.turned {α β : Type} {r : α → β → Prop} {r' : β → α → Prop}
    (h : ∀ a b, r a b → r' b a) {xs : List α} {ys : List β} (hxy : List.Forall₂ r xs ys) :
    List.Forall₂ r' ys xs :=
  (hxy.imp h).flip

namespace ClipScript

variable {α β : Type}

theorem Report.Alike.symm {exact : Prop} {r r' : Report} (h : r.Alike exact r') :
    r'.Alike exact r := by
  cases r with
  | message text =>
    cases r' with
    | message text' => exact Eq.symm h
    | warning => exact h
  | warning line function text =>
    cases r' with
    | message => exact h
    | warning line' function' text' =>
      exact ⟨fun hexact => (h.1 hexact).symm, h.2.1.symm, h.2.2.symm⟩

theorem RuntimeError.Alike.symm {exact : Prop} {e e' : RuntimeError} (h : e.Alike exact e') :
    e'.Alike exact e := by
  refine ⟨h.1.symm, h.2.turned ?_⟩
  intro o o' ho
  exact ⟨fun hexact => (ho.1 hexact).symm, ho.2.symm⟩

theorem Param.Alike.symm {exact : Prop} {params params' : List Param}
    (h : Param.Alike exact params params') : Param.Alike exact params' params :=
  ⟨h.1.symm, fun hexact => (h.2 hexact).symm⟩

theorem Function.Alike.symm {exact scripts : Prop} {node : Node → Node → Prop} {f g : Function}
    (h : f.Alike exact scripts node g) : g.Alike exact scripts (fun n n' => node n' n) f := by
  cases h with
  | core hnative => exact .core hnative
  | user hname hparams hhome hbody => exact .user hname.symm hparams.symm hhome.symm hbody

theorem SameFault.turned {r : α → β → Prop} {x : Except Fault α} {y : Except Fault β}
    (h : SameFault r x y) : SameFault (fun b a => r a b) y x := by
  cases h with
  | ok hab => exact .ok hab
  | error f => exact .error f

namespace Coupling

/-- The coupling of the two runs in the other order. -/
def symm (C : Coupling) : Coupling where
  exact := C.exact
  scripts := C.scripts
  node n n' := C.node n' n
  own := C.own
  scopes s t := C.scopes t s
  node_refl := C.node_refl
  own_global := C.own_global
  contains h := (C.contains h).symm
  function? h env name := (C.function? h env name).turned fun _ _ hfg => hfg.symm
  vars henv h := (C.vars henv h).symm
  changeVars change henv h := C.changeVars change henv h
  define name henv hfg h := C.define name henv hfg.symm h
  addChild env h := by
    obtain ⟨hchild, hown, hscopes⟩ := C.addChild env h
    exact ⟨hchild.symm, hchild ▸ hown, hscopes⟩

variable {C : Coupling}

theorem Machines.symm {m n : Machine} (h : C.Machines m n) : C.symm.Machines n m where
  scopes := h.scopes
  span hexact := (h.span hexact).symm
  function := h.function.symm
  importing := h.importing.symm
  plugins := h.plugins.symm
  natives := h.plugins ▸ h.natives
  reports := h.reports.turned fun _ _ hr => hr.symm

theorem Parts.Target.symm {n n' : Node} (h : Target C n n') : Target C.symm n' n :=
  ⟨h.name.symm, h.kind.symm, h.node⟩

theorem Like.symm {n n' : Node} (h : C.Like n n') : C.symm.Like n' n := by
  have turn : ∀ {s s' : Span}, (C.exact → s = s') → C.symm.exact → s' = s :=
    fun hs hexact => (hs hexact).symm
  cases h with
  | leaf v hs => exact .leaf v (turn hs)
  | sequence hs hbody => exact .sequence (turn hs) (hbody.turned fun _ _ hn => hn)
  | assign hs hop htarget hvalue => exact .assign (turn hs) hop htarget.symm hvalue
  | assignChain hs htarget hlink => exact .assignChain (turn hs) htarget.symm hlink.turned
  | binary op hs hlhs hrhs => exact .binary op (turn hs) hlhs hrhs
  | unary op hs hoperand => exact .unary op (turn hs) hoperand
  | ternary hs hcondition hyes hno => exact .ternary (turn hs) hcondition hyes hno
  | call callee hs hargs =>
    exact .call callee (turn hs) (hargs.turned fun _ _ ha => ⟨ha.1.symm, ha.2⟩)
  | chain hs hhead hplugin hcall =>
    exact .chain (turn hs) hhead.symm (fun owner => (hplugin owner).turned) hcall.turned
  | functionDef name hs hparams hbody => exact .functionDef name (turn hs) hparams.symm hbody
  | defaultValue name hs hvalue => exact .defaultValue name (turn hs) hvalue
  | returnValue hs hvalue => exact .returnValue (turn hs) (hvalue.turned fun _ _ hn => hn)
  | ifElse hs hcondition hyes hno =>
    exact .ifElse (turn hs) hcondition hyes (hno.turned fun _ _ hn => hn)
  | importName name hs hscripts => exact .importName name (turn hs) hscripts

end Coupling
end ClipScript
