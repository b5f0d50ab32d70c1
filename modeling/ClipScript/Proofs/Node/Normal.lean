/-
Trees in which there is no chain left to replace.

`Node.unchain` leaves two kinds of places alone: the target of an assignment, and what stands behind
a bare name that heads a chain.  All other places are exposed (`Exposes`), and in a normal tree no
`.=` stands at any of them, and no chain but one on a bare name.

Replacing chains leads to a normal tree (`normal_of_unchain`) and leaves a normal tree as it is,
places included (`Normal.unchain`).  A tree that has nothing to replace itself is treated part by
part (`exposed_of_unchain`, `unchain_of_fixed`), so only chains and `.=` need an argument of their
own, and a value flows through them into calls.
-/
import ClipScript.Proofs.Node.Plain
import Mathlib.Data.List.Forall2

namespace ClipScript
namespace Node

/-- The parts of a tree in which chains are replaced. -/
def exposed : Node → List Node
  | assign _ _ _ value => [value]
  | chain _ value link => if value.asIdentifier?.isSome then [value] else [value, link]
  | n => n.parts

/-- A tree stands in another, itself included, where chains are replaced. -/
inductive Exposes : Node → Node → Prop where
  | self (n : Node) : Exposes n n
  | part {n part u : Node} : part ∈ n.exposed → Exposes part u → Exposes n u

/-- A tree that is no `.=` and, if it is a chain, has a bare name as its head. -/
def Settled : Node → Prop
  | assign _ _ op _ => op ≠ .chain
  | chain _ value _ => value.asIdentifier?.isSome
  | _ => True

/-- Nothing is left to replace, at any depth. -/
def Normal (n : Node) : Prop := ∀ u, n.Exposes u → u.Settled

theorem mem_parts_of_mem_exposed {n part : Node} (h : part ∈ n.exposed) : part ∈ n.parts := by
  cases n with
  | assign s target op value => exact List.mem_cons_of_mem _ h
  | chain s value link =>
    rw [exposed] at h
    split at h
    · rw [List.mem_singleton.mp h]
      exact List.mem_cons_self
    · exact h
  | _ => exact h

theorem Normal.part {n part : Node} (h : n.Normal) (hpart : part ∈ n.exposed) : part.Normal :=
  fun u hu => h u (.part hpart hu)

theorem Normal.of_exposes {n u : Node} (h : n.Normal) (hu : n.Exposes u) : u.Normal := by
  induction hu with
  | self => exact h
  | part hpart _ ih => exact ih (h.part hpart)

theorem normal_of_exposed {n : Node} (h : n.Settled) (hparts : ∀ part ∈ n.exposed, part.Normal) :
    n.Normal := by
  intro u hu
  cases hu with
  | self => exact h
  | part hpart hu => exact hparts _ hpart u hu

/-! ## Part by part -/

def UnchainsTo (n n' : Node) : Prop := n.unchain = .ok n'

theorem unchainsTo_of_unchainAll {body body' : List Node} (h : unchainAll body = .ok body') :
    List.Forall₂ UnchainsTo body body' := by
  induction body generalizing body' with
  | nil =>
    cases h
    exact .nil
  | cons n rest ih =>
    rw [unchainAll] at h
    obtain ⟨n', hn, h⟩ := ok_of_bind h
    obtain ⟨rest', hrest, h⟩ := ok_of_bind h
    cases h
    exact .cons hn (ih hrest)

structure ArgUnchainsTo (a a' : Labelled Node) : Prop where
  label : a'.label = a.label
  content : a.content.UnchainsTo a'.content

theorem unchainArgs_eq_ok_iff {args args' : List (Labelled Node)} :
    unchainArgs args = .ok args' ↔ List.Forall₂ ArgUnchainsTo args args' := by
  induction args generalizing args' with
  | nil =>
    rw [List.forall₂_nil_left_iff]
    exact ⟨fun h => (Except.ok.inj h).symm, fun h => congrArg Except.ok h.symm⟩
  | cons a rest ih =>
    constructor
    · intro h
      rw [unchainArgs] at h
      obtain ⟨n', hn, h⟩ := ok_of_bind h
      obtain ⟨rest', hrest, h⟩ := ok_of_bind h
      cases h
      exact .cons ⟨rfl, hn⟩ (ih.mp hrest)
    · intro h
      obtain ⟨⟨_, n'⟩, rest', ⟨rfl, hn⟩, hrest, rfl⟩ := List.forall₂_cons_left_iff.mp h
      have hn : a.content.unchain = .ok n' := hn
      rw [unchainArgs, hn, ih.mpr hrest]
      rfl

theorem unchainsTo_of_unchainArgs {args args' : List (Labelled Node)}
    (h : unchainArgs args = .ok args') :
    List.Forall₂ UnchainsTo (args.map (·.content)) (args'.map (·.content)) := by
  rw [List.forall₂_map_left_iff, List.forall₂_map_right_iff]
  exact (unchainArgs_eq_ok_iff.mp h).imp fun _ _ harg => harg.content

/-- Where there is nothing to replace in the tree itself, its exposed parts are replaced one by
one. -/
theorem exposed_of_unchain {n u : Node} (hn : n.Settled) (h : n.unchain = .ok u) :
    u.Settled ∧ List.Forall₂ UnchainsTo n.exposed u.exposed := by
  cases n with
  | leaf s v =>
    cases h
    exact ⟨trivial, .nil⟩
  | sequence s body =>
    obtain ⟨body', hbody, h⟩ := ok_of_bind (show (unchainAll body >>= _) = _ from h)
    cases h
    exact ⟨trivial, unchainsTo_of_unchainAll hbody⟩
  | assign s target op value =>
    rw [unchain_assign hn] at h
    obtain ⟨value', hvalue, rfl⟩ := ok_of_map h
    exact ⟨hn, .cons hvalue .nil⟩
  | binary s op lhs rhs =>
    rw [unchain] at h
    obtain ⟨lhs', hlhs, h⟩ := ok_of_bind h
    obtain ⟨rhs', hrhs, h⟩ := ok_of_bind h
    cases h
    exact ⟨trivial, .cons hlhs (.cons hrhs .nil)⟩
  | unary s op operand =>
    rw [unchain] at h
    obtain ⟨operand', hoperand, h⟩ := ok_of_bind h
    cases h
    exact ⟨trivial, .cons hoperand .nil⟩
  | ternary s condition yes no =>
    rw [unchain] at h
    obtain ⟨condition', hcondition, h⟩ := ok_of_bind h
    obtain ⟨yes', hyes, h⟩ := ok_of_bind h
    obtain ⟨no', hno, h⟩ := ok_of_bind h
    cases h
    exact ⟨trivial, .cons hcondition (.cons hyes (.cons hno .nil))⟩
  | call s callee args =>
    rw [unchain] at h
    obtain ⟨args', hargs, h⟩ := ok_of_bind h
    cases h
    exact ⟨trivial, unchainsTo_of_unchainArgs hargs⟩
  | chain s value link =>
    rw [unchain_chain_of_isSome hn] at h
    cases h
    obtain ⟨name, hname⟩ := Option.isSome_iff_exists.mp hn
    have hvalue : value.unchain = .ok value := by
      rw [eq_identifier_of_asIdentifier? hname]
      rfl
    have hexposed : (chain s value link).exposed = [value] := if_pos hn
    rw [hexposed]
    exact ⟨hn, .cons hvalue .nil⟩
  | functionDef s name params body =>
    rw [unchain] at h
    obtain ⟨body', hbody, h⟩ := ok_of_bind h
    cases h
    exact ⟨trivial, .cons hbody .nil⟩
  | defaultValue s name value =>
    rw [unchain] at h
    obtain ⟨value', hvalue, h⟩ := ok_of_bind h
    cases h
    exact ⟨trivial, .cons hvalue .nil⟩
  | returnValue s value =>
    cases value with
    | none =>
      cases h
      exact ⟨trivial, .nil⟩
    | some value =>
      rw [unchain] at h
      obtain ⟨value', hvalue, h⟩ := ok_of_bind h
      cases h
      exact ⟨trivial, .cons hvalue .nil⟩
  | ifElse s condition yes no =>
    cases no with
    | none =>
      rw [unchain] at h
      obtain ⟨condition', hcondition, h⟩ := ok_of_bind h
      obtain ⟨yes', hyes, h⟩ := ok_of_bind h
      cases h
      exact ⟨trivial, .cons hcondition (.cons hyes .nil)⟩
    | some no =>
      rw [unchain] at h
      obtain ⟨condition', hcondition, h⟩ := ok_of_bind h
      obtain ⟨yes', hyes, h⟩ := ok_of_bind h
      obtain ⟨no', hno, h⟩ := ok_of_bind h
      cases h
      exact ⟨trivial, .cons hcondition (.cons hyes (.cons hno .nil))⟩
  | importName s name =>
    cases h
    exact ⟨trivial, .nil⟩

theorem forall_of_unchainsTo {good : Node → Prop} {nodes nodes' : List Node}
    (h : List.Forall₂ UnchainsTo nodes nodes')
    (hnodes : ∀ n ∈ nodes, ∀ u, n.unchain = .ok u → good u) : ∀ n ∈ nodes', good n := by
  induction h with
  | nil => exact List.forall_mem_nil _
  | cons hn _ ih =>
    rw [List.forall_mem_cons] at hnodes ⊢
    exact ⟨hnodes.1 _ hn, ih hnodes.2⟩

/-! ## What replacing chains keeps -/

/-- Replacing the chains of the tree, and letting a good value flow into it, both give good trees.
The calls that are made on the way are put at certain places. -/
def Keeps (places : Span → Prop) (good : Node → Prop) (n : Node) : Prop :=
  (∀ u, n.unchain = .ok u → good u) ∧ ∀ s v u, places s → good v → pipe s v n = .ok u → good u

/-- Calls of good arguments are good at certain places. -/
def GoodCalls (places : Span → Prop) (good : Node → Prop) : Prop :=
  ∀ {s : Span} (callee : Callee) {args : List (Labelled Node)}, places s →
    (∀ n ∈ args.map (·.content), good n) → good (call s callee args)

section Keeps

variable {places : Span → Prop} {good : Node → Prop} {n u : Node}

theorem good_of_pipe (hcalls : GoodCalls places good)
    (ih : ∀ part ∈ n.parts, part.Keeps places good) {s : Span} {v : Node} (hs : places s)
    (hv : good v) (h : pipe s v n = .ok u) : good u := by
  cases n with
  | leaf t w =>
    cases w with
    | identifier name =>
      cases h
      exact hcalls _ hs (List.forall_mem_singleton.mpr hv)
    | _ => cases h
  | call t callee args =>
    rw [pipe] at h
    obtain ⟨args', hargs, h⟩ := ok_of_bind h
    cases h
    have hgood : ∀ n ∈ args'.map (·.content), good n :=
      forall_of_unchainsTo (unchainsTo_of_unchainArgs hargs) fun n hn => (ih n hn).1
    exact hcalls callee hs (List.forall_mem_cons.mpr ⟨hv, hgood⟩)
  | chain t first rest =>
    rw [pipe] at h
    obtain ⟨mid, hmid, h⟩ := ok_of_bind h
    have hfirst : first.Keeps places good := ih first List.mem_cons_self
    have hrest : rest.Keeps places good := ih rest (List.mem_cons_of_mem _ List.mem_cons_self)
    exact hrest.2 s mid u hs (hfirst.2 s v mid hs hv hmid) h
  | _ => cases h

theorem good_of_unchainAs {s : Span} {value link : Node} (hs : places s)
    (hvalue : value.Keeps places good) (hlink : link.Keeps places good)
    (h : unchainAs s value link = .ok u) : good u := by
  obtain ⟨value', hvalue', h⟩ := ok_of_bind h
  exact hlink.2 s value' u hs (hvalue.1 value' hvalue') h

/-- A tree keeps to what is good if its parts do and the tree itself is treated well, as one that
has nothing to replace or as an assignment. -/
theorem keeps_of_parts (hcalls : GoodCalls places good) (hs : places n.span)
    (ih : ∀ part ∈ n.parts, part.Keeps places good)
    (hsettled : n.Settled → ∀ u, n.unchain = .ok u → good u)
    (hassign : ∀ s target link call, n = assign s target .chain link → good call →
      good (assign s target .assign call)) : n.Keeps places good := by
  refine ⟨fun u hu => ?_, fun s v u hs hv hu => good_of_pipe hcalls ih hs hv hu⟩
  by_cases hn : n.Settled
  · exact hsettled hn u hu
  · cases n with
    | assign s target op link =>
      obtain rfl : op = .chain := Decidable.not_not.mp hn
      rw [unchain_assign_chain] at hu
      obtain ⟨call, hcall, rfl⟩ := ok_of_map hu
      refine hassign s target link call rfl ?_
      exact good_of_unchainAs hs (ih target List.mem_cons_self)
        (ih link (List.mem_cons_of_mem _ List.mem_cons_self)) hcall
    | chain s value link =>
      rw [unchain_chain (Option.not_isSome_iff_eq_none.mp hn)] at hu
      exact good_of_unchainAs hs (ih value List.mem_cons_self)
        (ih link (List.mem_cons_of_mem _ List.mem_cons_self)) hu
    | _ => exact absurd trivial hn

/-- The call of a plugin is good if its links are, taken one by one. -/
theorem good_of_pluginCall (hcalls : GoodCalls places good)
    (hkeeps : ∀ {n}, good n → n.Keeps places good)
    (hname : ∀ {s} name, places s → good (identifier s name))
    (hargs : ∀ {s callee args}, good (call s callee args) → ∀ n ∈ args.map (·.content), good n)
    (hchain : ∀ {s first rest}, good (chain s first rest) → good first ∧ good rest)
    {owner : String} {s : Span} {link : Node} (hs : places s) (hlink : good link)
    (h : pluginCall owner s link = .ok u) : good u := by
  have hplain : ∀ {u}, unchainAs s (identifier s owner) link = .ok u → good u :=
    good_of_unchainAs hs (hkeeps (hname owner hs)) (hkeeps hlink)
  have hmade : ∀ args, (∀ n ∈ args.map (·.content), good n) → ∀ function u,
      (do return call s (.plugin owner function) (← unchainArgs args)) = .ok u → good u := by
    intro args hargs function u h
    obtain ⟨args', hargs', h⟩ := ok_of_bind h
    cases h
    exact hcalls _ hs (forall_of_unchainsTo (unchainsTo_of_unchainArgs hargs')
      fun n hn => (hkeeps (hargs n hn)).1)
  induction link using Node.induct generalizing u with
  | call t callee args =>
    cases callee with
    | named function => exact hmade args (hargs hlink) function u h
    | plugin owner' function => exact hplain h
  | leaf t w =>
    cases w with
    | identifier function => exact hmade [] (List.forall_mem_nil _) function u h
    | _ => exact hplain h
  | chain t first rest ihfirst _ =>
    rw [Node.pluginCall] at h
    obtain ⟨mid, hmid, h⟩ := ok_of_bind h
    obtain ⟨hfirst, hrest⟩ := hchain hlink
    have hmid : good mid :=
      ihfirst hfirst hmid (good_of_unchainAs hs (hkeeps (hname owner hs)) (hkeeps hfirst))
    exact (hkeeps hrest).2 s mid u hs hmid h
  | _ => exact hplain h

end Keeps

/-! ## What comes of replacing chains is normal -/

theorem normalises (n : Node) : n.Keeps (fun _ => True) Normal := by
  induction n using inductParts with
  | h n ih =>
    -- a call of normal arguments is normal
    refine keeps_of_parts (fun _ _ _ h => normal_of_exposed trivial h) trivial ih ?_ ?_
    · intro hn u hu
      obtain ⟨hsettled, hexposed⟩ := exposed_of_unchain hn hu
      exact normal_of_exposed hsettled
        (forall_of_unchainsTo hexposed fun p hp => (ih p (mem_parts_of_mem_exposed hp)).1)
    · intro s target link call _ hcall
      refine normal_of_exposed ?_ (List.forall_mem_singleton.mpr hcall)
      exact (by decide : AssignOp.assign ≠ .chain)

theorem normal_of_unchain {n n' : Node} (h : n.unchain = .ok n') : n'.Normal :=
  (normalises n).1 n' h

/-! ## Normal trees stay as they are -/

theorem unchainAll_of_fixed {body : List Node} (h : ∀ n ∈ body, n.unchain = .ok n) :
    unchainAll body = .ok body := by
  induction body with
  | nil => rfl
  | cons n rest ih =>
    rw [List.forall_mem_cons] at h
    rw [unchainAll, h.1, ih h.2]
    rfl

theorem unchainArgs_of_fixed {args : List (Labelled Node)}
    (h : ∀ n ∈ args.map (·.content), n.unchain = .ok n) : unchainArgs args = .ok args := by
  induction args with
  | nil => rfl
  | cons a rest ih =>
    rw [List.map_cons, List.forall_mem_cons] at h
    rw [unchainArgs, h.1, ih h.2]
    rfl

theorem unchain_of_fixed {n : Node} (hn : n.Settled)
    (h : ∀ part ∈ n.exposed, part.unchain = .ok part) : n.unchain = .ok n := by
  cases n with
  | leaf s v => rfl
  | sequence s body =>
    have hbody : unchainAll body = .ok body := unchainAll_of_fixed h
    rw [unchain, hbody]
    rfl
  | assign s target op value => rw [unchain_assign hn, h value List.mem_cons_self]; rfl
  | call s callee args =>
    have hargs : unchainArgs args = .ok args := unchainArgs_of_fixed h
    rw [unchain, hargs]
    rfl
  | chain s value link => exact unchain_chain_of_isSome hn
  | returnValue s value =>
    cases value with
    | none => rfl
    | some value => rw [unchain, h value (by simp [exposed, parts])]; rfl
  | ifElse s condition yes no =>
    have hcondition := h condition (by simp [exposed, parts])
    have hyes := h yes (by simp [exposed, parts])
    cases no with
    | none => rw [unchain, hcondition, hyes]; rfl
    | some no => rw [unchain, hcondition, hyes, h no (by simp [exposed, parts])]; rfl
  | importName s name => rfl
  | binary s op lhs rhs =>
    rw [unchain, h lhs (by simp [exposed, parts]), h rhs (by simp [exposed, parts])]; rfl
  | unary s op operand => rw [unchain, h operand (by simp [exposed, parts])]; rfl
  | ternary s condition yes no =>
    rw [unchain, h condition (by simp [exposed, parts]), h yes (by simp [exposed, parts]),
      h no (by simp [exposed, parts])]
    rfl
  | functionDef s name params body => rw [unchain, h body (by simp [exposed, parts])]; rfl
  | defaultValue s name value => rw [unchain, h value (by simp [exposed, parts])]; rfl

theorem Normal.unchain {n : Node} (h : n.Normal) : n.unchain = .ok n := by
  induction n using inductParts with
  | h n ih =>
    exact unchain_of_fixed (h n (.self n)) fun part hpart =>
      ih part (mem_parts_of_mem_exposed hpart) (h.part hpart)

/-- Replacing chains leads to a normal form: at no exposed place of the result is there a `.=`, or a
chain on anything but a bare name.  Replacing them again changes nothing, neither in the whole tree
nor in a tree at an exposed place of it, such as a function body. -/
theorem unchain_reaches_normal_form {n n' : Node} (h : n.unchain = .ok n') :
    (∀ u, n'.Exposes u → (∀ s target link, u ≠ assign s target .chain link) ∧
      ∀ s value link, u = chain s value link → ∃ name, value.asIdentifier? = some name) ∧
    n'.unchain = .ok n' ∧ ∀ u, n'.Exposes u → u.unchain = .ok u := by
  have hnormal := normal_of_unchain h
  refine ⟨fun u hu => ⟨?_, ?_⟩, hnormal.unchain, fun u hu => (hnormal.of_exposes hu).unchain⟩
  · rintro s target link rfl
    exact hnormal _ hu rfl
  · rintro s value link rfl
    exact Option.isSome_iff_exists.mp (hnormal _ hu)

/-- `function f() {x .= g(clip.(crop.resize()).view(), true.h());}`, with chains in a function body
and in the arguments of a call, one of them on a bare name. -/
def chainedBody : Node :=
  let name (x : String) : Node := .identifier .nowhere x
  let link (x : String) : Node := .call .nowhere (.named x) []
  .functionDef .nowhere "f" []
    (.sequence .nowhere [.assign .nowhere (name "x") .chain
      (.call .nowhere (.named "g")
        [⟨none, .chain .nowhere (name "clip") (.chain .nowhere
          (.chain .nowhere (name "crop") (link "resize")) (link "view"))⟩,
        ⟨none, .chain .nowhere (.leaf .nowhere (.boolean true)) (link "h")⟩])])

theorem unchain_reaches_normal_form_chainedBody :
    ∃ n', chainedBody.unchain = .ok n' ∧
    (∀ u, n'.Exposes u → (∀ s target link, u ≠ assign s target .chain link) ∧
      ∀ s value link, u = chain s value link → ∃ name, value.asIdentifier? = some name) ∧
    n'.unchain = .ok n' ∧ ∀ u, n'.Exposes u → u.unchain = .ok u :=
  ⟨_, rfl, unchain_reaches_normal_form (n := chainedBody) rfl⟩

end Node
end ClipScript
