/-
Trees in which no default stands in the value of another.

The type of trees lets a default statement stand in the value of a default for the same name.  The
outer one has found the variable void by the time the inner one fills it, so both store a value.
`Node.DefaultsApart` says that this does not occur in a tree.  It concerns what is carried out in
one scope, so the bodies of functions that are defined in the tree do not count.

Scripts are read as such trees (`Formed.defaultsApart`), and replacing chains by calls keeps it
(`DefaultsApart.unchainAs`, `DefaultsApart.pluginCall`).
-/
import ClipScript.Proofs.Node.Standing

namespace ClipScript
namespace Node

def isDefaultOf (name : String) : Node → Bool
  | defaultValue _ other _ => other == name
  | _ => false

/-- Default statements for the name stand in the tree only if they `may`, and none stands in the
value of another. -/
inductive DefaultsApart (name : String) : (may : Bool) → Node → Prop where
  | functionDef {may : Bool} {s : Span} {defined : String} {params : List Param} {body : Node} :
      DefaultsApart name may (.functionDef s defined params body)
  | defaultValue {s : Span} {value : Node} : DefaultsApart name false value →
      DefaultsApart name true (.defaultValue s name value)
  | parts {may : Bool} {n : Node} : n.isDefaultOf name = false →
      (∀ part ∈ n.parts, DefaultsApart name may part) → DefaultsApart name may n

variable {name : String} {may : Bool} {n u : Node}

theorem DefaultsApart.of_false (h : n.DefaultsApart name false) : n.DefaultsApart name may := by
  generalize hmay : false = given at h
  induction h with
  | functionDef => exact .functionDef
  | defaultValue => cases hmay
  | parts hn _ ih => exact .parts hn fun part hpart => ih part hpart hmay

theorem Formed.defaultsApart {imported : String → Prop} {role : Role}
    (h : n.Formed imported role) (name : String) :
    n.DefaultsApart name (role == .statement) := by
  have pair {a b : Node} (ha : a.DefaultsApart name false) (hb : b.DefaultsApart name false) :
      ∀ part ∈ [a, b], part.DefaultsApart name false :=
    List.forall_mem_cons.mpr ⟨ha, List.forall_mem_singleton.mpr hb⟩
  induction h with
  | alone _ ih => exact ih.of_false
  | leaf => exact .parts rfl (List.forall_mem_nil _)
  | assign _ _ ihtarget ihvalue => exact .parts rfl (pair ihtarget ihvalue)
  | binary _ _ ihlhs ihrhs => exact .parts rfl (pair ihlhs ihrhs)
  | unary _ ih => exact .parts rfl (List.forall_mem_singleton.mpr ih)
  | ternary _ _ _ ihcondition ihyes ihno =>
    exact .parts rfl (List.forall_mem_cons.mpr ⟨ihcondition, pair ihyes ihno⟩)
  | call _ _ ih => exact .parts rfl (List.forall_mem_map.mpr ih)
  | chain _ _ ihvalue ihlink => exact .parts rfl (pair ihvalue ihlink)
  | sequence _ ih => exact .parts rfl ih
  | functionDef => exact .functionDef
  | @defaultValue _ other _ _ ih =>
    by_cases hname : other = name
    · subst hname
      exact .defaultValue ih
    · exact .parts (beq_false_of_ne hname) (List.forall_mem_singleton.mpr ih.of_false)
  | returnValue _ ih =>
    exact .parts rfl fun part hpart => (ih part (Option.mem_toList.mp hpart)).of_false
  | ifElse _ _ _ ihcondition ihyes ihno =>
    refine .parts rfl (List.forall_mem_cons.mpr ⟨ihcondition.of_false, ?_⟩)
    exact List.forall_mem_cons.mpr ⟨ihyes, fun part hpart => ihno part (Option.mem_toList.mp hpart)⟩
  | importName => exact .parts rfl (List.forall_mem_nil _)

theorem defaultsApart_call : GoodCalls (fun _ => True) (DefaultsApart name may) :=
  fun _ _ _ hargs => .parts rfl hargs

theorem isDefaultOf_of_unchain (hn : n.Settled) (h : n.unchain = .ok u) (name : String) :
    u.isDefaultOf name = n.isDefaultOf name := by
  cases n with
  | assign s target op value =>
    rw [unchain_assign hn] at h
    obtain ⟨value', -, rfl⟩ := ok_of_map h
    rfl
  | chain s value link =>
    rw [unchain_chain_of_isSome hn] at h
    cases h
    rfl
  | returnValue s value =>
    cases value with
    | none => cases h; rfl
    | some value =>
      obtain ⟨value', -, h⟩ := ok_of_bind (show (value.unchain >>= _) = _ from h)
      cases h
      rfl
  | ifElse s condition yes no =>
    cases no <;>
    · rw [unchain] at h
      repeat obtain ⟨_, -, h⟩ := ok_of_bind h
      cases h
      rfl
  | _ =>
    rw [unchain] at h
    repeat obtain ⟨_, -, h⟩ := ok_of_bind h
    cases h
    rfl

namespace DefaultsApart

/-- Replacing the chains of the tree and letting a value flow into it both keep defaults apart. -/
theorem keeps (h : n.DefaultsApart name may) :
    n.Keeps (fun _ => True) (DefaultsApart name may) := by
  induction h with
  | functionDef =>
    refine ⟨fun u hu => ?_, nofun⟩
    obtain ⟨body', -, hu⟩ := ok_of_bind (show (unchain _ >>= _) = _ from hu)
    cases hu
    exact .functionDef
  | defaultValue _ ih =>
    refine ⟨fun u hu => ?_, nofun⟩
    obtain ⟨value', hvalue', hu⟩ := ok_of_bind (show (unchain _ >>= _) = _ from hu)
    cases hu
    exact .defaultValue (ih.1 value' hvalue')
  | parts hdefault hparts ih =>
    refine keeps_of_parts defaultsApart_call trivial ih (fun hn u hu => ?_) ?_
    · refine .parts ((isDefaultOf_of_unchain hn hu name).trans hdefault) fun part hpart => ?_
      rcases mem_parts_iff.mp hpart with hpart | hpart
      · refine forall_of_unchainsTo (exposed_of_unchain hn hu).2 (fun p hp => ?_) part hpart
        exact (ih p (mem_parts_of_mem_exposed hp)).1
      · rw [(unexposed_of_unchain hn hu).2] at hpart
        exact hparts part (mem_parts_iff.mpr (.inr hpart))
    · rintro s target link call rfl hcall
      refine .parts rfl (List.forall_mem_cons.mpr ⟨hparts target List.mem_cons_self, ?_⟩)
      exact List.forall_mem_singleton.mpr hcall

theorem unchainAs {s : Span} {value link : Node} (hvalue : value.DefaultsApart name may)
    (hlink : link.DefaultsApart name may) (h : unchainAs s value link = .ok u) :
    u.DefaultsApart name may :=
  good_of_unchainAs trivial hvalue.keeps hlink.keeps h

theorem pluginCall {owner : String} {s : Span} {link : Node} (hlink : link.DefaultsApart name may)
    (h : pluginCall owner s link = .ok u) : u.DefaultsApart name may := by
  refine good_of_pluginCall defaultsApart_call (fun hn => hn.keeps) (fun owner _ => ?_)
    (fun hcall => ?_) (fun hchain => ?_) trivial hlink h
  · exact .parts rfl (List.forall_mem_nil _)
  · cases hcall with
    | parts _ hargs => exact hargs
  · cases hchain with
    | parts _ hparts =>
      exact ⟨hparts _ List.mem_cons_self, hparts _ (List.mem_cons_of_mem _ List.mem_cons_self)⟩

end DefaultsApart
end Node
end ClipScript
