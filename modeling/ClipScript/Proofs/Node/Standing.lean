/-
The places at which a tree stands.

`Node.StandsIn` says of a tree that it and all trees within it stand at certain places.  The calls
that chains are replaced by are put at places that the tree has already, so replacing chains does
not lead to other places (`StandsIn.unchainAs`, `StandsIn.pluginCall`).
-/
import ClipScript.Proofs.Node.Normal

namespace ClipScript
namespace Node

/-- The tree and all trees within it stand at certain places. -/
def StandsIn (places : Span → Prop) (n : Node) : Prop := ∀ u ∈ n.subtrees, places u.span

variable {places : Span → Prop} {n u : Node}

theorem standsIn_iff :
    n.StandsIn places ↔ places n.span ∧ ∀ part ∈ n.parts, part.StandsIn places := by
  constructor
  · intro h
    exact ⟨h n n.self_mem_subtrees, fun part hpart => forall_subtrees_of_mem_parts h hpart⟩
  · rintro ⟨hs, hparts⟩ u hu
    rw [subtrees_eq, List.mem_cons, List.mem_flatMap] at hu
    obtain rfl | ⟨part, hpart, hu⟩ := hu
    · exact hs
    · exact hparts part hpart u hu

theorem StandsIn.part {part : Node} (h : n.StandsIn places) (hpart : part ∈ n.parts) :
    part.StandsIn places :=
  (standsIn_iff.mp h).2 part hpart

theorem standsIn_call : GoodCalls places (StandsIn places) :=
  fun _ _ hs hargs => standsIn_iff.mpr ⟨hs, hargs⟩

/-- The parts that `unchain` leaves alone. -/
def unexposed : Node → List Node
  | assign _ target _ _ => [target]
  | chain _ value link => if value.asIdentifier?.isSome then [link] else []
  | _ => []

theorem mem_parts_iff {part : Node} : part ∈ n.parts ↔ part ∈ n.exposed ∨ part ∈ n.unexposed := by
  cases n with
  | assign s target op value => simp [parts, exposed, unexposed, or_comm]
  | chain s value link =>
    cases h : value.asIdentifier?.isSome <;> simp [parts, exposed, unexposed, h]
  | _ => simp [exposed, unexposed]

theorem unexposed_of_unchain (hn : n.Settled) (h : n.unchain = .ok u) :
    u.span = n.span ∧ u.unexposed = n.unexposed := by
  cases n with
  | assign s target op value =>
    rw [unchain_assign hn] at h
    obtain ⟨value', -, rfl⟩ := ok_of_map h
    exact ⟨rfl, rfl⟩
  | chain s value link =>
    rw [unchain_chain_of_isSome hn] at h
    cases h
    exact ⟨rfl, rfl⟩
  | returnValue s value =>
    cases value with
    | none => cases h; exact ⟨rfl, rfl⟩
    | some value =>
      rw [unchain] at h
      obtain ⟨value', -, h⟩ := ok_of_bind h
      cases h
      exact ⟨rfl, rfl⟩
  | ifElse s condition yes no =>
    cases no with
    | none =>
      rw [unchain] at h
      repeat obtain ⟨_, -, h⟩ := ok_of_bind h
      cases h
      exact ⟨rfl, rfl⟩
    | some no =>
      rw [unchain] at h
      repeat obtain ⟨_, -, h⟩ := ok_of_bind h
      cases h
      exact ⟨rfl, rfl⟩
  | _ =>
    rw [unchain] at h
    repeat obtain ⟨_, -, h⟩ := ok_of_bind h
    cases h
    exact ⟨rfl, rfl⟩

theorem StandsIn.keeps (h : n.StandsIn places) : n.Keeps places (StandsIn places) := by
  induction n using inductParts with
  | h n ih =>
    have ih : ∀ part ∈ n.parts, part.Keeps places (StandsIn places) :=
      fun part hpart => ih part hpart (h.part hpart)
    obtain ⟨hs, hparts⟩ := standsIn_iff.mp h
    refine keeps_of_parts standsIn_call hs ih (fun hn u hu => ?_) ?_
    · obtain ⟨hspan, hunexposed⟩ := unexposed_of_unchain hn hu
      refine standsIn_iff.mpr ⟨hspan ▸ hs, fun part hpart => ?_⟩
      rcases mem_parts_iff.mp hpart with hpart | hpart
      · refine forall_of_unchainsTo (exposed_of_unchain hn hu).2 (fun p hp => ?_) part hpart
        exact (ih p (mem_parts_of_mem_exposed hp)).1
      · rw [hunexposed] at hpart
        exact hparts part (mem_parts_iff.mpr (.inr hpart))
    · rintro s target link call rfl hcall
      refine standsIn_iff.mpr ⟨hs, List.forall_mem_cons.mpr ⟨h.part List.mem_cons_self, ?_⟩⟩
      exact List.forall_mem_singleton.mpr hcall

theorem StandsIn.unchainAs {s : Span} {value link : Node} (hs : places s)
    (hvalue : value.StandsIn places) (hlink : link.StandsIn places)
    (h : unchainAs s value link = .ok u) : u.StandsIn places :=
  good_of_unchainAs hs hvalue.keeps hlink.keeps h

theorem StandsIn.pluginCall {owner : String} {s : Span} (hs : places s) {link : Node}
    (hlink : link.StandsIn places) (h : pluginCall owner s link = .ok u) : u.StandsIn places := by
  refine good_of_pluginCall standsIn_call (fun hn => hn.keeps) (fun name hs => ?_)
    (fun hcall => (standsIn_iff.mp hcall).2) (fun hchain => ⟨?_, ?_⟩) hs hlink h
  · exact standsIn_iff.mpr ⟨hs, List.forall_mem_nil _⟩
  · exact hchain.part List.mem_cons_self
  · exact hchain.part (List.mem_cons_of_mem _ List.mem_cons_self)

end Node
end ClipScript
