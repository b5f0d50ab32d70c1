/-
Trees whose spans nest.

The parts of a node are read one after the other, between the byte at which the node starts and the
byte at which it stops.  `Span.InTurn` says this of a list of spans and two bytes.  It is a chain
of inequalities, so it is put together from its pieces (`InTurn.cons`, `InTurn.append`), and what is
meant by nesting can be read off it (`InTurn.surrounds`).

A node reaches from the first to the last of the things it was read from, and what counts as its
parts is among these (`Node.laid_merge`).
-/
import ClipScript.Proofs.Node.Formed

namespace ClipScript

namespace Span

/-- The span is not empty and lies between two bytes. -/
structure Within (lower upper : Nat) (s : Span) : Prop where
  lower_le : lower ≤ s.start
  start_lt : s.start < s.stop
  stop_le : s.stop ≤ upper

/-- The span has the others in it, which are not empty, and each of these stops before the next one
starts. -/
structure Surrounds (s : Span) (others : List Span) : Prop where
  start_lt : ∀ t ∈ others, t.start < t.stop
  within : ∀ t ∈ others, s.start ≤ t.start ∧ t.stop ≤ s.stop
  ordered : others.Pairwise (·.stop ≤ ·.start)

def InTurn (lower : Nat) : List Span → Nat → Prop
  | [], upper => lower ≤ upper
  | s :: rest, upper => lower ≤ s.start ∧ s.start < s.stop ∧ InTurn s.stop rest upper

variable {s a b : Span} {spans more : List Span} {lower mid upper : Nat}

theorem Within.le (h : s.Within lower upper) : lower ≤ upper := by
  obtain ⟨hlower, hs, hupper⟩ := h
  omega

theorem Within.mono (h : s.Within lower upper) {lower' upper' : Nat} (hlower : lower' ≤ lower)
    (hupper : upper ≤ upper') : s.Within lower' upper' :=
  ⟨Nat.le_trans hlower h.lower_le, h.start_lt, Nat.le_trans h.stop_le hupper⟩

theorem Surrounds.nil : s.Surrounds [] :=
  ⟨List.forall_mem_nil _, List.forall_mem_nil _, .nil⟩

namespace InTurn

theorem le (h : InTurn lower spans upper) : lower ≤ upper := by
  induction spans generalizing lower with
  | nil => exact h
  | cons s rest ih =>
    obtain ⟨hlower, hs, hrest⟩ := h
    have := ih hrest
    omega

theorem mono (h : InTurn lower spans upper) {lower' upper' : Nat} (hlower : lower' ≤ lower)
    (hupper : upper ≤ upper') : InTurn lower' spans upper' := by
  induction spans generalizing lower lower' with
  | nil => exact Nat.le_trans hlower (Nat.le_trans h hupper)
  | cons s rest ih =>
    obtain ⟨hle, hs, hrest⟩ := h
    exact ⟨Nat.le_trans hlower hle, hs, ih hrest (Nat.le_refl _)⟩

theorem cons (hs : s.Within lower mid) (h : InTurn mid spans upper) :
    InTurn lower (s :: spans) upper :=
  ⟨hs.lower_le, hs.start_lt, h.mono hs.stop_le (Nat.le_refl _)⟩

theorem singleton (hs : s.Within lower upper) : InTurn lower [s] upper :=
  ⟨hs.lower_le, hs.start_lt, hs.stop_le⟩

theorem append (h : InTurn lower spans mid) (h' : InTurn mid more upper) :
    InTurn lower (spans ++ more) upper := by
  induction spans generalizing lower with
  | nil => exact h'.mono h (Nat.le_refl _)
  | cons s rest ih =>
    obtain ⟨hlower, hs, hrest⟩ := h
    exact ⟨hlower, hs, ih hrest⟩

/-- The spans reach no further than the last of them. -/
theorem upto_last {last : Span} (h : InTurn lower (spans ++ [last]) upper) :
    InTurn lower (spans ++ [last]) last.stop := by
  induction spans generalizing lower with
  | nil => exact ⟨h.1, h.2.1, Nat.le_refl _⟩
  | cons s rest ih =>
    obtain ⟨hlower, hs, hrest⟩ := h
    exact ⟨hlower, hs, ih hrest⟩

theorem sublist (h : InTurn lower spans upper) (hsub : more.Sublist spans) :
    InTurn lower more upper := by
  induction hsub generalizing lower with
  | slnil => exact h
  | cons s _ ih =>
    obtain ⟨hlower, hs, hrest⟩ := h
    exact ih (hrest.mono (by omega) (Nat.le_refl _))
  | cons_cons s _ ih =>
    obtain ⟨hlower, hs, hrest⟩ := h
    exact ⟨hlower, hs, ih hrest⟩

theorem within (h : InTurn lower spans upper) : ∀ t ∈ spans, t.Within lower upper := by
  induction spans generalizing lower with
  | nil => exact List.forall_mem_nil _
  | cons s rest ih =>
    obtain ⟨hlower, hs, hrest⟩ := h
    have hle := hrest.le
    refine List.forall_mem_cons.mpr ⟨⟨hlower, hs, hle⟩, fun t ht => ?_⟩
    exact (ih hrest t ht).mono (by omega) (Nat.le_refl _)

theorem pairwise (h : InTurn lower spans upper) : spans.Pairwise (·.stop ≤ ·.start) := by
  induction spans generalizing lower with
  | nil => exact .nil
  | cons s rest ih =>
    obtain ⟨-, -, hrest⟩ := h
    exact .cons (fun t ht => (hrest.within t ht).lower_le) (ih hrest)

theorem surrounds (h : InTurn s.start spans s.stop) : s.Surrounds spans where
  start_lt t ht := (h.within t ht).start_lt
  within t ht := ⟨(h.within t ht).lower_le, (h.within t ht).stop_le⟩
  ordered := h.pairwise

/-- A span that begins with the first of some spans or before it, and ends with the last. -/
theorem surrounds_merge {last : Span} (h : InTurn s.start (spans ++ [last]) upper) :
    (s.merge last).Surrounds (spans ++ [last]) := by
  have hlast := h.within last (List.mem_append_right _ (List.mem_singleton.mpr rfl))
  have hle := hlast.lower_le
  refine (h.upto_last.mono ?_ ?_).surrounds
  · rw [start_merge]
    omega
  · rw [stop_merge]
    omega

end InTurn

/-- Merging a span with one behind it reaches from the start of the one to the stop of the other. -/
theorem merge_of_within (ha : a.Within lower mid) (hb : b.Within mid upper) :
    (a.merge b).start = a.start ∧ (a.merge b).stop = b.stop := by
  obtain ⟨-, ha, hmid⟩ := ha
  obtain ⟨hmid', hb, -⟩ := hb
  rw [start_merge, stop_merge]
  omega

theorem Within.merge (ha : a.Within lower mid) (hb : b.Within mid upper) :
    (a.merge b).Within lower upper := by
  obtain ⟨hstart, hstop⟩ := merge_of_within ha hb
  obtain ⟨hlower, ha, hmid⟩ := ha
  obtain ⟨hmid', hb, hupper⟩ := hb
  refine ⟨?_, ?_, ?_⟩ <;> omega

end Span

namespace Node

open ClipScript.Span (InTurn Within)

/-- The spans of what a node is made of, in the order of the text.  Besides its parts these are the
parameters of a function. -/
def partSpans : Node → List Span
  | functionDef _ _ params body => params.map Param.span ++ [body.span]
  | n => n.parts.map span

/-- What the tree and every tree within it is made of follows one another within its span. -/
def Nested (n : Node) : Prop := ∀ u ∈ n.subtrees, InTurn u.span.start u.partSpans u.span.stop

/-- A tree whose spans nest, between two bytes. -/
structure Laid (lower : Nat) (n : Node) (upper : Nat) : Prop where
  place : n.span.Within lower upper
  nested : n.Nested

/-- Trees whose spans nest, one after the other between two bytes. -/
structure LaidAll (lower : Nat) (nodes : List Node) (upper : Nat) : Prop where
  places : InTurn lower (nodes.map span) upper
  nested : ∀ n ∈ nodes, n.Nested

variable {n : Node} {lower mid upper : Nat}

theorem nested_iff :
    n.Nested ↔
      InTurn n.span.start n.partSpans n.span.stop ∧ ∀ part ∈ n.parts, part.Nested := by
  constructor
  · intro h
    exact ⟨h n n.self_mem_subtrees, fun part hpart => forall_subtrees_of_mem_parts h hpart⟩
  · rintro ⟨hn, hparts⟩ u hu
    rw [subtrees_eq, List.mem_cons, List.mem_flatMap] at hu
    obtain rfl | ⟨part, hpart, hu⟩ := hu
    · exact hn
    · exact hparts part hpart u hu

theorem laid_of_parts_nil (hspans : n.partSpans = []) (hparts : n.parts = [])
    (hplace : n.span.Within lower upper) : n.Laid lower upper := by
  refine ⟨hplace, nested_iff.mpr ⟨?_, ?_⟩⟩
  · rw [hspans]
    exact Nat.le_of_lt hplace.start_lt
  · rw [hparts]
    exact List.forall_mem_nil _

/-- A node that reaches from the first to the last of some spans, with its parts among them. -/
theorem laid_merge {first last : Span} (between : List Span)
    (h : InTurn lower (first :: (between ++ [last])) upper) (hspan : n.span = first.merge last)
    (hparts : n.partSpans.Sublist (first :: (between ++ [last])))
    (hnested : ∀ part ∈ n.parts, part.Nested) : n.Laid lower upper := by
  obtain ⟨hlower, hfirst, hrest⟩ := h
  have hlast := hrest.within last (List.mem_append_right _ (List.mem_singleton.mpr rfl))
  have hall : InTurn first.start (first :: (between ++ [last])) last.stop :=
    ⟨Nat.le_refl _, hfirst, hrest.upto_last⟩
  have hends : first.Within lower first.stop := ⟨hlower, hfirst, Nat.le_refl _⟩
  obtain ⟨hstart, hstop⟩ := Span.merge_of_within hends hlast
  refine ⟨?_, nested_iff.mpr ⟨?_, hnested⟩⟩
  · rw [hspan]
    exact hends.merge hlast
  · rw [hspan, hstart, hstop]
    exact hall.sublist hparts

theorem Laid.mono (h : n.Laid lower upper) {lower' upper' : Nat} (hlower : lower' ≤ lower)
    (hupper : upper ≤ upper') : n.Laid lower' upper' :=
  ⟨h.place.mono hlower hupper, h.nested⟩

namespace LaidAll

variable {nodes more : List Node}

theorem nil (h : lower ≤ upper) : LaidAll lower [] upper := ⟨h, List.forall_mem_nil _⟩

theorem singleton (h : n.Laid lower upper) : LaidAll lower [n] upper :=
  ⟨.singleton h.place, List.forall_mem_singleton.mpr h.nested⟩

theorem mono (h : LaidAll lower nodes upper) {lower' upper' : Nat} (hlower : lower' ≤ lower)
    (hupper : upper ≤ upper') : LaidAll lower' nodes upper' :=
  ⟨h.places.mono hlower hupper, h.nested⟩

theorem append (h : LaidAll lower nodes mid) (h' : LaidAll mid more upper) :
    LaidAll lower (nodes ++ more) upper := by
  refine ⟨?_, List.forall_mem_append.mpr ⟨h.nested, h'.nested⟩⟩
  rw [List.map_append]
  exact h.places.append h'.places

theorem cons (h : n.Laid lower mid) (h' : LaidAll mid nodes upper) :
    LaidAll lower (n :: nodes) upper :=
  (singleton h).append h'

end LaidAll

/-- A node that reaches from its first part to its last. -/
theorem laid_of_parts {first last : Node} (between : List Node)
    (h : LaidAll lower (first :: (between ++ [last])) upper)
    (hspan : n.span = first.span.merge last.span)
    (hspans : n.partSpans = (first :: (between ++ [last])).map span)
    (hparts : n.parts = first :: (between ++ [last])) : n.Laid lower upper := by
  have hall := h.places
  rw [List.map_cons, List.map_append] at hall hspans
  refine laid_merge (between.map span) hall hspan ?_ ?_
  · rw [hspans]
    exact .refl _
  · rw [hparts]
    exact h.nested

/-- A node that reaches from a token to a token, with its parts between the two. -/
theorem laid_between {first last : Span} {mid' : Nat} (hfirst : first.Within lower mid)
    (h : LaidAll mid n.parts mid') (hlast : last.Within mid' upper)
    (hspan : n.span = first.merge last) (hspans : n.partSpans = n.parts.map span) :
    n.Laid lower upper := by
  have hall : InTurn lower (first :: (n.partSpans ++ [last])) upper := by
    rw [hspans]
    exact .cons hfirst (h.places.append (.singleton hlast))
  exact laid_merge _ hall hspan (.cons _ (List.sublist_append_left _ _)) h.nested

/-- A node that reaches from a token to its last part. -/
theorem laid_from {first last : Span} (between : List Span) (hfirst : first.Within lower mid)
    (hspans : n.partSpans = between ++ [last]) (h : InTurn mid n.partSpans upper)
    (hspan : n.span = first.merge last) (hnested : ∀ part ∈ n.parts, part.Nested) :
    n.Laid lower upper := by
  rw [hspans] at h
  refine laid_merge between (.cons hfirst h) hspan ?_ hnested
  rw [hspans]
  exact .cons _ (.refl _)

end Node
end ClipScript
