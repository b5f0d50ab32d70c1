/-
Places in a text, and spans that give them right.

A span is accurate for a text if it lies within it, starts between two characters, and has the line
and the column that one gets by counting from the start of the text.  Readers do not count: they
move a position over what they read.  `Position.after_start` says that the two are the same, and
`Position.accurate_span` that a span laid over a stretch of the text is accurate.

Offsets are bytes, so the text is cut with the operations on raw positions of a string.
-/
import ClipScript.Text.Position
import Mathlib.Data.List.DropRight
import Mathlib.Data.String.Basic

namespace ClipScript

open String (utf8Len)

namespace Text

/-- The text from byte `start` up to byte `stop`. -/
def slice (source : String) (start stop : Nat) : String :=
  String.Pos.Raw.extract source ⟨start⟩ ⟨stop⟩

/-- A byte offset between two characters, or at one of the ends. -/
def IsBoundary (source : String) (offset : Nat) : Prop :=
  String.Pos.Raw.Valid source ⟨offset⟩

theorem slice_of_append {source : String} {before mid rest : List Char}
    (h : source.toList = before ++ mid ++ rest) :
    slice source (utf8Len before) (utf8Len before + utf8Len mid) = String.ofList mid := by
  have hsource : source = String.ofList (before ++ mid ++ rest) := by
    rw [← h, String.ofList_toList]
  rw [hsource]
  exact String.extract_of_valid before mid rest

theorem slice_zero_of_append {source : String} {before rest : List Char}
    (h : source.toList = before ++ rest) :
    slice source 0 (utf8Len before) = String.ofList before := by
  have hnil : source.toList = [] ++ before ++ rest := h
  have hslice := slice_of_append hnil
  rwa [String.utf8Len_nil, Nat.zero_add] at hslice

theorem isBoundary_of_append {source : String} {before rest : List Char}
    (h : source.toList = before ++ rest) : IsBoundary source (utf8Len before) :=
  .intro ⟨before, rest, h.symm, rfl⟩

theorem IsBoundary.exists_append {source : String} {offset : Nat} (h : IsBoundary source offset) :
    ∃ before rest, source.toList = before ++ rest ∧ utf8Len before = offset := by
  obtain ⟨before, rest, hsource, hoffset⟩ := String.Pos.Raw.Valid.exists h
  refine ⟨before, rest, ?_, ?_⟩
  · rw [← hsource, String.toList_ofList]
  · exact (congrArg String.Pos.Raw.byteIdx hoffset).symm

theorem IsBoundary.exists_append_of_le {source : String} {offset : Nat} {before rest : List Char}
    (h : IsBoundary source offset) (hsource : source.toList = before ++ rest)
    (hle : utf8Len before ≤ offset) :
    ∃ more rest', rest = more ++ rest' ∧ utf8Len before + utf8Len more = offset := by
  obtain ⟨upto, rest', hupto, rfl⟩ := h.exists_append
  rw [hsource] at hupto
  rcases List.append_eq_append_iff.mp hupto with ⟨more, rfl, rfl⟩ | ⟨more, rfl, rfl⟩
  · exact ⟨more, rest', rfl, (String.utf8Len_append ..).symm⟩
  · -- the boundary lies no further on than `before` ends
    rw [String.utf8Len_append] at hle ⊢
    have hmore : more = [] := String.utf8Len_eq_zero.mp (by omega)
    exact ⟨[], rest, rfl, by simp [hmore]⟩

theorem utf8ByteSize_of_append {source : String} {before rest : List Char}
    (h : source.toList = before ++ rest) :
    source.utf8ByteSize = utf8Len before + utf8Len rest := by
  rw [← String.utf8Len_toList, h, String.utf8Len_append]

namespace Position

theorem offset_after (p : Position) (text : List Char) :
    (p.after text).offset = p.offset + utf8Len text := by
  induction text generalizing p with
  | nil => rfl
  | cons c text ih =>
    have hnext : (p.next c).offset = p.offset + c.utf8Size := by
      rw [next]
      split <;> rfl
    rw [after_cons, ih, hnext, String.utf8Len_cons]
    omega

/-- A position that was moved over a text from the start is where counting puts it. -/
theorem after_start (text : List Char) :
    start.after text = ⟨utf8Len text, 1 + text.count '\n',
      1 + (text.rtakeWhile (· ≠ '\n')).length⟩ := by
  -- the last character decides how the line and the column of the rest go on
  induction text using List.reverseRecOn with
  | nil => rfl
  | append_singleton text c ih =>
    rw [after_append, ih, after_cons, after_nil, next]
    by_cases hc : c = '\n'
    · simp [hc, Nat.add_assoc]
    · simp [hc, Nat.add_assoc]

end Position
end Text

/-- A span that gives its place in a text right. -/
structure Span.Accurate (source : String) (s : Span) : Prop where
  start_le : s.start ≤ s.stop
  stop_le : s.stop ≤ source.utf8ByteSize
  boundary : Text.IsBoundary source s.start
  line : s.line = 1 + (Text.slice source 0 s.start).toList.count '\n'
  column : s.column = 1 + ((Text.slice source 0 s.start).toList.rtakeWhile (· ≠ '\n')).length

/-- A span over a stretch of the text, laid from where the text before it ends, is accurate. -/
theorem Text.Position.accurate_span {source : String} {before taken rest : List Char}
    (h : source.toList = before ++ taken ++ rest) :
    ((start.after before).span taken).Accurate source := by
  have hbefore : source.toList = before ++ (taken ++ rest) := by rw [h, List.append_assoc]
  have hstart : (start.after before).offset = utf8Len before := by rw [after_start]
  have hslice : (slice source 0 (start.after before).offset).toList = before := by
    rw [hstart, slice_zero_of_append hbefore, String.toList_ofList]
  have hsize := utf8ByteSize_of_append h
  rw [String.utf8Len_append] at hsize
  refine ⟨?_, ?_, ?_, ?_, ?_⟩
  · simp only [span, offset_after]
    omega
  · show ((start.after before).after taken).offset ≤ _
    rw [offset_after, hstart]
    omega
  · show IsBoundary source (start.after before).offset
    rw [hstart]
    exact isBoundary_of_append hbefore
  · show (start.after before).line = 1 + (slice source 0 (start.after before).offset).toList.count _
    rw [hslice, after_start]
  · show (start.after before).column
      = 1 + ((slice source 0 (start.after before).offset).toList.rtakeWhile _).length
    rw [hslice, after_start]

/-- Accurate spans merge to an accurate one: the earlier of the two gives the place. -/
theorem Span.Accurate.merge {source : String} {a b : Span} (ha : a.Accurate source)
    (hb : b.Accurate source) : (a.merge b).Accurate source := by
  have hstop : (a.merge b).stop ≤ source.utf8ByteSize := Nat.max_le.mpr ⟨ha.stop_le, hb.stop_le⟩
  have hle := Nat.le_max_left a.stop b.stop
  have hle' := Nat.le_max_right a.stop b.stop
  by_cases h : a.start ≤ b.start
  · have hmerge : a.merge b = { a with stop := max a.stop b.stop } := by
      rw [Span.merge, if_pos h]
    rw [hmerge] at hstop ⊢
    exact ⟨Nat.le_trans ha.start_le hle, hstop, ha.boundary, ha.line, ha.column⟩
  · have hmerge : a.merge b = { b with stop := max a.stop b.stop } := by
      rw [Span.merge, if_neg h]
    rw [hmerge] at hstop ⊢
    exact ⟨Nat.le_trans hb.start_le hle', hstop, hb.boundary, hb.line, hb.column⟩

end ClipScript
