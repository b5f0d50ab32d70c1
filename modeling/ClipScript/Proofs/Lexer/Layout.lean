/-
How a text is made up of words and the gaps around them.

`Layout place text words` lays `words` out over `text`, which begins at `place`: each stands behind
a gap, is the word that leads there, and bears the span of the characters it is made of.  The lexer
succeeds exactly on the texts that have a layout, and its tokens are those of the layout and a last
one at the end of the text (`lexFrom_eq_ok_iff`).  The layout is what the results about tokens are
read off: they follow one another (`Layout.pairwise`), the gaps between them hold nothing but blanks
and comments (`Layout.gapsFilled`), and each is the longest word that begins where it does
(`Leads.stop_le_of_lex`).
-/
import ClipScript.Proofs.Lexer.Spacing
import ClipScript.Proofs.Text.Accurate

namespace ClipScript
namespace Lexer

open String (utf8Len)
open Text

/-! ## The loop, one answer at a time -/

/-- The token at the end of a text. -/
def finish (place : Position) : Token := ⟨.eof, place.span []⟩

theorem lexFrom_unfold (place : Position) (text : List Char) :
    lexFrom place text = match scan text with
      | .finished => .ok [finish place]
      | .trivia taken rest => lexFrom (place.after taken) rest
      | .token kind taken rest =>
        (lexFrom (place.after taken) rest).map (⟨kind, place.span taken⟩ :: ·)
      | .stuck fault before taken => .error ⟨fault, (place.after before).span taken⟩ := by
  rw [lexFrom]
  split
  · next h => simp only [h, finish]
  · next h => simp only [h]
  · next kind taken rest h =>
    simp only [h]
    cases lexFrom (place.after taken) rest <;> rfl
  · next h => simp only [h]

theorem lexFrom_nil (place : Position) : lexFrom place [] = .ok [finish place] := by
  exact lexFrom_unfold place []

theorem lexFrom_of_trivia {place : Position} {text taken rest : List Char}
    (h : scan text = .trivia taken rest) :
    lexFrom place text = lexFrom (place.after taken) rest := by
  rw [lexFrom_unfold, h]

theorem lexFrom_of_token {place : Position} {text : List Char} {kind : TokenKind}
    {word rest : List Char} (h : scan text = .token kind word rest) :
    lexFrom place text
      = (lexFrom (place.after word) rest).map (⟨kind, place.span word⟩ :: ·) := by
  rw [lexFrom_unfold, h]

/-- Blanks and comments only move the place. -/
theorem lexFrom_spacing {gap : List Char} (h : Spacing gap) (place : Position) (rest : List Char) :
    lexFrom place (gap ++ rest) = lexFrom (place.after gap) rest := by
  induction h generalizing place with
  | nil => rfl
  | @cons piece gap hpiece _ ih =>
    rw [List.append_assoc, lexFrom_of_trivia (scan_of_piece hpiece _), ih, Position.after_append]

theorem lexFrom_trailing {gap : List Char} (h : Trailing gap) (place : Position) :
    lexFrom place gap = .ok [finish (place.after gap)] := by
  obtain ⟨gap, last, hgap, hlast, rfl⟩ := h
  rw [lexFrom_spacing hgap, Position.after_append]
  rcases hlast with rfl | hlast
  · exact lexFrom_nil _
  · rw [lexFrom_of_trivia (scan_of_openLine hlast)]
    exact lexFrom_nil _

/-! ## Layouts -/

/-- `words` laid out over a text that begins at `place`. -/
inductive Layout : Position → List Char → List Token → Prop where
  | last {place : Position} {gap : List Char} : Trailing gap → Layout place gap []
  | word {place : Position} {gap word rest : List Char} {kind : TokenKind} {words : List Token} :
      Spacing gap → Leads kind word rest → Layout ((place.after gap).after word) rest words →
      Layout place (gap ++ (word ++ rest)) (⟨kind, (place.after gap).span word⟩ :: words)

namespace Layout

variable {place : Position} {text : List Char} {words : List Token}

theorem skip {piece : List Char} (hpiece : Piece piece)
    (h : Layout (place.after piece) text words) : Layout place (piece ++ text) words := by
  cases h with
  | last hgap => exact .last (hgap.cons hpiece)
  | @word _ gap word rest kind words hgap hword hrest =>
    rw [← Position.after_append _ piece gap] at hrest ⊢
    rw [← List.append_assoc]
    exact .word (.cons hpiece hgap) hword hrest

theorem lexFrom_eq (h : Layout place text words) :
    lexFrom place text = .ok (words ++ [finish (place.after text)]) := by
  induction h with
  | last hgap => exact lexFrom_trailing hgap _
  | @word place gap word rest kind words hgap hword _ ih =>
    rw [lexFrom_spacing hgap, lexFrom_of_token (scan_of_leads hword), ih, Position.after_append,
      Position.after_append]
    rfl

theorem of_lexFrom {tokens : List Token} (h : lexFrom place text = .ok tokens) :
    ∃ words, Layout place text words := by
  fun_induction lexFrom place text generalizing tokens with
  | case1 place text hscan =>
    have hsplits := splits_scan text
    rw [hscan] at hsplits
    subst hsplits
    exact ⟨[], .last Spacing.nil.trailing⟩
  | case2 place text taken rest hscan _ ih =>
    obtain ⟨words, hwords⟩ := ih h
    have hsplits := splits_scan text
    rw [hscan] at hsplits
    obtain ⟨-, rfl⟩ := hsplits
    rcases piece_of_scan hscan with hpiece | ⟨hline, rfl⟩
    · exact ⟨words, hwords.skip hpiece⟩
    · exact ⟨[], .last ⟨[], taken, .nil, .inr hline, List.append_nil taken⟩⟩
  | case3 place text kind word rest hscan _ tokens hrest ih =>
    obtain ⟨words, hwords⟩ := ih hrest
    obtain ⟨hword, rfl⟩ := scan_eq_token_iff.mp hscan
    exact ⟨_, @Layout.word place [] word rest kind words .nil hword hwords⟩
  | case4 => cases h
  | case5 => cases h

end Layout

/-- The lexer succeeds on the texts that have a layout, with its words and the end of the text. -/
theorem lexFrom_eq_ok_iff {place : Position} {text : List Char} {tokens : List Token} :
    lexFrom place text = .ok tokens ↔
      ∃ words, Layout place text words ∧ tokens = words ++ [finish (place.after text)] := by
  constructor
  · intro h
    obtain ⟨words, hwords⟩ := Layout.of_lexFrom h
    rw [hwords.lexFrom_eq] at h
    exact ⟨words, hwords, (Except.ok.inj h).symm⟩
  · rintro ⟨words, hwords, rfl⟩
    exact hwords.lexFrom_eq

/-- A failure is where nothing can be read any more, and points at a stretch of the text there. -/
theorem exists_of_lexFrom_error {place : Position} {text : List Char} {e : LexError}
    (h : lexFrom place text = .error e) :
    ∃ passed before taken rest, text = passed ++ (before ++ taken ++ rest) ∧
      scan (before ++ taken ++ rest) = .stuck e.fault before taken ∧
      e.span = (place.after (passed ++ before)).span taken := by
  fun_induction lexFrom place text with
  | case1 => cases h
  | case2 place text taken rest hscan _ ih =>
    obtain ⟨passed, before, taken', rest', rfl, hstuck, hspan⟩ := ih h
    have hsplits := splits_scan text
    rw [hscan] at hsplits
    refine ⟨taken ++ passed, before, taken', rest', ?_, hstuck, ?_⟩
    · rw [← hsplits.2, List.append_assoc taken]
    · rw [hspan, List.append_assoc, Position.after_append _ taken]
  | case3 => cases h
  | case4 place text kind word rest hscan _ e' hrest ih =>
    cases h
    obtain ⟨passed, before, taken', rest', rfl, hstuck, hspan⟩ := ih hrest
    have hsplits := splits_scan text
    rw [hscan] at hsplits
    refine ⟨word ++ passed, before, taken', rest', ?_, hstuck, ?_⟩
    · rw [← hsplits.2, List.append_assoc word]
    · rw [hspan, List.append_assoc, Position.after_append _ word]
  | case5 place text fault before taken hscan =>
    cases h
    have hsplits := splits_scan text
    rw [hscan] at hsplits
    obtain ⟨-, rest, rfl⟩ := hsplits
    exact ⟨[], before, taken, rest, rfl, hscan, rfl⟩

/-! ## The words of a layout -/

section

variable {place : Position} {text : List Char} {words : List Token}

theorem Layout.exists_of_mem (h : Layout place text words) {t : Token} (ht : t ∈ words) :
    ∃ before word rest, text = before ++ (word ++ rest) ∧ Leads t.kind word rest ∧
      t.span = (place.after before).span word := by
  induction h with
  | last => cases ht
  | @word place gap word rest kind words _ hword _ ih =>
    rcases List.mem_cons.mp ht with rfl | ht
    · exact ⟨gap, word, rest, rfl, hword, rfl⟩
    · obtain ⟨before, word', rest', rfl, hword', hspan⟩ := ih ht
      refine ⟨gap ++ (word ++ before), word', rest', by simp only [List.append_assoc], hword', ?_⟩
      rw [hspan, Position.after_append, Position.after_append]

theorem Layout.offset_le (h : Layout place text words) {t : Token} (ht : t ∈ words) :
    place.offset ≤ t.span.start := by
  obtain ⟨before, word, rest, -, -, hspan⟩ := h.exists_of_mem ht
  rw [hspan]
  show _ ≤ (place.after before).offset
  rw [Position.offset_after]
  omega

/-- No word begins before the one before it has ended. -/
theorem Layout.pairwise (h : Layout place text words) :
    words.Pairwise (·.span.stop ≤ ·.span.start) := by
  induction h with
  | last => exact .nil
  | word _ _ hrest ih => exact .cons (fun t ht => hrest.offset_le ht) ih

end

/-- The gaps before, between and behind `words` from the byte `start` on hold nothing but blanks and
comments.  A comment may run to the end of the text only behind the last word. -/
def GapsFilled (source : String) : Nat → List Token → Prop
  | start, [] => Trailing (slice source start source.utf8ByteSize).toList
  | start, t :: words =>
    Spacing (slice source start t.span.start).toList ∧ GapsFilled source t.span.stop words

theorem Layout.gapsFilled {source : String} {before text : List Char} {words : List Token}
    (h : Layout (Position.start.after before) text words)
    (hsource : source.toList = before ++ text) : GapsFilled source (utf8Len before) words := by
  generalize hplace : Position.start.after before = place at h
  induction h generalizing before with
  | @last place gap hgap =>
    have hend : source.toList = before ++ gap ++ [] := by rw [hsource, List.append_nil]
    have hslice := slice_of_append hend
    rw [← utf8ByteSize_of_append hsource] at hslice
    rw [GapsFilled, hslice, String.toList_ofList]
    exact hgap
  | @word place gap word rest kind words hgap _ _ ih =>
    subst hplace
    have hsplit : source.toList = before ++ gap ++ (word ++ rest) := by
      rw [hsource, List.append_assoc]
    have hrest : source.toList = before ++ gap ++ word ++ rest := by
      rw [hsplit, List.append_assoc _ word]
    have hstart : ((Position.start.after before).after gap).offset
        = utf8Len before + utf8Len gap := by
      rw [Position.offset_after, Position.after_start]
    have hstop : (((Position.start.after before).after gap).after word).offset
        = utf8Len (before ++ gap ++ word) := by
      rw [Position.offset_after, hstart, String.utf8Len_append, String.utf8Len_append]
    refine ⟨?_, ?_⟩
    · show Spacing (slice source _ ((Position.start.after before).after gap).offset).toList
      rw [hstart, slice_of_append hsplit, String.toList_ofList]
      exact hgap
    · show GapsFilled source (((Position.start.after before).after gap).after word).offset words
      rw [hstop]
      refine ih hrest ?_
      rw [Position.after_append, Position.after_append]

/-! ## The whole text -/

/-- What is passed over before the first token is looked for: a byte order mark, if the text begins
with one. -/
def Skipped (mark text : List Char) : Prop :=
  mark = [] ∧ byteOrderMark ∉ text.head? ∨ mark = [byteOrderMark]

theorem exists_skipped (source : String) :
    ∃ mark text, Skipped mark text ∧ source.toList = mark ++ text := by
  by_cases h : byteOrderMark ∈ source.toList.head?
  · obtain ⟨text, htext⟩ := List.head?_eq_some_iff.mp h
    exact ⟨[byteOrderMark], text, .inr rfl, htext⟩
  · exact ⟨[], source.toList, .inl ⟨rfl, h⟩, rfl⟩

theorem lex_of_skipped {source : String} {mark text : List Char} (h : Skipped mark text)
    (hsource : source.toList = mark ++ text) :
    lex source = lexFrom (Position.start.after mark) text := by
  rw [lex, hsource]
  rcases h with ⟨rfl, hhead⟩ | rfl
  · cases text with
    | nil => rfl
    | cons c text =>
      have hc : c ≠ byteOrderMark := by
        rintro rfl
        exact hhead rfl
      show (if c == byteOrderMark then _ else _) = _
      rw [if_neg (by simpa using hc)]
      rfl
  · rfl

/-- The tokens of a text are laid out over it behind what is skipped. -/
theorem exists_layout {source : String} {tokens : List Token} (h : lex source = .ok tokens) :
    ∃ mark text words, Skipped mark text ∧ source.toList = mark ++ text ∧
      Layout (Position.start.after mark) text words ∧
      tokens = words ++ [finish (Position.start.after source.toList)] := by
  obtain ⟨mark, text, hskipped, hsource⟩ := exists_skipped source
  rw [lex_of_skipped hskipped hsource] at h
  obtain ⟨words, hwords, rfl⟩ := lexFrom_eq_ok_iff.mp h
  refine ⟨mark, text, words, hskipped, hsource, hwords, ?_⟩
  rw [hsource, Position.after_append]

theorem lex_of_leads {kind : TokenKind} {word : List Char} (h : Leads kind word []) :
    lex (String.ofList word) = .ok [⟨kind, Position.start.span word⟩,
      finish (Position.start.after word)] := by
  have hskipped : Skipped [] word := by
    refine .inl ⟨rfl, fun hhead => ?_⟩
    obtain ⟨tail, rfl⟩ := List.head?_eq_some_iff.mp hhead
    exact h.head_ne_byteOrderMark rfl
  have hlayout : Layout Position.start ([] ++ (word ++ [])) [⟨kind, Position.start.span word⟩] :=
    .word .nil h (.last Spacing.nil.trailing)
  rw [List.nil_append, List.append_nil] at hlayout
  have hsource : (String.ofList word).toList = [] ++ word := String.toList_ofList
  rw [lex_of_skipped hskipped hsource]
  exact hlayout.lexFrom_eq

theorem leads_of_lex {source : String} {u e : Token} (h : lex source = .ok [u, e])
    (hstart : u.span.start = 0) (hstop : u.span.stop = source.utf8ByteSize) :
    Leads u.kind source.toList [] := by
  obtain ⟨mark, text, words, -, hsource, hwords, htokens⟩ := exists_layout h
  have hsplit : [u] ++ [e] = words ++ [finish (Position.start.after source.toList)] := htokens
  obtain rfl : [u] = words := (List.append_inj' hsplit rfl).1
  obtain ⟨before, word, rest, rfl, hword, hspan⟩ := hwords.exists_of_mem List.mem_cons_self
  rw [← Position.after_append] at hspan
  rw [← List.append_assoc] at hsource
  -- it begins with the text and ends with it, so nothing stands before it or behind it
  have hempty : mark ++ before = [] := by
    rw [hspan] at hstart
    have hoffset : (Position.start.after (mark ++ before)).offset = 0 := hstart
    rw [Position.after_start] at hoffset
    exact String.utf8Len_eq_zero.mp hoffset
  rw [hempty, List.nil_append] at hsource
  rw [hempty] at hspan
  have hrest : rest = [] := by
    have hoffset : (Position.start.after word).offset = source.utf8ByteSize := by
      rw [← hstop, hspan]
      rfl
    rw [Position.after_start, utf8ByteSize_of_append hsource] at hoffset
    exact String.utf8Len_eq_zero.mp (by dsimp only at hoffset; omega)
  rw [hsource, hrest, List.append_nil]
  rw [hrest] at hword
  exact hword

theorem Leads.utf8Len_pos {kind : TokenKind} {word rest : List Char} (h : Leads kind word rest) :
    0 < utf8Len word := by
  refine Nat.pos_of_ne_zero fun hzero => h.ne_nil ?_
  exact String.utf8Len_eq_zero.mp hzero

/-- A stretch of the text that begins where a word does, and is one token, ends no later than the
word. -/
theorem Leads.stop_le_of_lex {source : String} {kind : TokenKind} {before word rest : List Char}
    (h : Leads kind word rest) (hsource : source.toList = before ++ word ++ rest) {stop : Nat}
    (hboundary : IsBoundary source stop) (hle : utf8Len before + utf8Len word ≤ stop) {u e : Token}
    (hlex : lex (slice source (utf8Len before) stop) = .ok [u, e]) (hstart : u.span.start = 0)
    (hstop : u.span.stop = (slice source (utf8Len before) stop).utf8ByteSize) :
    stop ≤ utf8Len before + utf8Len word := by
  rw [← String.utf8Len_append] at hle
  obtain ⟨more, rest', rfl, rfl⟩ := hboundary.exists_append_of_le hsource hle
  have hlong : source.toList = before ++ (word ++ more) ++ rest' := by
    rw [hsource]
    simp only [List.append_assoc]
  have hslice : slice source (utf8Len before) (utf8Len (before ++ word) + utf8Len more)
      = String.ofList (word ++ more) := by
    rw [← slice_of_append hlong, String.utf8Len_append, String.utf8Len_append, Nat.add_assoc]
  rw [hslice] at hlex hstop
  have hlonger := leads_of_lex hlex hstart hstop
  rw [String.toList_ofList] at hlonger
  -- both words lead the same text, so the longer one is no longer
  have hscan := scan_of_leads h
  rw [← List.append_assoc] at hscan
  have hlength := hlonger.length_le hscan
  rw [List.length_append] at hlength
  have hmore : more = [] := List.length_eq_zero_iff.mp (by omega)
  rw [hmore, String.utf8Len_nil, String.utf8Len_append]
  exact Nat.le_refl _

/-- `words` and the end of the text `last` account for the whole of `source`, and each word for as
much of it as it can. -/
structure Lossless (source : String) (words : List Token) (last : Token) : Prop where
  last_kind : last.kind = .eof
  last_start : last.span.start = source.utf8ByteSize
  last_stop : last.span.stop = source.utf8ByteSize
  kind_ne : ∀ t ∈ words, t.kind ≠ .eof
  start_lt : ∀ t ∈ words, t.span.start < t.span.stop
  boundary : ∀ t ∈ words, IsBoundary source t.span.start ∧ IsBoundary source t.span.stop
  ordered : words.Pairwise (·.span.stop ≤ ·.span.start)
  gaps : GapsFilled source 0 words ∨ source.toList.head? = some byteOrderMark ∧
    GapsFilled source byteOrderMark.utf8Size words
  alone : ∀ t ∈ words, ∃ u e, lex (slice source t.span.start t.span.stop) = .ok [u, e] ∧
    u.kind = t.kind ∧ e.kind = .eof
  longest : ∀ t ∈ words, ∀ stop, t.span.stop < stop → IsBoundary source stop →
    ∀ u e, lex (slice source t.span.start stop) = .ok [u, e] →
      ¬ (u.span.start = 0 ∧ u.span.stop = (slice source t.span.start stop).utf8ByteSize)

/-- The words of a layout, each where it stands in the whole text. -/
theorem Layout.exists_of_mem_source {source : String} {mark text : List Char} {words : List Token}
    (h : Layout (Position.start.after mark) text words) (hsource : source.toList = mark ++ text)
    {t : Token} (ht : t ∈ words) :
    ∃ before word rest, source.toList = before ++ word ++ rest ∧ Leads t.kind word rest ∧
      t.span = (Position.start.after before).span word ∧
      t.span.start = utf8Len before ∧ t.span.stop = utf8Len before + utf8Len word := by
  obtain ⟨before, word, rest, rfl, hword, hspan⟩ := h.exists_of_mem ht
  rw [← Position.after_append] at hspan
  refine ⟨mark ++ before, word, rest, ?_, hword, hspan, ?_, ?_⟩
  · rw [hsource]
    simp only [List.append_assoc]
  · rw [hspan]
    show (Position.start.after (mark ++ before)).offset = _
    rw [Position.after_start]
  · rw [hspan]
    show ((Position.start.after (mark ++ before)).after word).offset = _
    rw [Position.offset_after, Position.after_start]

/-- Tokens account for the whole text: they end with the end of the text, follow one another with
nothing but blanks and comments around them, and each is by itself that token and the longest that
begins where it does. -/
theorem lossless_of_lex {source : String} {tokens : List Token} (h : lex source = .ok tokens) :
    ∃ words last, tokens = words ++ [last] ∧ Lossless source words last := by
  obtain ⟨mark, text, words, hskipped, hsource, hwords, htokens⟩ := exists_layout h
  have hlast : (Position.start.after source.toList).offset = source.utf8ByteSize := by
    rw [Position.after_start, String.utf8Len_toList]
  refine ⟨words, _, htokens, rfl, hlast, hlast, ?_, ?_, ?_, hwords.pairwise, ?_, ?_, ?_⟩
  · intro t ht
    obtain ⟨before, word, rest, -, hword, -⟩ := hwords.exists_of_mem ht
    exact hword.kind_ne_eof
  · intro t ht
    obtain ⟨before, word, rest, -, hword, -, hstart, hstop⟩ :=
      hwords.exists_of_mem_source hsource ht
    have := hword.utf8Len_pos
    omega
  · intro t ht
    obtain ⟨before, word, rest, hsplit, -, -, hstart, hstop⟩ :=
      hwords.exists_of_mem_source hsource ht
    have hbefore : source.toList = before ++ (word ++ rest) := by rw [hsplit, List.append_assoc]
    rw [hstart, hstop, ← String.utf8Len_append]
    exact ⟨isBoundary_of_append hbefore, isBoundary_of_append hsplit⟩
  · have hgaps := hwords.gapsFilled hsource
    rcases hskipped with ⟨rfl, -⟩ | rfl
    · exact .inl hgaps
    · exact .inr ⟨by rw [hsource]; rfl, hgaps⟩
  · intro t ht
    obtain ⟨before, word, rest, hsplit, hword, -, hstart, hstop⟩ :=
      hwords.exists_of_mem_source hsource ht
    rw [hstart, hstop, slice_of_append hsplit]
    exact ⟨_, _, lex_of_leads hword.alone, rfl, rfl⟩
  · intro t ht stop hlt hboundary u e hu hcover
    obtain ⟨before, word, rest, hsplit, hword, -, hstart, hstop⟩ :=
      hwords.exists_of_mem_source hsource ht
    rw [hstart] at hu hcover
    have hle := hword.stop_le_of_lex hsplit hboundary (by omega) hu hcover.1 hcover.2
    omega

/-- A number before a point, a comment without a line feed and a byte order mark: where a word ends
depends on what follows it. -/
theorem lossless_of_lex_chain : ∃ tokens, lex "\uFEFFx_1 = 3.f; # last" = .ok tokens ∧
    ∃ words last, tokens = words ++ [last] ∧
      Lossless "\uFEFFx_1 = 3.f; # last" words last := by
  have hlexed : (lex "\uFEFFx_1 = 3.f; # last").isOk := by decide +kernel
  cases htokens : lex "\uFEFFx_1 = 3.f; # last" with
  | error e =>
    rw [htokens] at hlexed
    cases hlexed
  | ok tokens => exact ⟨tokens, rfl, lossless_of_lex htokens⟩

end Lexer
end ClipScript
