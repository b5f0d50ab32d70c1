/-
What the snippet of a span shows.

The second row of a snippet is the line that the span begins on, and the third one marks a place
under it (`snippet_shows`).  Readers count line feeds, while a snippet drops lines from the front of
the text; that both arrive at the same line is `Snippet.afterLines_count`.

The two rows have their own gutters.  That of the line widens for a line number of five digits or
more and that of the carets does not, so the carets stand under the character they mark on the first
9999 lines of a script only (`caret_under_iff`).
-/
import ClipScript.Proofs.Places
import ClipScript.Report
import Mathlib.Data.List.Infix

namespace ClipScript

open String (utf8Len)

/-! ## Lines -/

namespace Text

/-- What stands on the same line before a byte of a text. -/
def lineStart (source : String) (offset : Nat) : List Char :=
  (slice source 0 offset).toList.rtakeWhile (· ≠ '\n')

def onward (source : String) (offset : Nat) : List Char :=
  (slice source offset source.utf8ByteSize).toList

/-- The line that a byte of a text lies on: what stands between the line feeds around it, without a
carriage return right before the closing one. -/
def lineAt (source : String) (offset : Nat) : List Char :=
  let line := lineStart source offset ++ (onward source offset).takeWhile (· ≠ '\n')
  if '\n' ∈ onward source offset ∧ line.getLast? = some '\r' then line.dropLast else line

theorem onward_of_append {source : String} {before rest : List Char}
    (h : source.toList = before ++ rest) : onward source (utf8Len before) = rest := by
  have hsplit : source.toList = before ++ rest ++ [] := by rw [h, List.append_nil]
  rw [onward, utf8ByteSize_of_append h, slice_of_append hsplit, String.toList_ofList]

theorem lineStart_of_append {source : String} {before rest : List Char}
    (h : source.toList = before ++ rest) :
    lineStart source (utf8Len before) = before.rtakeWhile (· ≠ '\n') := by
  rw [lineStart, slice_zero_of_append h, String.toList_ofList]

theorem rtakeWhile_line (before line : List Char) :
    (before ++ '\n' :: line).rtakeWhile (· ≠ '\n') = line.rtakeWhile (· ≠ '\n') := by
  induction line using List.reverseRecOn with
  | nil => simp
  | append_singleton line c ih =>
    rw [← List.cons_append, ← List.append_assoc, List.rtakeWhile_concat, List.rtakeWhile_concat, ih]

theorem bne_lineFeed : (fun c : Char => c != '\n') = fun c => decide (c ≠ '\n') := by
  funext c
  by_cases h : c = '\n' <;> simp [h]

end Text

open Text

variable {source : String} {s : Span}

namespace Snippet

/-- Dropping as many lines as there are line feeds before a place leads to the line it is on. -/
theorem afterLines_count (before rest : List Char) :
    afterLines (before.count '\n') (before ++ rest) = before.rtakeWhile (· ≠ '\n') ++ rest := by
  generalize hn : before.count '\n' = n
  induction n generalizing before with
  | zero =>
    have hbefore : before.rtakeWhile (· ≠ '\n') = before := by
      rw [List.rtakeWhile_eq_self_iff]
      intro c hc
      have hne : c ≠ '\n' := ne_of_mem_of_not_mem hc (List.count_eq_zero.mp hn)
      simpa using hne
    rw [hbefore]
    rfl
  | succ n ih =>
    have hmem : '\n' ∈ before := List.count_pos_iff.mp (by omega)
    obtain ⟨first, more, rfl, hfirst⟩ := List.eq_append_cons_of_mem hmem
    have hmore : more.count '\n' = n := by
      rw [List.count_append, List.count_cons_self, List.count_eq_zero.mpr hfirst] at hn
      omega
    have hdrop : (first ++ '\n' :: more ++ rest).dropWhile (· != '\n')
        = '\n' :: (more ++ rest) := by
      rw [List.append_assoc, List.dropWhile_append_of_pos]
      · rfl
      · intro c hc
        simpa using ne_of_mem_of_not_mem hc hfirst
    rw [rtakeWhile_line, ← ih more hmore, afterLines, hdrop]

/-- The row of an accurate span is the line that it begins on. -/
theorem row_of_accurate (h : s.Accurate source) :
    row source.toList s.line = lineAt source s.start := by
  obtain ⟨before, rest, hsource, hstart⟩ := h.boundary.exists_append
  have hline : s.line - 1 = before.count '\n' := by
    rw [h.line, ← hstart, slice_zero_of_append hsource, String.toList_ofList]
    omega
  have hlead : ∀ c ∈ before.rtakeWhile (· ≠ '\n'), decide (c ≠ '\n') = true := by
    intro c hc
    have hne := List.mem_rtakeWhile_imp hc
    exact hne
  rw [row, hline, hsource, afterLines_count, lineAt, ← hstart, lineStart_of_append hsource,
    onward_of_append hsource, bne_lineFeed, List.takeWhile_append_of_pos hlead,
    List.dropWhile_append_of_pos hlead]
  -- what is left behind the row is empty unless a line feed closes it
  by_cases hclosed : '\n' ∈ rest <;> simp [hclosed]

theorem not_mem_row (text : List Char) (line : Nat) : '\n' ∉ row text line := by
  have htake : '\n' ∉ (afterLines (line - 1) text).takeWhile (· != '\n') := by
    intro hmem
    simpa using List.mem_takeWhile_imp hmem
  unfold row
  dsimp only
  split
  · exact htake
  · split
    · exact fun hmem => htake (List.mem_of_mem_dropLast hmem)
    · exact htake

theorem not_mem_toString (n : Nat) : '\n' ∉ (toString n).toList := by
  intro hmem
  rw [Nat.toString_eq_ofList_toDigits, String.toList_ofList] at hmem
  exact absurd (Nat.isDigit_of_mem_toDigits (by decide) (by decide) hmem) (by decide)

def heading (s : Span) : String :=
  " --> line " ++ toString s.line ++ ", column " ++ toString s.column

def gutter (line : Nat) : String := lineLabel line ++ " | "

def caretGutter : String := "     | "

theorem not_mem_heading (s : Span) : '\n' ∉ (heading s).toList := by
  rw [heading]
  simp only [String.toList_append, List.mem_append, not_or]
  exact ⟨⟨⟨by decide, not_mem_toString _⟩, by decide⟩, not_mem_toString _⟩

theorem not_mem_gutter (line : Nat) : '\n' ∉ (gutter line).toList := by
  rw [gutter, lineLabel]
  simp only [String.toList_append, String.toList_ofList, List.mem_append, not_or]
  refine ⟨⟨fun h => ?_, not_mem_toString _⟩, by decide⟩
  exact absurd (List.eq_of_mem_replicate h) (by decide)

theorem not_mem_caretRow (line : List Char) (s : Span) : '\n' ∉ caretRow line s := by
  intro h
  rcases List.mem_append.mp h with h | h
  · exact absurd (List.eq_of_mem_replicate h) (by decide)
  · exact absurd (List.eq_of_mem_replicate h) (by decide)

theorem rows_snippet (source : String) (s : Span) :
    (snippet source s).toList.splitOn '\n' =
      [(heading s).toList, (gutter s.line).toList ++ row source.toList s.line,
        caretGutter.toList ++ caretRow (row source.toList s.line) s] := by
  have hfeed : "\n".toList = ['\n'] := by decide
  have hjoined : (snippet source s).toList = ['\n'].intercalate
      [(heading s).toList, (gutter s.line).toList ++ row source.toList s.line,
        caretGutter.toList ++ caretRow (row source.toList s.line) s] := by
    unfold snippet heading gutter caretGutter
    dsimp only
    simp only [String.toList_append, String.toList_ofList, hfeed]
    simp [List.intercalate]
  rw [hjoined]
  refine List.splitOn_intercalate '\n' ?_ (List.cons_ne_nil _ _)
  simp only [List.forall_mem_cons, List.mem_append, not_or]
  exact ⟨not_mem_heading s, ⟨not_mem_gutter s.line, not_mem_row _ _⟩,
    ⟨by decide, not_mem_caretRow _ _⟩, List.forall_mem_nil _⟩

/-! ## What is shown -/

/-- The snippet of a span shows the line that it begins on, and so many carets under it behind as
many blanks as there are characters on the line before the span. -/
structure Shows (source : String) (s : Span) (carets : Nat) : Prop where
  rows : (snippet source s).toList.splitOn '\n' =
    [(heading s).toList, (gutter s.line).toList ++ lineAt source s.start,
      caretGutter.toList ++ (List.replicate (lineStart source s.start).length ' '
        ++ List.replicate carets '^')]
  pos : 1 ≤ carets
  le : carets ≤ max 1 (s.stop - s.start)
  /-- Carets under a line of plain ASCII text end where it ends. -/
  inside : (∀ c ∈ lineAt source s.start, c.toNat < 128) →
    (lineStart source s.start).length < (lineAt source s.start).length →
    (lineStart source s.start).length + carets ≤ (lineAt source s.start).length
  /-- There is one caret at the last character of such a line and behind it. -/
  single : (∀ c ∈ lineAt source s.start, c.toNat < 128) →
    (lineAt source s.start).length ≤ (lineStart source s.start).length + 1 → carets = 1

theorem utf8ByteSize_of_ascii {text : List Char} (h : ∀ c ∈ text, c.toNat < 128) :
    (String.ofList text).utf8ByteSize = text.length := by
  rw [← String.utf8Len_toList, String.toList_ofList]
  induction text with
  | nil => rfl
  | cons c text ih =>
    obtain ⟨hc, htext⟩ := List.forall_mem_cons.mp h
    have hsize : c.utf8Size = 1 := Char.utf8Size_eq_one_iff.mpr (Nat.le_of_lt_succ hc)
    rw [String.utf8Len_cons, ih htext, hsize]
    rfl

theorem shows_of_accurate (h : s.Accurate source) :
    Shows source s (caretCount (lineAt source s.start) s) := by
  have hcolumn : s.column - 1 = (lineStart source s.start).length := by
    rw [h.column]
    exact Nat.add_sub_cancel_left _ _
  refine ⟨?_, ?_, ?_, ?_, ?_⟩
  · rw [rows_snippet, row_of_accurate h, caretRow, hcolumn]
  · rw [caretCount]
    omega
  · rw [caretCount]
    omega
  · intro hascii hlt
    rw [caretCount, utf8ByteSize_of_ascii hascii, hcolumn]
    omega
  · intro hascii hle
    rw [caretCount, utf8ByteSize_of_ascii hascii, hcolumn]
    omega

end Snippet

/-- A text that is not a script is refused at an accurate span. -/
theorem accurate_of_ofSource_error {e : RuntimeError} (h : Program.ofSource source = .error e) :
    ∃ s ∈ e.span, s.Accurate source := by
  unfold Program.ofSource at h
  split at h
  · next lexError hlex =>
    cases h
    exact ⟨lexError.span, rfl, accurate_of_lex_error hlex⟩
  · next tokens hlex =>
    have hne : tokens ≠ [] := by
      obtain ⟨_, _, words, -, -, -, rfl⟩ := Lexer.exists_layout hlex
      exact List.append_ne_nil_of_right_ne_nil words (List.cons_ne_nil _ _)
    have hread := accurate_of_ofTokens hne (accurate_of_lex hlex)
    split at h
    · next parseError hparse =>
      cases h
      rw [hparse] at hread
      exact ⟨parseError.span, rfl, hread⟩
    · cases h

/-- Reading stops at spans whose snippets show the line that they begin on and mark a place under
it, and so does the snippet of any other accurate span. -/
theorem snippet_shows (source : String) :
    (∀ e, Lexer.lex source = .error e → ∃ carets, Snippet.Shows source e.span carets) ∧
    (∀ e, Program.ofSource source = .error e →
      ∃ s ∈ e.span, ∃ carets, Snippet.Shows source s carets) ∧
    ∀ s : Span, s.Accurate source → ∃ carets, Snippet.Shows source s carets := by
  have hall : ∀ s : Span, s.Accurate source → ∃ carets, Snippet.Shows source s carets :=
    fun s hs => ⟨_, Snippet.shows_of_accurate hs⟩
  refine ⟨fun e he => hall _ (accurate_of_lex_error he), fun e he => ?_, hall⟩
  obtain ⟨s, hs, haccurate⟩ := accurate_of_ofSource_error he
  exact ⟨s, hs, hall s haccurate⟩

/-- A byte order mark, characters of two bytes, and a string that never ends and runs over a line
feed behind a carriage return. -/
theorem snippet_shows_unclosed_string :
    (∃ e, Lexer.lex "\uFEFFé = \"ü\r\n" = .error e ∧ e.span.Accurate "\uFEFFé = \"ü\r\n" ∧
      ∃ carets, Snippet.Shows "\uFEFFé = \"ü\r\n" e.span carets) ∧
    ∃ e, Program.ofSource "\uFEFFé = \"ü\r\n" = .error e ∧
      ∃ s ∈ e.span, ∃ carets, Snippet.Shows "\uFEFFé = \"ü\r\n" s carets := by
  have hrefused : (Lexer.lex "\uFEFFé = \"ü\r\n").toOption.isNone := by decide +kernel
  obtain ⟨-, hread, hany⟩ := snippet_shows "\uFEFFé = \"ü\r\n"
  cases he : Lexer.lex "\uFEFFé = \"ü\r\n" with
  | ok tokens =>
    rw [he] at hrefused
    cases hrefused
  | error e =>
    have haccurate := accurate_of_lex_error he
    have he' : Program.ofSource "\uFEFFé = \"ü\r\n" = .error (.ofLex e) := by
      rw [Program.ofSource, he]
    exact ⟨⟨e, rfl, haccurate, hany _ haccurate⟩, _, he', hread _ he'⟩

/-! ## Alignment -/

namespace Snippet

/-- Where in the second row of its snippet the character stands that a span begins with. -/
def textColumn (source : String) (s : Span) : Nat :=
  (gutter s.line).toList.length + (lineStart source s.start).length

/-- The line number takes four columns, and more only if it has more digits. -/
theorem length_gutter (line : Nat) :
    (gutter line).toList.length = 7 + ((toString line).length - 4) := by
  rw [gutter, lineLabel]
  simp only [String.toList_append, String.toList_ofList, List.length_append, List.length_replicate,
    String.length_toList]
  have hbar : " | ".length = 3 := rfl
  omega

theorem length_toString_le_iff (n : Nat) : (toString n).length ≤ 4 ↔ n < 10000 := by
  rw [Nat.toString_eq_ofList_toDigits, String.length_ofList,
    Nat.length_toDigits_le_iff (by decide) (by decide)]

theorem idxOf_caret (before : Nat) {carets : Nat} (h : 1 ≤ carets) :
    (caretGutter.toList ++ (List.replicate before ' ' ++ List.replicate carets '^')).idxOf '^'
      = 7 + before := by
  obtain ⟨more, rfl⟩ := Nat.exists_eq_add_of_le' h
  have hblank : '^' ∉ List.replicate before ' ' :=
    fun hmem => absurd (List.eq_of_mem_replicate hmem) (by decide)
  rw [List.idxOf_append_of_notMem (by decide), List.idxOf_append_of_notMem hblank,
    List.replicate_succ, List.idxOf_cons_self, List.length_replicate]
  rfl

end Snippet

/-- The character at a byte stands in the line of that byte behind the start of the line. -/
theorem Text.exists_getElem?_lineAt {offset : Nat}
    (h : (lineStart source offset).length < (lineAt source offset).length) :
    ∃ c, (onward source offset).head? = some c ∧
      (lineAt source offset)[(lineStart source offset).length]? = some c := by
  have hprefix : lineAt source offset
      <+: lineStart source offset ++ (onward source offset).takeWhile (· ≠ '\n') := by
    rw [lineAt]
    split
    · exact List.dropLast_prefix _
    · exact List.prefix_rfl
  obtain ⟨c, hc⟩ : ∃ c, (lineAt source offset)[(lineStart source offset).length]? = some c :=
    ⟨_, List.getElem?_eq_getElem h⟩
  refine ⟨c, ?_, hc⟩
  obtain ⟨more, hmore⟩ := hprefix
  rw [← List.getElem?_append_left h, hmore, List.getElem?_append_right (Nat.le_refl _),
    Nat.sub_self, ← List.head?_eq_getElem?, List.head?_takeWhile] at hc
  exact (Option.filter_eq_some_iff.mp hc).1

theorem Text.length_lineStart_lt {before rest : List Char} {c : Char}
    (h : source.toList = before ++ c :: rest) (hfeed : c ≠ '\n') (hreturn : c ≠ '\r') :
    (lineStart source (utf8Len before)).length < (lineAt source (utf8Len before)).length := by
  rw [lineAt, onward_of_append h, List.takeWhile_cons_of_pos (by simpa using hfeed)]
  generalize lineStart source (utf8Len before) = first
  split
  · next hclosed =>
    cases hmore : rest.takeWhile (· ≠ '\n') with
    | nil =>
      rw [hmore, List.getLast?_concat] at hclosed
      exact absurd (Option.some.inj hclosed.2) hreturn
    | cons d more =>
      simp
  · simp

/-- The carets of a span that begins on a character of its line stand under that character if the
number of the line has at most four digits, and else as many columns to the left of it as it has
digits more. -/
theorem caret_under_iff (h : s.Accurate source)
    (hon : (lineStart source s.start).length < (lineAt source s.start).length) :
    ∃ first shown marks c, (snippet source s).toList.splitOn '\n' = [first, shown, marks] ∧
      (onward source s.start).head? = some c ∧ shown[Snippet.textColumn source s]? = some c ∧
      Snippet.textColumn source s = marks.idxOf '^' + ((toString s.line).length - 4) ∧
      (marks.idxOf '^' = Snippet.textColumn source s ↔ s.line < 10000) := by
  have hshows := Snippet.shows_of_accurate h
  obtain ⟨c, hc, hplace⟩ := exists_getElem?_lineAt hon
  have hdigits := Snippet.length_toString_le_iff s.line
  refine ⟨_, _, _, c, hshows.rows, hc, ?_, ?_⟩
  · rw [Snippet.textColumn, List.getElem?_append_right (Nat.le_add_right _ _),
      Nat.add_sub_cancel_left]
    exact hplace
  · rw [Snippet.idxOf_caret _ hshows.pos, Snippet.textColumn, Snippet.length_gutter]
    omega

/-- A character that spells nothing, on the second line and behind a character of two bytes. -/
theorem caret_under_second_line :
    ∃ e, Lexer.lex "x;\r\n\"é\" & y;\r\n" = .error e ∧
      ∃ first shown marks,
        (snippet "x;\r\n\"é\" & y;\r\n" e.span).toList.splitOn '\n' = [first, shown, marks] ∧
        shown[marks.idxOf '^']? = some '&' := by
  have hlex : Lexer.lex "x;\r\n\"é\" & y;\r\n"
      = .error ⟨.unexpectedChar '&', ⟨9, 10, 2, 5⟩⟩ := by decide +kernel
  have hsplit : "x;\r\n\"é\" & y;\r\n".toList
      = ['x', ';', '\r', '\n', '"', 'é', '"', ' '] ++ '&' :: " y;\r\n".toList := by decide
  have hon := length_lineStart_lt hsplit (by decide) (by decide)
  have hchar := onward_of_append hsplit
  obtain ⟨first, shown, marks, c, hrows, hc, hshown, -, hcaret⟩ :=
    caret_under_iff (accurate_of_lex_error hlex) hon
  refine ⟨_, hlex, first, shown, marks, hrows, ?_⟩
  rw [hcaret.mpr (by decide), hshown, ← hc]
  exact congrArg List.head? hchar

/-- A character that spells nothing behind so many line feeds. -/
def stray (n : Nat) : String := String.ofList (List.replicate n '\n' ++ ['&'])

theorem toList_stray (n : Nat) : (stray n).toList = List.replicate n '\n' ++ ['&'] :=
  String.toList_ofList

theorem Text.Position.after_lineFeeds (n : Nat) :
    start.after (List.replicate n '\n') = ⟨n, n + 1, 1⟩ := by
  induction n with
  | zero => rfl
  | succ n ih =>
    rw [List.replicate_succ', after_append, ih]
    rfl

theorem Lexer.lex_stray (n : Nat) :
    Lexer.lex (stray n) = .error ⟨.unexpectedChar '&', ⟨n, n + 1, n + 1, 1⟩⟩ := by
  have hspacing : Spacing (List.replicate n '\n') := by
    induction n with
    | zero => exact .nil
    | succ n ih => exact .cons (.blank rfl) ih
  have hskipped : Skipped [] (List.replicate n '\n' ++ ['&']) := by
    refine .inl ⟨rfl, ?_⟩
    cases n with
    | zero => decide
    | succ n =>
      rw [List.replicate_succ]
      show byteOrderMark ∉ some '\n'
      decide
  rw [lex_of_skipped hskipped (toList_stray n), lexFrom_spacing hspacing, Position.after_nil,
    Position.after_lineFeeds, lexFrom_unfold]
  rfl

theorem lineAt_stray (n : Nat) : lineStart (stray n) n = [] ∧ lineAt (stray n) n = ['&'] := by
  have hsize : utf8Len (List.replicate n '\n') = n := by
    have hplace := Position.after_lineFeeds n
    rw [Position.after_start] at hplace
    exact congrArg Position.offset hplace
  have hstart := lineStart_of_append (toList_stray n)
  have honward := onward_of_append (toList_stray n)
  rw [hsize] at hstart honward
  have hempty : lineStart (stray n) n = [] := by
    rw [hstart]
    cases n with
    | zero => rfl
    | succ n => rw [List.replicate_succ', List.rtakeWhile_concat_neg _ _ _ (by decide)]
  refine ⟨hempty, ?_⟩
  rw [lineAt, hempty, honward]
  rfl

/-- On line 10000 the caret stands left of the character it marks. -/
theorem caret_beside_line_10000 :
    Lexer.lex (stray 9999) = .error ⟨.unexpectedChar '&', ⟨9999, 10000, 10000, 1⟩⟩ ∧
    (⟨9999, 10000, 10000, 1⟩ : Span).Accurate (stray 9999) ∧
    ∃ first, (snippet (stray 9999) ⟨9999, 10000, 10000, 1⟩).toList.splitOn '\n'
        = [first, "10000 | &".toList, "     | ^".toList] ∧
      "10000 | &".toList.idxOf '&' = 8 ∧ "     | ^".toList.idxOf '^' = 7 := by
  have hlex := Lexer.lex_stray 9999
  have haccurate := accurate_of_lex_error hlex
  have hrows := (Snippet.shows_of_accurate haccurate).rows
  obtain ⟨hstart, hline⟩ := lineAt_stray 9999
  dsimp only at hrows
  rw [hline, hstart] at hrows
  have hshown : (Snippet.gutter 10000).toList ++ ['&'] = "10000 | &".toList := by decide
  have hmarks : Snippet.caretGutter.toList ++ (List.replicate 0 ' ' ++ List.replicate
      (Snippet.caretCount ['&'] ⟨9999, 10000, 10000, 1⟩) '^') = "     | ^".toList := by decide
  rw [← hshown, ← hmarks]
  exact ⟨hlex, haccurate, _, hrows, by decide, by decide⟩

end ClipScript
