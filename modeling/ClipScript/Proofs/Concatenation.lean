/-
Scripts one behind the other.

A text, a line feed and another text have the words of the one and then the words of the other: a
line feed belongs to no word, and it ends a comment that the first text left open
(`Layout.append`).  The words of the second text stand further on by as many bytes and lines as come
before it, and in the same columns (`Layout.shifted`).  So the statements of the whole are those of
the one and then those of the other, moved by as much, unless the first text makes plugins known to
the second one.
-/
import ClipScript.Proofs.Lexer.Layout
import ClipScript.Proofs.Parser.Continuation
import ClipScript.Script

namespace ClipScript

open String (utf8Len)

/-- The place that many bytes and lines further on, in the same column. -/
def Text.Position.shifted (bytes lines : Nat) (p : Text.Position) : Text.Position :=
  ⟨p.offset + bytes, p.line + lines, p.column⟩

/-- The span that many bytes and lines further on, in the same column. -/
def Span.shifted (bytes lines : Nat) (s : Span) : Span :=
  ⟨s.start + bytes, s.stop + bytes, s.line + lines, s.column⟩

def Token.shifted (bytes lines : Nat) (t : Token) : Token := ⟨t.kind, t.span.shifted bytes lines⟩

theorem Span.shifted_merge (bytes lines : Nat) (a b : Span) :
    (a.merge b).shifted bytes lines = (a.shifted bytes lines).merge (b.shifted bytes lines) := by
  simp only [merge, shifted, Nat.add_le_add_iff_right, Nat.add_max_add_right]
  split <;> rfl

/-- A script is read at one place as at another. -/
theorem merging_shifted (bytes lines : Nat) :
    Merging fun s s' => s' = s.shifted bytes lines := by
  rintro a _ b _ rfl rfl
  exact (Span.shifted_merge bytes lines a b).symm

namespace Text.Position

variable (bytes lines : Nat)

theorem shifted_after (p : Position) (text : List Char) :
    (p.after text).shifted bytes lines = (p.shifted bytes lines).after text := by
  induction text generalizing p with
  | nil => rfl
  | cons c text ih =>
    have hnext : (p.next c).shifted bytes lines = (p.shifted bytes lines).next c := by
      unfold next
      split <;> simp [shifted, Nat.add_right_comm]
    rw [after_cons, after_cons, ih, hnext]

theorem shifted_span (p : Position) (text : List Char) :
    (p.span text).shifted bytes lines = (p.shifted bytes lines).span text := by
  rw [span, span, ← shifted_after]
  rfl

theorem after_line (text : List Char) :
    start.after (text ++ ['\n']) = start.shifted (utf8Len text + 1) (text.count '\n' + 1) := by
  rw [after_append, after_start, after_cons, after_nil, next, if_pos rfl, shifted, start]
  simp only [Nat.zero_add, mk.injEq, and_true]
  exact ⟨rfl, by omega⟩

end Text.Position

namespace Lexer

open Text

variable {place : Position} {text : List Char} {words : List Token}

theorem Layout.shifted (bytes lines : Nat) (h : Layout place text words) :
    Layout (place.shifted bytes lines) text (words.map (Token.shifted bytes lines)) := by
  induction h with
  | last hgap => exact .last hgap
  | @word place gap word rest kind words hgap hword _ ih =>
    rw [Position.shifted_after, Position.shifted_after] at ih
    rw [List.map_cons, Token.shifted, Position.shifted_span, Position.shifted_after]
    exact .word hgap hword ih

theorem finish_shifted (bytes lines : Nat) (place : Position) :
    (finish place).shifted bytes lines = finish (place.shifted bytes lines) := by
  rw [finish, Token.shifted, Position.shifted_span, finish]

theorem Layout.space {gap : List Char} (hgap : Spacing gap)
    (h : Layout (place.after gap) text words) : Layout place (gap ++ text) words := by
  induction hgap generalizing place with
  | nil => exact h
  | @cons piece gap hpiece _ ih =>
    rw [List.append_assoc]
    rw [Position.after_append] at h
    exact (ih h).skip hpiece

theorem Spacing.append {gap gap' : List Char} (h : Spacing gap) (h' : Spacing gap') :
    Spacing (gap ++ gap') := by
  induction h with
  | nil => exact h'
  | cons hpiece _ ih =>
    rw [List.append_assoc]
    exact .cons hpiece ih

theorem Trailing.line {gap : List Char} (h : Trailing gap) : Spacing (gap ++ ['\n']) := by
  obtain ⟨gap, last, hgap, hlast, rfl⟩ := h
  rw [List.append_assoc]
  refine hgap.append ?_
  rcases hlast with rfl | ⟨opening, body, hopening, hbody, rfl⟩
  · have hpiece : Spacing (['\n'] ++ []) := .cons (.blank rfl) .nil
    exact hpiece
  · have hpiece := Spacing.cons (.line hopening hbody) .nil
    rwa [List.append_nil] at hpiece

theorem Layout.append (h : Layout place text words) {text' : List Char} {words' : List Token}
    (h' : Layout (place.after (text ++ ['\n'])) text' words') :
    Layout place (text ++ '\n' :: text') (words ++ words') := by
  induction h with
  | @last place gap hgap =>
    have hlayout := h'.space hgap.line
    rwa [List.append_assoc] at hlayout
  | @word place gap word rest kind words hgap hword _ ih =>
    have hnext : Leads kind word (rest ++ []) := by rwa [List.append_nil]
    have hword' : Leads kind word (rest ++ '\n' :: text') := hnext.spread rfl text'
    have happend : gap ++ (word ++ rest) ++ '\n' :: text'
        = gap ++ (word ++ (rest ++ '\n' :: text')) := by simp only [List.append_assoc]
    simp only [List.append_assoc, Position.after_append] at h' ih
    rw [happend]
    exact .word hgap hword' (ih h')

theorem Skipped.line {mark text : List Char} (h : Skipped mark text) (text' : List Char) :
    Skipped mark (text ++ '\n' :: text') := by
  rcases h with ⟨rfl, hhead⟩ | rfl
  · refine .inl ⟨rfl, ?_⟩
    cases text with
    | nil =>
      intro hmark
      cases hmark
    | cons c text => exact hhead
  · exact .inr rfl

/-- The tokens of two texts with a line feed between them: those of the one but for its end of
input, and then those of the other, moved. -/
theorem lex_append {a b : String} {tokens : List Token} (hb : lex b = .ok tokens)
    (hmark : b.toList.head? ≠ some byteOrderMark) {tokens' : List Token}
    (ha : lex a = .ok tokens') :
    ∃ words last, tokens' = words ++ [last] ∧ last.kind = .eof ∧ (∀ t ∈ words, t.kind ≠ .eof) ∧
      lex (a ++ "\n" ++ b) = .ok (words ++ tokens.map
        (Token.shifted (a.utf8ByteSize + 1) (a.toList.count '\n' + 1))) := by
  obtain ⟨mark, text, words, hskipped, hsource, hwords, rfl⟩ := exists_layout ha
  have hskipped' : Skipped [] b.toList := .inl ⟨rfl, hmark⟩
  rw [lex_of_skipped hskipped' rfl] at hb
  obtain ⟨words', hwords', rfl⟩ := lexFrom_eq_ok_iff.mp hb
  refine ⟨words, _, rfl, rfl, ?_, ?_⟩
  · intro t ht
    obtain ⟨_, _, _, -, hword, -⟩ := hwords.exists_of_mem ht
    exact hword.kind_ne_eof
  · have hjoined : (a ++ "\n" ++ b).toList = mark ++ (text ++ '\n' :: b.toList) := by
      rw [String.toList_append, String.toList_append, hsource]
      simp
    have hend : (Position.start.after mark).after (text ++ ['\n'])
        = Position.start.shifted (a.utf8ByteSize + 1) (a.toList.count '\n' + 1) := by
      rw [← Position.after_append, ← List.append_assoc, ← hsource, Position.after_line,
        String.utf8Len_toList]
    have hshifted := hwords'.shifted (a.utf8ByteSize + 1) (a.toList.count '\n' + 1)
    rw [show Position.start.after [] = Position.start from rfl, ← hend] at hshifted
    have hfinish : finish ((Position.start.after mark).after (text ++ '\n' :: b.toList))
        = (finish (Position.start.after b.toList)).shifted (a.utf8ByteSize + 1)
            (a.toList.count '\n' + 1) := by
      rw [finish_shifted, Position.shifted_after, ← hend, ← Position.after_append _ (text ++ _),
        List.append_assoc]
      rfl
    rw [lex_of_skipped (hskipped.line _) hjoined, (hwords.append hshifted).lexFrom_eq, hfinish,
      List.map_append, List.append_assoc]
    rfl

end Lexer

open Lexer

theorem Program.exists_of_ofSource {source : String} {program : Program}
    (h : ofSource source = .ok program) :
    ∃ tokens, lex source = .ok tokens ∧ ofTokens tokens = .ok program := by
  unfold ofSource at h
  split at h
  · cases h
  · next tokens hlex =>
    split at h
    · cases h
    · next hread =>
      cases h
      exact ⟨tokens, hlex, hread⟩

theorem Program.ofSource_of_lex {source : String} {program : Program} {tokens : List Token}
    (hlex : lex source = .ok tokens) (h : ofTokens tokens = .ok program) :
    ofSource source = .ok program := by
  rw [ofSource, hlex]
  dsimp only
  rw [h]

/-- Tokens that were moved are read as the same statements, moved. -/
theorem Program.ofTokens_shifted (bytes lines : Nat) {t : Token} {more : List Token}
    {program : Program} (h : ofTokens (t :: more) = .ok program) :
    ∃ moved, ofTokens ((t :: more).map (Token.shifted bytes lines)) = .ok moved ∧
      List.Forall₂ (Node.Twin fun s s' => s' = s.shifted bytes lines) program.statements
        moved.statements := by
  have htokens : List.Forall₂ (Token.Twin fun s s' => s' = s.shifted bytes lines) (t :: more)
      ((t :: more).map (Token.shifted bytes lines)) := by
    rw [List.forall₂_map_right_iff]
    exact List.forall₂_same.mpr fun _ _ => ⟨rfl, rfl⟩
  have hstart : Cursor.Twin (fun s s' => s' = s.shifted bytes lines) (.start (t :: more))
      (.start ((t :: more).map (Token.shifted bytes lines))) := by
    refine ⟨htokens, ?_, rfl⟩
    rw [Cursor.start, Cursor.start, List.getLast?_map]
    dsimp only
    rw [List.getLast?_eq_some_getLast (List.cons_ne_nil t more)]
    rfl
  obtain ⟨c, hrun⟩ := Parser.run_statements_of_ofTokens h
  have hresults := Parser.twins_statements (merging_shifted bytes lines) (t :: more).length _ _
    hstart
  rw [hrun] at hresults
  generalize hmoved : (Parser.statements (t :: more).length).run _ = result at hresults
  cases hresults with
  | ok htwins _ =>
    rw [← List.length_map (Token.shifted bytes lines)] at hmoved
    obtain ⟨moved, hread, rfl⟩ := Parser.ofTokens_of_run_statements hmoved
    exact ⟨moved, hread, htwins⟩

/-- Scripts are put together by putting their texts one behind the other.  If two texts can be read,
the first imports nothing and the second does not begin with a byte order mark, the first text, a
line feed and the second one can be read, into the statements of the first and then those of the
second, with every span moved by the bytes and the lines that come before it. -/
theorem Program.ofSource_concatenated {a b : String} {p q : Program} (ha : ofSource a = .ok p)
    (hb : ofSource b = .ok q) (himportless : ∀ n ∈ p.statements, n.Importless)
    (hmark : b.toList.head? ≠ some byteOrderMark) :
    ∃ r moved, ofSource (a ++ "\n" ++ b) = .ok r ∧ r.statements = p.statements ++ moved ∧
      List.Forall₂
        (Node.Twin fun s s' => s' = s.shifted (a.utf8ByteSize + 1) (a.toList.count '\n' + 1))
        q.statements moved := by
  obtain ⟨tokens, hlex, hread⟩ := exists_of_ofSource ha
  obtain ⟨tokens', hlex', hread'⟩ := exists_of_ofSource hb
  obtain ⟨words, last, rfl, hlast, hwords, hjoined⟩ := lex_append hlex' hmark hlex
  obtain ⟨t, more, rfl⟩ : ∃ t more, tokens' = t :: more := by
    obtain ⟨_, _, words', -, -, -, rfl⟩ := exists_layout hlex'
    cases words' <;> exact ⟨_, _, rfl⟩
  obtain ⟨moved, hmoved, htwins⟩ := ofTokens_shifted _ _ hread'
  obtain ⟨r, hr, hstatements⟩ := ofTokens_append hread hwords hlast himportless hmoved
  exact ⟨r, moved.statements, ofSource_of_lex hjoined hr, hstatements, htwins⟩

/-- An `if` without `else` and a comment that is left open, both at the end of the first text. -/
theorem Program.ofSource_concatenated_openComment :
    ∃ p q, ofSource "if (true) x = y; # else" = .ok p ∧ ofSource "f(x);\nreturn;" = .ok q ∧
      ∃ r moved, ofSource ("if (true) x = y; # else" ++ "\n" ++ "f(x);\nreturn;") = .ok r ∧
        r.statements = p.statements ++ moved ∧
        List.Forall₂ (Node.Twin fun s s' => s' = s.shifted 24 1) q.statements moved := by
  have hfirst : ((ofSource "if (true) x = y; # else").toOption.any fun p =>
      p.statements.all fun n => n.subtrees.all (·.imported?.isNone)) = true := by decide +kernel
  have hsecond : (ofSource "f(x);\nreturn;").toOption.isSome = true := by decide +kernel
  have eq_ok {e : Except RuntimeError Program} {p : Program} (h : e.toOption = some p) :
      e = .ok p := by
    cases e with
    | error => cases h
    | ok => rw [Option.some.inj h]
  obtain ⟨p, hp, hnone⟩ := (Option.any_eq_true _ _).mp hfirst
  obtain ⟨q, hq⟩ := Option.isSome_iff_exists.mp hsecond
  have himportless : ∀ n ∈ p.statements, n.Importless := by
    simpa [Node.Importless] using hnone
  exact ⟨p, q, eq_ok hp, eq_ok hq,
    ofSource_concatenated (eq_ok hp) (eq_ok hq) himportless (by decide)⟩

end ClipScript
