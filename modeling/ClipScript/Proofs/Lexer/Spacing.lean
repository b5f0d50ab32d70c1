/-
What may stand between words: blanks and comments.

`Piece` describes one blank or one comment, and `Spacing` any number of them.  A comment that runs
to the end of its line takes the line feed with it; only at the very end of a text can there be one
that has none (`OpenLine`).  The lexer skips exactly these pieces (`scan_of_piece`,
`piece_of_scan`).
-/
import ClipScript.Proofs.Lexer.Words

namespace ClipScript
namespace Lexer

/-- The openings of a comment that runs to the end of its line. -/
def OpensLine (opening : List Char) : Prop := opening = ['#'] ∨ opening = ['/', '/']

/-- A blank, a comment with the line feed it runs to, or a closed comment. -/
inductive Piece : List Char → Prop where
  | blank {c : Char} : Text.isBlank c = true → Piece [c]
  | line {opening body : List Char} : OpensLine opening → '\n' ∉ body →
      Piece (opening ++ body ++ ['\n'])
  | block {body : List Char} : ¬ ['*', '/'] <:+: body →
      Piece ('/' :: '*' :: (body ++ ['*', '/']))

/-- Blanks and comments, one after the other. -/
inductive Spacing : List Char → Prop where
  | nil : Spacing []
  | cons {piece rest : List Char} : Piece piece → Spacing rest → Spacing (piece ++ rest)

/-- A comment that runs to the end of the text. -/
def OpenLine (text : List Char) : Prop :=
  ∃ opening body, OpensLine opening ∧ '\n' ∉ body ∧ text = opening ++ body

/-- What may stand at the end of a text: the last comment needs no line feed. -/
def Trailing (text : List Char) : Prop :=
  ∃ gap last, Spacing gap ∧ (last = [] ∨ OpenLine last) ∧ text = gap ++ last

theorem Spacing.trailing {gap : List Char} (h : Spacing gap) : Trailing gap :=
  ⟨gap, [], h, .inl rfl, (List.append_nil gap).symm⟩

theorem Trailing.cons {piece rest : List Char} (h : Piece piece) (h' : Trailing rest) :
    Trailing (piece ++ rest) := by
  obtain ⟨gap, last, hgap, hlast, rfl⟩ := h'
  exact ⟨piece ++ gap, last, .cons h hgap, hlast, (List.append_assoc ..).symm⟩

theorem scan_line {opening : List Char} (h : OpensLine opening) (rest : List Char) :
    scan (opening ++ rest) = lineComment (opening ++ rest) := by
  rcases h with rfl | rfl
  · rw [List.cons_append, scan_cons fun d _ => opensComment_eq_false (by decide) d]
    rfl
  · rfl

theorem not_mem_line {opening body : List Char} (h : OpensLine opening) (hbody : '\n' ∉ body) :
    ∀ c ∈ opening ++ body, (c != '\n') = true := by
  intro c hc
  refine bne_iff_ne.mpr ?_
  rintro rfl
  rcases List.mem_append.mp hc with hc | hc
  · rcases h with rfl | rfl <;> simp at hc
  · exact hbody hc

theorem lineComment_append {line : List Char} (h : ∀ c ∈ line, (c != '\n') = true)
    (rest : List Char) : lineComment (line ++ '\n' :: rest) = .trivia (line ++ ['\n']) rest := by
  have hrest : ∀ c ∈ ('\n' :: rest).head?, (c != '\n') = false := by
    rintro c hc
    cases hc
    rfl
  obtain ⟨htake, hdrop⟩ := takeWhile_stretch h hrest
  rw [lineComment, htake, hdrop]

theorem lineComment_of_not_mem {line : List Char} (h : ∀ c ∈ line, (c != '\n') = true) :
    lineComment line = .trivia line [] := by
  have hnil : ∀ c ∈ ([] : List Char).head?, (c != '\n') = false := nofun
  obtain ⟨htake, hdrop⟩ := takeWhile_stretch h hnil
  rw [List.append_nil] at htake hdrop
  rw [lineComment, htake, hdrop]

theorem piece_of_lineComment {opening text taken rest : List Char} (h : OpensLine opening)
    (hscan : lineComment (opening ++ text) = .trivia taken rest) :
    Piece taken ∨ OpenLine taken ∧ rest = [] := by
  have hopening : ∀ c ∈ opening, (c != '\n') = true := by
    have hall := not_mem_line h (List.not_mem_nil (a := '\n'))
    rwa [List.append_nil] at hall
  have hbody : '\n' ∉ text.takeWhile (· != '\n') := by
    intro hmem
    have hne := List.mem_takeWhile_imp hmem
    simp at hne
  rw [lineComment, List.takeWhile_append_of_pos hopening, List.dropWhile_append_of_pos hopening]
    at hscan
  split at hscan
  · cases hscan
    exact .inr ⟨⟨opening, _, h, hbody, rfl⟩, rfl⟩
  · next c more hdrop =>
    cases hscan
    have hc := head?_dropWhile (p := (· != '\n')) text c (by rw [hdrop]; rfl)
    have hline : c = '\n' := by simpa using hc
    rw [hline]
    exact .inl (.line h hbody)

theorem closeComment_append {body : List Char} (h : ¬ ['*', '/'] <:+: body) (rest : List Char) :
    closeComment (body ++ '*' :: '/' :: rest) = some (body ++ ['*', '/'], rest) := by
  induction body with
  | nil => rfl
  | cons c body ih =>
    have hbody : ¬ ['*', '/'] <:+: body := fun hinfix => h (List.infix_cons hinfix)
    rw [List.cons_append, closeComment]
    · rw [ih hbody]
      rfl
    · -- the mark would close the comment before its end
      rintro rest' rfl hrest
      cases body with
      | nil => cases hrest
      | cons d body =>
        cases hrest
        exact h ⟨[], body, rfl⟩

theorem exists_of_closeComment {text taken rest : List Char}
    (h : closeComment text = some (taken, rest)) :
    ∃ body, ¬ ['*', '/'] <:+: body ∧ taken = body ++ ['*', '/'] := by
  fun_induction closeComment text generalizing taken rest with
  | case1 => cases h
  | case2 rest' =>
    cases h
    exact ⟨[], by simp, rfl⟩
  | case3 c rest' hopen ih =>
    obtain ⟨⟨t, r⟩, hr, e⟩ := Option.map_eq_some_iff.mp h
    cases e
    obtain ⟨body, hbody, rfl⟩ := ih hr
    refine ⟨c :: body, ?_, rfl⟩
    rintro ⟨before, after, hinfix⟩
    cases before with
    | nil =>
      cases hinfix
      have happend := append_of_closeComment hr
      exact hopen _ rfl happend.symm
    | cons b before =>
      cases hinfix
      exact hbody ⟨before, after, rfl⟩

theorem scan_of_piece {piece : List Char} (h : Piece piece) (rest : List Char) :
    scan (piece ++ rest) = .trivia piece rest := by
  cases h with
  | blank hc => exact scan_blank hc rest
  | @line opening body hopening hbody =>
    have happend : opening ++ body ++ ['\n'] ++ rest = opening ++ (body ++ '\n' :: rest) := by simp
    have hline := lineComment_append (not_mem_line hopening hbody) rest
    rw [List.append_assoc] at hline
    rw [happend, scan_line hopening, hline]
  | @block body hbody =>
    show blockComment ['/', '*'] (body ++ ['*', '/'] ++ rest) = _
    rw [List.append_assoc]
    show blockComment ['/', '*'] (body ++ '*' :: '/' :: rest) = _
    rw [blockComment, closeComment_append hbody]
    rfl

theorem number_ne_trivia {text taken rest : List Char} : number text ≠ .trivia taken rest := by
  intro h
  have hnumeral : ∀ {literal word more}, numeral literal word more ≠ .trivia taken rest := by
    intro literal word more h
    unfold numeral at h
    split at h <;> cases h
  rw [number] at h
  dsimp only at h
  split at h
  · split at h
    · exact hnumeral h
    · exact hnumeral h
  · exact hnumeral h

theorem string_ne_trivia {body taken rest : List Char} : string body ≠ .trivia taken rest := by
  intro h
  rw [string] at h
  split at h <;> cases h

theorem symbol_ne_trivia {c : Char} {text taken rest : List Char} :
    symbol c text ≠ .trivia taken rest := by
  intro h
  unfold symbol at h
  dsimp only at h
  split at h
  · split at h
    · cases h
    · split at h <;> cases h
  · split at h <;> cases h

theorem scan_of_openLine {line : List Char} (h : OpenLine line) : scan line = .trivia line [] := by
  obtain ⟨opening, body, hopening, hbody, rfl⟩ := h
  rw [scan_line hopening, lineComment_of_not_mem (not_mem_line hopening hbody)]

/-- What the lexer skips is a piece, or a comment up to the end of the text. -/
theorem piece_of_scan {text taken rest : List Char} (h : scan text = .trivia taken rest) :
    Piece taken ∨ OpenLine taken ∧ rest = [] := by
  unfold scan at h
  split at h
  · cases h
  · exact piece_of_lineComment (.inr rfl : OpensLine ['/', '/']) h
  · next body =>
    rw [blockComment] at h
    split at h
    · next hclose =>
      cases h
      obtain ⟨body, hbody, rfl⟩ := exists_of_closeComment hclose
      exact .inl (.block hbody)
    · cases h
  · next c more _ _ =>
    split at h
    · next hc =>
      cases h
      exact .inl (.blank hc)
    split at h
    · next hc =>
      rw [beq_iff_eq] at hc
      subst hc
      exact piece_of_lineComment (.inl rfl : OpensLine ['#']) h
    split at h
    · rw [name_eq] at h
      cases h
    split at h
    · exact absurd h number_ne_trivia
    split at h
    · exact absurd h string_ne_trivia
    · exact absurd h symbol_ne_trivia

end Lexer
end ClipScript
