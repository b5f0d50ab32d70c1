/-
The tokens of a text are well formed.

A name is a letter or an underscore and then letters, digits and underscores, and no keyword.  A
number is one digit or more, with or without a point and one digit or more behind it, whatever
underscores its digits are grouped with in the text.

So some of the checks that are made while a text is read cannot fail.  The characters of a name are
ASCII and the digits of a number are there, which leaves three ways for a text to have no tokens
(`Lexer.possible_of_stuck`).  And every number has a value (`Decimal.isSome_read?`), so that no
script is refused for a number without one (`Program.exists_number_of_ofTokens`).
-/
import ClipScript.Proofs.Lexer.Spelling
import ClipScript.Proofs.Parser.Forms

namespace ClipScript

open Text

namespace Lexer

variable {text before taken : List Char} {fault : LexFault}

theorem lineComment_ne_stuck : lineComment text ≠ .stuck fault before taken := by
  intro h
  unfold lineComment at h
  dsimp only at h
  split at h <;> cases h

theorem number_ne_stuck {c : Char} {rest : List Char} (hc : c.isDigit = true) :
    number (c :: rest) ≠ .stuck fault before taken := by
  have hhead : isDigitChar c = true := by rw [isDigitChar, hc, Bool.true_or]
  have hnumeral : ∀ {literal word more}, literal ≠ [] →
      numeral literal word more ≠ .stuck fault before taken := by
    intro literal word more hne h
    rw [numeral_of_ne_nil hne] at h
    cases h
  intro h
  rw [number, List.takeWhile_cons_of_pos hhead] at h
  dsimp only at h
  split at h
  · split at h
    · exact hnumeral (List.append_ne_nil_of_right_ne_nil _ (List.cons_ne_nil _ _)) h
    · exact hnumeral (digits_ne_nil hc _) h
  · exact hnumeral (digits_ne_nil hc _) h

/-- The faults that a text can have. -/
def Possible (fault : LexFault) : Prop :=
  (∃ c, fault = .unexpectedChar c) ∨ fault = .unterminatedString ∨ fault = .unterminatedComment

theorem possible_of_symbol {c : Char} {rest : List Char}
    (h : symbol c rest = .stuck fault before taken) : Possible fault := by
  unfold symbol at h
  dsimp only at h
  split at h
  · split at h
    · cases h
    · split at h
      · cases h
      · cases h
        exact .inl ⟨c, rfl⟩
  · split at h
    · cases h
    · cases h
      exact .inl ⟨c, rfl⟩

/-- Nothing is wrong with a name or a number by itself, so what is wrong at the head of a text is a
character that begins nothing, or a string or a comment without an end. -/
theorem possible_of_stuck (h : scan text = .stuck fault before taken) : Possible fault := by
  unfold scan at h
  split at h
  · cases h
  · exact absurd h lineComment_ne_stuck
  · rw [blockComment] at h
    split at h
    · cases h
    · cases h
      exact .inr (.inr rfl)
  · split at h
    · cases h
    split at h
    · exact absurd h lineComment_ne_stuck
    split at h
    · rw [name_eq] at h
      cases h
    split at h
    · next hc => exact absurd h (number_ne_stuck hc)
    split at h
    · rw [string] at h
      split at h
      · cases h
      · cases h
        exact .inr (.inl rfl)
    · exact possible_of_symbol h

theorem possible_of_lex {source : String} {e : LexError} (h : lex source = .error e) :
    Possible e.fault := by
  obtain ⟨mark, text, hskipped, hsource⟩ := exists_skipped source
  rw [lex_of_skipped hskipped hsource] at h
  obtain ⟨_, _, _, _, -, hstuck, -⟩ := exists_of_lexFrom_error h
  exact possible_of_stuck hstuck

end Lexer

namespace Decimal

theorem isSome_magnitude? {text : List Char} (h : (scaled? text).isSome) :
    (magnitude? text).isSome := by
  unfold magnitude?
  dsimp only
  split
  · rfl
  · split
    · rfl
    · rw [Option.isSome_map]
      exact h

theorem isSome_scaled? {word : List Char} (h : IsNumeral word) : (scaled? word).isSome := by
  have hend : ∀ d ∈ ([] : List Char).head?, d.isDigit = false := nofun
  rcases h with ⟨hne, hdigits⟩ | ⟨whole, fraction, ⟨hne, hwhole⟩, ⟨-, hfraction⟩, rfl⟩
  · obtain ⟨htake, hdrop⟩ := Lexer.takeWhile_stretch hdigits hend
    rw [List.append_nil] at htake hdrop
    simp [scaled?, htake, hdrop, hne]
  · have hpoint : ∀ d ∈ ('.' :: fraction).head?, d.isDigit = false := by
      intro d hd
      cases hd
      rfl
    obtain ⟨htake, hdrop⟩ := Lexer.takeWhile_stretch hwhole hpoint
    obtain ⟨htake', hdrop'⟩ := Lexer.takeWhile_stretch hfraction hend
    rw [List.append_nil] at htake' hdrop'
    simp [scaled?, htake, hdrop, htake', hdrop', hne]

theorem isDigit_of_isNumeral {c : Char} {tail : List Char} (h : IsNumeral (c :: tail)) :
    c.isDigit = true := by
  rcases h with hwhole | ⟨whole, fraction, hwhole, -, happend⟩
  · exact hwhole.2 c List.mem_cons_self
  · obtain ⟨d, tail', rfl, hd, -⟩ := Lexer.IsDigits.exists_cons hwhole
    rw [(List.cons.inj happend).1]
    exact hd

theorem isSome_read? {text : String} (h : IsNumeral text.toList) : (read? text).isSome := by
  have hmagnitude := isSome_magnitude? (isSome_scaled? h)
  rw [read?]
  split
  · next heq =>
    rw [heq] at h
    exact absurd (isDigit_of_isNumeral h) (by decide)
  · next heq =>
    rw [heq] at h
    exact absurd (isDigit_of_isNumeral h) (by decide)
  · exact hmagnitude

end Decimal

/-- A name is a name and no keyword, as it stands in the text.  A number is a numeral, and it is
what stands in the text without the underscores.  Nothing is asked of other tokens. -/
def Token.WellFormed (source : String) (t : Token) : Prop :=
  match t.kind with
  | .identifier name =>
    IsName name.toList ∧ (∀ word : Keyword, word.text ≠ name) ∧
      name = slice source t.span.start t.span.stop
  | .number literal =>
    IsNumeral literal.toList ∧
      literal.toList = (slice source t.span.start t.span.stop).toList.filter (· != '_')
  | _ => True

namespace Lexer

variable {word rest : List Char}

theorem Leads.toList_identifier {name : String} (h : Leads (.identifier name) word rest) :
    name.toList = word := by
  generalize hkind : TokenKind.identifier name = kind at h
  cases h with
  | name _ _ _ =>
    rw [nameKind] at hkind
    split at hkind
    · cases hkind
    · cases hkind
      exact String.toList_ofList
  | whole => cases hkind
  | fraction => cases hkind
  | string => cases hkind
  | single => cases hkind
  | pair => cases hkind

/-- The point of a number is no underscore, so its underscores are those of its two halves. -/
theorem Leads.toList_number {literal : String} (h : Leads (.number literal) word rest) :
    literal.toList = digits word := by
  generalize hkind : TokenKind.number literal = kind at h
  cases h with
  | name _ _ _ =>
    rw [nameKind] at hkind
    split at hkind <;> cases hkind
  | whole =>
    cases hkind
    exact String.toList_ofList
  | fraction =>
    cases hkind
    rw [String.toList_ofList, digits, digits, digits, List.filter_append]
    rfl
  | string => cases hkind
  | single => cases hkind
  | pair => cases hkind

theorem wellFormed_of_lex {source : String} {tokens : List Token} (h : lex source = .ok tokens) :
    ∀ t ∈ tokens, t.WellFormed source := by
  obtain ⟨mark, text, words, -, hsource, hwords, rfl⟩ := exists_layout h
  intro t ht
  rcases List.mem_append.mp ht with ht | ht
  · obtain ⟨before, word, rest, hsplit, hword, -, hstart, hstop⟩ :=
      hwords.exists_of_mem_source hsource ht
    have hslice : (slice source t.span.start t.span.stop).toList = word := by
      rw [hstart, hstop, slice_of_append hsplit, String.toList_ofList]
    have hspellable := hword.spellable
    unfold Token.WellFormed
    split
    · next name hkind =>
      rw [hkind] at hword hspellable
      refine ⟨hspellable.1, hspellable.2, String.toList_inj.mp ?_⟩
      rw [hslice, hword.toList_identifier]
    · next literal hkind =>
      rw [hkind] at hword hspellable
      rw [hslice]
      exact ⟨hspellable, hword.toList_number⟩
    · trivial
  · rw [List.mem_singleton.mp ht]
    trivial

end Lexer

theorem Program.ofTokens_ne_invalidNumber {source : String} {tokens : List Token}
    (h : Lexer.lex source = .ok tokens) {e : ParseError} (he : ofTokens tokens = .error e) :
    ∀ digits, e.fault ≠ .invalidNumber digits := by
  intro digits hfault
  obtain ⟨hnone, t, ht, hkind⟩ := exists_number_of_ofTokens he hfault
  have hwellFormed := Lexer.wellFormed_of_lex h t ht
  rw [Token.WellFormed, hkind] at hwellFormed
  have hsome := Decimal.isSome_read? hwellFormed.1
  rw [hnone] at hsome
  cases hsome

/-- What is read from a text is well formed.  A text without tokens has a character in it that
begins nothing, or a string or a comment without an end.  Otherwise its names are names and no
keywords, and its numbers are numerals.  So reading a script never stops at a name or at a number
for what it is made of. -/
theorem tokens_wellFormed (source : String) :
    (∀ e, Lexer.lex source = .error e → Lexer.Possible e.fault) ∧
    (∀ tokens, Lexer.lex source = .ok tokens → ∀ t ∈ tokens, t.WellFormed source) ∧
    ∀ e, Program.ofSource source = .error e →
      (∃ fault, e.fault = .lexical fault ∧ Lexer.Possible fault) ∨
      ∃ fault, e.fault = .grammatical fault ∧ ∀ digits, fault ≠ .invalidNumber digits := by
  refine ⟨fun e => Lexer.possible_of_lex, fun tokens => Lexer.wellFormed_of_lex, fun e he => ?_⟩
  unfold Program.ofSource at he
  split at he
  · next lexError hlex =>
    cases he
    exact .inl ⟨lexError.fault, rfl, Lexer.possible_of_lex hlex⟩
  · next tokens hlex =>
    split at he
    · next parseError hparse =>
      cases he
      exact .inr ⟨parseError.fault, rfl,
        Program.ofTokens_ne_invalidNumber hlex hparse⟩
    · cases he

/-- Underscores before a point and at the end of a number belong to it, and behind a point they
begin a name.  The two numbers are no script. -/
theorem tokens_wellFormed_underscores :
    (∃ e, Lexer.lex "&" = .error e ∧ Lexer.Possible e.fault) ∧
    (∃ tokens, Lexer.lex "1__.5_ 1._5" = .ok tokens ∧
      tokens.map Token.kind = [.number "1.5", .number "1", .symbol .dot, .identifier "_5", .eof] ∧
      ∀ t ∈ tokens, t.WellFormed "1__.5_ 1._5") ∧
    ∃ e, Program.ofSource "1__.5_ 1._5" = .error e ∧
      ((∃ fault, e.fault = .lexical fault ∧ Lexer.Possible fault) ∨
        ∃ fault, e.fault = .grammatical fault ∧ ∀ digits, fault ≠ .invalidNumber digits) := by
  have he : Lexer.lex "&" = .error ⟨.unexpectedChar '&', ⟨0, 1, 1, 1⟩⟩ := by decide +kernel
  have hkinds : (Lexer.lex "1__.5_ 1._5").toOption.map (·.map Token.kind)
      = some [.number "1.5", .number "1", .symbol .dot, .identifier "_5", .eof] := by
    decide +kernel
  have hrefused : (Program.ofSource "1__.5_ 1._5").toOption.isNone := by decide +kernel
  obtain ⟨-, hwellFormed, hread⟩ := tokens_wellFormed "1__.5_ 1._5"
  refine ⟨⟨_, he, (tokens_wellFormed "&").1 _ he⟩, ?_, ?_⟩
  · cases htokens : Lexer.lex "1__.5_ 1._5" with
    | error e' =>
      rw [htokens] at hkinds
      cases hkinds
    | ok tokens =>
      rw [htokens] at hkinds
      exact ⟨tokens, rfl, Option.some.inj hkinds, hwellFormed tokens htokens⟩
  · cases hprogram : Program.ofSource "1__.5_ 1._5" with
    | error e' => exact ⟨e', rfl, hread e' hprogram⟩
    | ok program =>
      rw [hprogram] at hrefused
      cases hrefused

end ClipScript
