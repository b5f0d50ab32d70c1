/-
The spelling of tokens, and reading it back.

Keywords and symbols are spelled as the tables have them, names and numbers as they are; a string
stands between quotes, with a backslash before each quote and each backslash in it.  `spell` writes
the spellings one after the other with a space in between.

What is spelled is a word, if there is such a token at all (`leads_spelling`).  A space behind a
word ends it, so the text as a whole has the words that were spelled, and these are the only lists
of kinds that can be spelled and read back (`lex_spell_iff`).
-/
import ClipScript.Proofs.Insertion

namespace ClipScript

open Lexer Text

def IsName : List Char → Prop
  | [] => False
  | c :: tail => (c = '_' ∨ c.isAlpha) ∧ ∀ d ∈ tail, d = '_' ∨ d.isAlphanum

def IsDigits (word : List Char) : Prop := word ≠ [] ∧ ∀ c ∈ word, c.isDigit

def IsNumeral (word : List Char) : Prop :=
  IsDigits word ∨
    ∃ whole fraction, IsDigits whole ∧ IsDigits fraction ∧ word = whole ++ '.' :: fraction

namespace TokenKind

/-- The tokens that a text can hold.  Strings may have any value. -/
def Spellable : TokenKind → Prop
  | identifier name => IsName name.toList ∧ ∀ word : Keyword, word.text ≠ name
  | number digits => IsNumeral digits.toList
  | string _ | keyword _ | symbol _ => True
  | eof => False

def escape (c : Char) : List Char := if c = '"' ∨ c = '\\' then ['\\', c] else [c]

def spelling : TokenKind → String
  | identifier name => name
  | number digits => digits
  | string value => "\"" ++ String.ofList (value.toList.flatMap escape) ++ "\""
  | keyword word => word.text
  | symbol s => s.text
  | eof => ""

end TokenKind

def spell (kinds : List TokenKind) : String := " ".intercalate (kinds.map TokenKind.spelling)

namespace Lexer

theorem isNameStart_iff {c : Char} : isNameStart c = true ↔ c = '_' ∨ c.isAlpha := by
  simp [isNameStart]

theorem isNameChar_iff {c : Char} : isNameChar c = true ↔ c = '_' ∨ c.isAlphanum := by
  simp [isNameChar, isNameStart, Char.isAlphanum, or_assoc]

theorem leads_of_isName {word : List Char} (h : IsName word) : Leads (nameKind word) word [] := by
  cases word with
  | nil => exact h.elim
  | cons c tail =>
    exact .name (isNameStart_iff.mpr h.1) (fun d hd => isNameChar_iff.mpr (h.2 d hd)) nofun

theorem isName_text (word : Keyword) : IsName word.text.toList := by
  cases word <;> simp [Keyword.text, IsName]

theorem nameKind_text (word : Keyword) : nameKind word.text.toList = .keyword word := by
  rw [nameKind, String.ofList_toList, Keyword.ofText?_eq_some_iff.mpr rfl]

theorem nameKind_of_ne {name : String} (h : ∀ word : Keyword, word.text ≠ name) :
    nameKind name.toList = .identifier name := by
  have hnone : Keyword.ofText? name = none := by
    rw [Option.eq_none_iff_forall_ne_some]
    exact fun word hword => h word (Keyword.ofText?_eq_some_iff.mp hword)
  rw [nameKind, String.ofList_toList, hnone]

/-- Digits are spelled without underscores, so all of them count. -/
theorem digits_of_isDigits {word : List Char} (h : IsDigits word) : digits word = word := by
  refine List.filter_eq_self.mpr fun c hc => bne_iff_ne.mpr ?_
  rintro rfl
  exact absurd (h.2 _ hc) (by decide)

theorem IsDigits.exists_cons {word : List Char} (h : IsDigits word) :
    ∃ c tail, word = c :: tail ∧ c.isDigit = true ∧ ∀ d ∈ tail, isDigitChar d = true := by
  obtain ⟨hne, hall⟩ := h
  obtain ⟨c, tail, rfl⟩ := List.exists_cons_of_ne_nil hne
  refine ⟨c, tail, rfl, hall c List.mem_cons_self, fun d hd => ?_⟩
  rw [isDigitChar, hall d (List.mem_cons_of_mem c hd), Bool.true_or]

theorem leads_of_isNumeral {word : List Char} (h : IsNumeral word) :
    Leads (.number (String.ofList word)) word [] := by
  rcases h with hwhole | ⟨whole, fraction, hwhole, hfraction, rfl⟩
  · have hdigits := digits_of_isDigits hwhole
    obtain ⟨c, tail, rfl, hc, htail⟩ := IsDigits.exists_cons hwhole
    have hleads : Leads _ (c :: tail) [] := .whole hc htail nofun nofun
    rwa [hdigits] at hleads
  · have hdigits := digits_of_isDigits hwhole
    have hdigits' := digits_of_isDigits hfraction
    obtain ⟨c, tail, rfl, hc, htail⟩ := IsDigits.exists_cons hwhole
    obtain ⟨d, tail', rfl, hd, htail'⟩ := IsDigits.exists_cons hfraction
    have hleads : Leads _ (c :: tail ++ '.' :: d :: tail') [] :=
      .fraction hc htail hd htail' nofun
    rwa [hdigits, hdigits'] at hleads

/-- Between quotes every value reads back as it is: what would end the string, or stand for another
character, is behind a backslash. -/
theorem quoted_escape (value : List Char) :
    Quoted value (value.flatMap TokenKind.escape ++ ['"']) := by
  induction value with
  | nil => exact .close
  | cons c value ih =>
    rw [List.flatMap_cons, List.append_assoc]
    by_cases hc : c = '"' ∨ c = '\\'
    · have hself : unescape c = c := by
        rcases hc with rfl | rfl <;> rfl
      have hquoted := Quoted.escape c ih
      rw [hself] at hquoted
      rw [TokenKind.escape, if_pos hc]
      exact hquoted
    · rw [TokenKind.escape, if_neg hc]
      rw [not_or] at hc
      exact .plain hc.1 hc.2 ih

theorem leads_symbol (s : Symbol) : Leads (.symbol s) s.text.toList [] := by
  cases s <;> first | exact .single rfl nofun | exact .pair rfl

theorem leads_spelling {kind : TokenKind} (h : kind.Spellable) :
    Leads kind kind.spelling.toList [] := by
  cases kind with
  | identifier name =>
    have hleads := leads_of_isName h.1
    rwa [nameKind_of_ne h.2] at hleads
  | number digits =>
    have hleads := leads_of_isNumeral h
    rwa [String.ofList_toList] at hleads
  | string value =>
    have hleads : Leads _ _ [] := .string (quoted_escape value.toList)
    rw [String.ofList_toList] at hleads
    simpa [TokenKind.spelling] using hleads
  | keyword word =>
    have hleads := leads_of_isName (isName_text word)
    rwa [nameKind_text] at hleads
  | symbol s => exact leads_symbol s
  | eof => exact h.elim

theorem isDigits_digits {c : Char} {tail : List Char} (hc : c.isDigit = true)
    (htail : ∀ d ∈ tail, isDigitChar d = true) : IsDigits (digits (c :: tail)) := by
  refine ⟨digits_ne_nil hc tail, fun d hd => ?_⟩
  obtain ⟨hmem, hd⟩ := List.mem_filter.mp hd
  have hclass := isDigitChar_cons hc htail d hmem
  simpa [isDigitChar, bne_iff_ne.mp hd] using hclass

theorem Leads.spellable {kind : TokenKind} {word rest : List Char} (h : Leads kind word rest) :
    kind.Spellable := by
  cases h with
  | @name c tail _ hc htail _ =>
    rw [nameKind]
    cases hword : Keyword.ofText? (String.ofList (c :: tail)) with
    | some keyword => trivial
    | none =>
      refine ⟨?_, fun word heq => ?_⟩
      · rw [String.toList_ofList]
        exact ⟨isNameStart_iff.mp hc, fun d hd => isNameChar_iff.mp (htail d hd)⟩
      · rw [Keyword.ofText?_eq_some_iff.mpr heq] at hword
        cases hword
  | whole hc htail _ _ =>
    show IsNumeral _
    rw [String.toList_ofList]
    exact .inl (isDigits_digits hc htail)
  | fraction hc htail hd htail' _ =>
    show IsNumeral _
    rw [String.toList_ofList]
    exact .inr ⟨_, _, isDigits_digits hc htail, isDigits_digits hd htail', rfl⟩
  | string _ | single _ _ | pair _ => trivial

theorem toList_spell_cons (kind : TokenKind) (kinds : List TokenKind) :
    (spell (kind :: kinds)).toList = kind.spelling.toList ++
      (if kinds = [] then [] else ' ' :: (spell kinds).toList) := by
  cases kinds with
  | nil => simp [spell]
  | cons next rest => simp [spell, String.intercalate_cons_cons]

theorem leads_of_space {kind : TokenKind} {word : List Char} (h : Leads kind word [])
    (rest : List Char) : Leads kind word (' ' :: rest) := by
  have hnil : Leads kind word ([] ++ []) := h
  exact hnil.spread rfl rest

theorem spells_spell {kinds : List TokenKind} (h : ∀ kind ∈ kinds, kind.Spellable) :
    Spells (spell kinds).toList kinds := by
  induction kinds with
  | nil => exact .trailing Spacing.nil.trailing
  | cons kind kinds ih =>
    rw [List.forall_mem_cons] at h
    have hword := leads_spelling h.1
    rw [toList_spell_cons]
    by_cases hlast : kinds = []
    · subst hlast
      exact .word hword (.trailing Spacing.nil.trailing)
    · rw [if_neg hlast]
      have hspace : Spacing [' '] := .cons (.blank rfl) .nil
      exact .word (leads_of_space hword _) (.space hspace (ih h.2))

theorem skipped_spell {kinds : List TokenKind} (h : ∀ kind ∈ kinds, kind.Spellable) :
    Skipped [] (spell kinds).toList := by
  refine .inl ⟨rfl, fun hmark => ?_⟩
  cases kinds with
  | nil => cases hmark
  | cons kind kinds =>
    have hword := leads_spelling (h kind List.mem_cons_self)
    rw [toList_spell_cons] at hmark
    obtain ⟨c, tail, hcons⟩ := List.exists_cons_of_ne_nil hword.ne_nil
    rw [hcons] at hword hmark
    cases hmark
    exact hword.head_ne_byteOrderMark rfl

/-- Reading undoes spelling.  The text that a list of tokens is spelled as, with single spaces in
between, reads as these tokens and the end of the text, if names are names and no keywords, and
numbers are digits with or without a fraction.  No other list is read back. -/
theorem lex_spell_iff {kinds : List TokenKind} :
    (∃ tokens, lex (spell kinds) = .ok tokens ∧ tokens.map Token.kind = kinds ++ [.eof]) ↔
      ∀ kind ∈ kinds, kind.Spellable := by
  constructor
  · rintro ⟨tokens, hlex, hkinds⟩ kind hkind
    obtain ⟨mark, text, words, -, -, hwords, rfl⟩ := exists_layout hlex
    have hsplit : words.map Token.kind ++ [.eof] = kinds ++ [.eof] := by
      rw [← hkinds, List.map_append]
      rfl
    rw [← List.append_cancel_right hsplit] at hkind
    obtain ⟨t, ht, rfl⟩ := List.mem_map.mp hkind
    obtain ⟨before, word, rest, -, hword, -⟩ := hwords.exists_of_mem ht
    exact hword.spellable
  · intro h
    obtain ⟨words, hwords, hkinds⟩ := spells_spell h (Position.start.after [])
    refine ⟨_, (lex_of_skipped (skipped_spell h) rfl).trans hwords.lexFrom_eq, ?_⟩
    rw [List.map_append, hkinds]
    rfl

/-- Escapes in a string, a number before a point, and a name that begins like a keyword. -/
example : (lex (spell [.string "a\\\"\n", .number "1", .symbol .dot, .number "2.50",
      .identifier "iffy", .keyword .ifKw])).toOption.map (·.map Token.kind)
    = some [.string "a\\\"\n", .number "1", .symbol .dot, .number "2.50", .identifier "iffy",
      .keyword .ifKw, .eof] := by
  decide +kernel

end Lexer
end ClipScript
