/-
Blanks and comments next to a word do not matter.

A gap that begins with a blank may be put right before or right behind any word of a text: the word
before it still ends where it did, since a blank belongs to no word (`Leads.spread`), and the gap
itself is skipped.  So the text spells the same kinds of tokens (`Layout.insert`), and what is read
out of them is the same up to places.
-/
import ClipScript.Proofs.Lexer.Layout
import ClipScript.Proofs.Parser.Twins
import ClipScript.Script

namespace ClipScript

open String (utf8Len)
open Text

/-- The text with `addition` put in at a byte offset. -/
def Text.insert (source : String) (offset : Nat) (addition : String) : String :=
  slice source 0 offset ++ addition ++ slice source offset source.utf8ByteSize

theorem Text.toList_insert {source : String} {before rest : List Char}
    (h : source.toList = before ++ rest) (addition : String) :
    (insert source (utf8Len before) addition).toList = before ++ (addition.toList ++ rest) := by
  have hend : source.toList = before ++ rest ++ [] := by rw [h, List.append_nil]
  have hrest := slice_of_append hend
  rw [← utf8ByteSize_of_append h] at hrest
  rw [insert, slice_zero_of_append h, hrest, String.toList_append, String.toList_append,
    String.toList_ofList, String.toList_ofList, List.append_assoc]

namespace Lexer

/-- The text has words of these kinds, wherever it begins. -/
def Spells (text : List Char) (kinds : List TokenKind) : Prop :=
  ∀ place, ∃ words, Layout place text words ∧ words.map Token.kind = kinds

namespace Spells

variable {text : List Char} {kinds : List TokenKind}

theorem trailing {gap : List Char} (h : Trailing gap) : Spells gap [] :=
  fun _ => ⟨[], .last h, rfl⟩

theorem word {kind : TokenKind} {word rest : List Char} (hword : Leads kind word rest)
    (h : Spells rest kinds) : Spells (word ++ rest) (kind :: kinds) := by
  intro place
  obtain ⟨words, hwords, rfl⟩ := h (place.after word)
  exact ⟨_, @Layout.word place [] word rest kind words .nil hword hwords, rfl⟩

theorem space {gap : List Char} (hgap : Spacing gap) (h : Spells text kinds) :
    Spells (gap ++ text) kinds := by
  induction hgap with
  | nil => exact h
  | @cons piece gap hpiece _ ih =>
    intro place
    obtain ⟨words, hwords, hkinds⟩ := ih (place.after piece)
    rw [List.append_assoc]
    exact ⟨words, hwords.skip hpiece, hkinds⟩

end Spells

theorem Layout.spells {place : Position} {text : List Char} {words : List Token}
    (h : Layout place text words) : Spells text (words.map Token.kind) := by
  induction h with
  | last hgap => exact .trailing hgap
  | word hgap hword _ ih => exact .space hgap (.word hword ih)

/-- A text with a layout can be cut at either end of any of its words, and a gap that begins with a
blank can be put there. -/
theorem Layout.insert {place : Position} {text : List Char} {words : List Token}
    (h : Layout place text words) {t : Token} (ht : t ∈ words) {offset : Nat}
    (hoffset : offset = t.span.start ∨ offset = t.span.stop) :
    ∃ first second, text = first ++ second ∧ place.offset + utf8Len first = offset ∧
      ∀ {b : Char} {more : List Char}, isBlank b = true → Spacing (b :: more) →
        Spells (first ++ (b :: more ++ second)) (words.map Token.kind) := by
  induction h with
  | last => cases ht
  | @word place gap word rest kind words hgap hword hrest ih =>
    rcases List.mem_cons.mp ht with rfl | ht
    · rcases hoffset with hoffset | hoffset
      · -- right before the word the gap grows
        refine ⟨gap, word ++ rest, rfl, ?_, fun hb hmore => ?_⟩
        · rw [hoffset]
          exact (Position.offset_after place gap).symm
        · exact .space hgap (.space hmore (.word hword hrest.spells))
      · -- right behind the word it is the blank that ends it
        refine ⟨gap ++ word, rest, by rw [List.append_assoc], ?_, fun {b more} hb hmore => ?_⟩
        · rw [hoffset, ← Position.offset_after, Position.after_append]
          rfl
        · have hnext : Leads kind word ([] ++ rest) := hword
          have hword' : Leads kind word (b :: more ++ rest) := hnext.spread hb (more ++ rest)
          rw [List.append_assoc]
          exact .space hgap (.word hword' (.space hmore hrest.spells))
    · -- further on: this word has the same characters behind it, or the blank
      obtain ⟨first, second, rfl, hfirst, hinsert⟩ := ih ht
      refine ⟨gap ++ (word ++ first), second, by simp, ?_, fun {b more} hb hmore => ?_⟩
      · rw [Position.offset_after, Position.offset_after] at hfirst
        rw [String.utf8Len_append, String.utf8Len_append]
        omega
      · have hword' : Leads kind word (first ++ (b :: more ++ second)) :=
          hword.spread hb (more ++ second)
        have happend : gap ++ (word ++ first) ++ (b :: more ++ second)
            = gap ++ (word ++ (first ++ (b :: more ++ second))) := by simp
        rw [happend]
        exact .space hgap (.word hword' (hinsert hb hmore))

theorem Skipped.insert {mark first second : List Char} (h : Skipped mark (first ++ second))
    {b : Char} (hb : isBlank b = true) (more : List Char) :
    Skipped mark (first ++ (b :: more ++ second)) := by
  rcases h with ⟨rfl, hhead⟩ | rfl
  · refine .inl ⟨rfl, ?_⟩
    cases first with
    | nil =>
      intro hmark
      cases hmark
      cases hb
    | cons c first => exact hhead
  · exact .inr rfl

/-- Putting a gap that begins with a blank next to a word changes no kind of token. -/
theorem lex_insert {source : String} {tokens : List Token} (h : lex source = .ok tokens) {t : Token}
    (ht : t ∈ tokens) (hkind : t.kind ≠ .eof) {gap : String} (hgap : Spacing gap.toList)
    (hblank : ∃ b ∈ gap.toList.head?, isBlank b = true) {offset : Nat}
    (hoffset : offset = t.span.start ∨ offset = t.span.stop) :
    ∃ tokens', lex (insert source offset gap) = .ok tokens' ∧
      tokens'.map Token.kind = tokens.map Token.kind := by
  obtain ⟨mark, text, words, hskipped, hsource, hwords, rfl⟩ := exists_layout h
  have hword : t ∈ words := by
    rcases List.mem_append.mp ht with hword | hlast
    · exact hword
    · rw [List.mem_singleton.mp hlast] at hkind
      exact absurd rfl hkind
  obtain ⟨b, hhead, hb⟩ := hblank
  obtain ⟨more, hmore⟩ := List.head?_eq_some_iff.mp hhead
  obtain ⟨first, second, rfl, hfirst, hinsert⟩ := hwords.insert hword hoffset
  have hcut : source.toList = mark ++ first ++ second := by rw [hsource, List.append_assoc]
  have hlength : utf8Len (mark ++ first) = offset := by
    rw [String.utf8Len_append, ← hfirst, Position.after_start]
  have hnew := toList_insert hcut gap
  rw [hlength, hmore, List.append_assoc] at hnew
  rw [hmore] at hgap
  obtain ⟨words', hwords', hkinds⟩ := hinsert hb hgap (Position.start.after mark)
  have hlex := hwords'.lexFrom_eq
  rw [← lex_of_skipped (hskipped.insert hb more) hnew] at hlex
  refine ⟨_, hlex, ?_⟩
  rw [List.map_append, List.map_append, hkinds]
  rfl

end Lexer

open Lexer

/-- A script without its places, or why there is none. -/
def Program.reading (source : String) : Except Fault Program :=
  ((Program.ofSource source).map Program.unplaced).mapError RuntimeError.fault

theorem Program.reading_of_lex {source : String} {tokens : List Token}
    (h : lex source = .ok tokens) :
    reading source = (((ofTokens tokens).map Program.unplaced).mapError ParseError.fault).mapError
      Fault.grammatical := by
  rw [reading, ofSource, h]
  dsimp only
  cases ofTokens tokens <;> rfl

/-- Blanks and comments do not matter: a gap that begins with a blank, put right before or right
behind any word of a text, leaves the kinds of its tokens as they are, and with them the script that
is read, or the fault for which there is none. -/
theorem spacing_insignificant {source : String} {tokens : List Token} (h : lex source = .ok tokens)
    {t : Token} (ht : t ∈ tokens) (hkind : t.kind ≠ .eof) {gap : String}
    (hgap : Spacing gap.toList) (hblank : ∃ b ∈ gap.toList.head?, isBlank b = true) {offset : Nat}
    (hoffset : offset = t.span.start ∨ offset = t.span.stop) :
    (∃ tokens', lex (insert source offset gap) = .ok tokens' ∧
      tokens'.map Token.kind = tokens.map Token.kind) ∧
    Program.reading (insert source offset gap) = Program.reading source := by
  obtain ⟨tokens', hlex, hkinds⟩ := lex_insert h ht hkind hgap hblank hoffset
  refine ⟨⟨tokens', hlex, hkinds⟩, ?_⟩
  rw [Program.reading_of_lex hlex, Program.reading_of_lex h, Program.ofTokens_unplaced hkinds]

/-- A comment between a number and the point behind it. -/
theorem spacing_insignificant_number :
    (∃ tokens, lex (insert "1.f;" 1 " # one\n") = .ok tokens ∧ tokens.map Token.kind =
      [.number "1", .symbol .dot, .identifier "f", .symbol .semicolon, .eof]) ∧
    Program.reading (insert "1.f;" 1 " # one\n") = Program.reading "1.f;" := by
  have hlex : lex "1.f;" = .ok [⟨.number "1", ⟨0, 1, 1, 1⟩⟩, ⟨.symbol .dot, ⟨1, 2, 1, 2⟩⟩,
      ⟨.identifier "f", ⟨2, 3, 1, 3⟩⟩, ⟨.symbol .semicolon, ⟨3, 4, 1, 4⟩⟩,
      ⟨.eof, ⟨4, 4, 1, 5⟩⟩] := by decide +kernel
  have hgap : Spacing " # one\n".toList :=
    .cons (.blank rfl : Piece [' '])
      (.cons (.line (.inl rfl) (by decide) : Piece (['#'] ++ [' ', 'o', 'n', 'e'] ++ ['\n'])) .nil)
  have hblank : ∃ b ∈ " # one\n".toList.head?, isBlank b = true := ⟨' ', rfl, rfl⟩
  exact spacing_insignificant hlex List.mem_cons_self (by decide) hgap hblank (.inr rfl)

end ClipScript
