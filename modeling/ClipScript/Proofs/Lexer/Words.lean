/-
The words of a script.

`Leads kind word rest` describes the token that stands at the head of `word ++ rest` without saying
how it is found: which characters make up a word of that kind, and which may come next without
belonging to it.  The lexer finds exactly these (`scan_eq_token_iff`), so what is special about
words can be read off their description.  A word is one by itself (`Leads.alone`), it stays one when
a blank is put behind it or further on (`Leads.spread`), and no longer stretch of the text is a word
(`Leads.length_le`).
-/
import ClipScript.Token.Lexer
import Mathlib.Data.List.TakeWhile

namespace ClipScript
namespace Lexer

/-! ## Classes of characters -/

theorem toNat_of_isNameStart {c : Char} (h : isNameStart c = true) :
    c.toNat = 95 ∨ (65 ≤ c.toNat ∧ c.toNat ≤ 90) ∨ (97 ≤ c.toNat ∧ c.toNat ≤ 122) := by
  have hclass : (c == '_' || (decide (65 ≤ c.val ∧ c.val ≤ 90) ||
      (decide (97 ≤ c.val) && decide (c.val ≤ 122)))) = true := h
  simp only [Bool.or_eq_true, beq_iff_eq, Bool.and_eq_true, decide_eq_true_eq] at hclass
  rcases hclass with rfl | hupper | hlower
  · exact .inl rfl
  · exact .inr (.inl hupper)
  · exact .inr (.inr hlower)

theorem toNat_of_isDigit {c : Char} (h : c.isDigit = true) : 48 ≤ c.toNat ∧ c.toNat ≤ 57 := by
  simp only [Char.isDigit, Bool.and_eq_true, decide_eq_true_eq] at h
  exact h

theorem isAscii_of_isNameChar {c : Char} (h : isNameChar c = true) : isAscii c = true := by
  rw [isNameChar, Bool.or_eq_true] at h
  rw [isAscii, decide_eq_true_eq]
  rcases h with h | h
  · have := toNat_of_isNameStart h
    omega
  · have := toNat_of_isDigit h
    omega

theorem isBlank_eq_false {c : Char} (h : 33 ≤ c.toNat ∧ c.toNat ≤ 132) :
    Text.isBlank c = false := by
  simp only [Text.isBlank, Bool.or_eq_false_iff, Bool.and_eq_false_iff, decide_eq_false_iff_not,
    beq_eq_false_iff_ne]
  omega

/-! ## What the first characters decide -/

/-- The two characters open a comment. -/
def opensComment (c d : Char) : Bool := c == '/' && (d == '/' || d == '*')

/-- Where no comment is opened the first character decides. -/
theorem scan_cons {c : Char} {rest : List Char} (h : ∀ d ∈ rest.head?, opensComment c d = false) :
    scan (c :: rest) =
      if Text.isBlank c then .trivia [c] rest
      else if c == '#' then lineComment (c :: rest)
      else if isNameStart c then name (c :: rest)
      else if c.isDigit then number (c :: rest)
      else if c == '"' then string rest
      else symbol c rest := by
  unfold scan
  split
  · next hnil => cases hnil
  · next hcons =>
    cases hcons
    exact absurd (h '/' rfl) (by decide)
  · next hcons =>
    cases hcons
    exact absurd (h '*' rfl) (by decide)
  · next hcons =>
    cases hcons
    rfl

theorem opensComment_eq_false {c : Char} (h : c ≠ '/') (d : Char) : opensComment c d = false := by
  simp [opensComment, h]

theorem ne_of_toNat {c d : Char} (h : c.toNat ≠ d.toNat) : c ≠ d := fun e => h (by rw [e])

theorem scan_blank {c : Char} (h : Text.isBlank c = true) (rest : List Char) :
    scan (c :: rest) = .trivia [c] rest := by
  have hc : c ≠ '/' := by
    rintro rfl
    exact absurd h (by decide)
  rw [scan_cons fun d _ => opensComment_eq_false hc d, if_pos h]

theorem scan_name {c : Char} (h : isNameStart c = true) (rest : List Char) :
    scan (c :: rest) = name (c :: rest) := by
  have hn := toNat_of_isNameStart h
  have hblank := isBlank_eq_false (c := c) (by omega)
  have hslash : c ≠ '/' := ne_of_toNat (by show _ ≠ 47; omega)
  have hhash : c ≠ '#' := ne_of_toNat (by show _ ≠ 35; omega)
  rw [scan_cons fun d _ => opensComment_eq_false hslash d]
  simp [hblank, hhash, h]

theorem scan_number {c : Char} (h : c.isDigit = true) (rest : List Char) :
    scan (c :: rest) = number (c :: rest) := by
  have hn := toNat_of_isDigit h
  have hblank := isBlank_eq_false (c := c) (by omega)
  have hslash : c ≠ '/' := ne_of_toNat (by show _ ≠ 47; omega)
  have hhash : c ≠ '#' := ne_of_toNat (by show _ ≠ 35; omega)
  have hname : isNameStart c = false := by
    refine Bool.eq_false_iff.mpr fun hname => ?_
    have := toNat_of_isNameStart hname
    omega
  rw [scan_cons fun d _ => opensComment_eq_false hslash d]
  simp [hblank, hhash, hname, h]

theorem scan_quote (rest : List Char) : scan ('"' :: rest) = string rest := by
  rw [scan_cons fun d _ => opensComment_eq_false (by decide) d]
  rfl

/-- A character that no name, number, string or trivia begins with. -/
def isMark (c : Char) : Bool :=
  !Text.isBlank c && c != '#' && !isNameStart c && !c.isDigit && c != '"'

theorem scan_mark {c : Char} (h : isMark c = true) {rest : List Char}
    (hopens : ∀ d ∈ rest.head?, opensComment c d = false) : scan (c :: rest) = symbol c rest := by
  simp only [isMark, Bool.and_eq_true, Bool.not_eq_true', bne_iff_ne] at h
  obtain ⟨⟨⟨⟨hblank, hhash⟩, hname⟩, hdigit⟩, hquote⟩ := h
  rw [scan_cons hopens]
  simp [hblank, hhash, hname, hdigit, hquote]

theorem isMark_of_ofChar? {c : Char} {s : Symbol} (h : Symbol.ofChar? c = some s) :
    isMark c = true := by
  unfold Symbol.ofChar? at h
  split at h <;> first | rfl | cases h

theorem isMark_of_ofPair? {c d : Char} {s : Symbol} (h : Symbol.ofPair? c d = some s) :
    isMark c = true ∧ opensComment c d = false := by
  unfold Symbol.ofPair? at h
  split at h <;> first | exact ⟨rfl, rfl⟩ | cases h

/-! ## Stretches of characters -/

/-- The longest stretch of a class is the one that is followed by no character of it. -/
theorem takeWhile_stretch {p : Char → Bool} {word rest : List Char} (hword : ∀ c ∈ word, p c = true)
    (hrest : ∀ c ∈ rest.head?, p c = false) :
    (word ++ rest).takeWhile p = word ∧ (word ++ rest).dropWhile p = rest := by
  rw [List.takeWhile_append_of_pos hword, List.dropWhile_append_of_pos hword]
  cases rest with
  | nil => simp
  | cons c rest => simp [hrest c rfl]

theorem head?_dropWhile {p : Char → Bool} (text : List Char) :
    ∀ c ∈ (text.dropWhile p).head?, p c = false := by
  intro c hc
  have hnot := List.head?_dropWhile_not p text
  rw [Option.mem_def.mp hc] at hnot
  simpa using hnot

/-- The inside of a string with its closing quote, and the value it spells. -/
inductive Quoted : List Char → List Char → Prop where
  | close : Quoted [] ['"']
  | escape {value body : List Char} (c : Char) : Quoted value body →
      Quoted (unescape c :: value) ('\\' :: c :: body)
  | plain {value body : List Char} {c : Char} : c ≠ '"' → c ≠ '\\' → Quoted value body →
      Quoted (c :: value) (c :: body)

theorem quoted_of_stringBody {body value taken rest : List Char}
    (h : stringBody body = some (value, taken, rest)) : Quoted value taken := by
  fun_induction stringBody body generalizing value taken rest with
  | case1 => cases h
  | case2 rest' =>
    cases h
    exact .close
  | case3 c rest' ih =>
    obtain ⟨⟨v, t, r⟩, hr, e⟩ := Option.map_eq_some_iff.mp h
    cases e
    exact .escape c (ih hr)
  | case4 c rest' hquote hescape ih =>
    obtain ⟨⟨v, t, r⟩, hr, e⟩ := Option.map_eq_some_iff.mp h
    cases e
    refine .plain hquote (fun hc => ?_) (ih hr)
    -- a backslash that escapes nothing is the last character, and the string is open
    cases rest' with
    | nil => cases hr
    | cons d rest'' => exact hescape d rest'' hc rfl

theorem stringBody_of_quoted {value body : List Char} (h : Quoted value body) (rest : List Char) :
    stringBody (body ++ rest) = some (value, body, rest) := by
  induction h with
  | close => rfl
  | @escape value body c h ih =>
    show (stringBody (body ++ rest)).map _ = _
    rw [ih]
    rfl
  | @plain value body c hquote hescape h ih =>
    rw [List.cons_append, stringBody, ih]
    · rfl
    · exact hquote
    · exact fun d more hc _ => hescape hc

/-! ## Words -/

def nameKind (word : List Char) : TokenKind :=
  match Keyword.ofText? (String.ofList word) with
  | some keyword => .keyword keyword
  | none => .identifier (String.ofList word)

/-- The token at the head of `word ++ rest`: the characters of the word, and what may follow it
without belonging to it. -/
inductive Leads : TokenKind → List Char → List Char → Prop where
  | name {c : Char} {tail rest : List Char} : isNameStart c = true →
      (∀ d ∈ tail, isNameChar d = true) → (∀ d ∈ rest.head?, isNameChar d = false) →
      Leads (nameKind (c :: tail)) (c :: tail) rest
  | whole {c : Char} {tail rest : List Char} : c.isDigit = true →
      (∀ d ∈ tail, isDigitChar d = true) → (∀ d ∈ rest.head?, isDigitChar d = false) →
      (∀ d rest', rest = '.' :: d :: rest' → d.isDigit = false) →
      Leads (.number (String.ofList (digits (c :: tail)))) (c :: tail) rest
  | fraction {c d : Char} {tail tail' rest : List Char} : c.isDigit = true →
      (∀ d ∈ tail, isDigitChar d = true) → d.isDigit = true →
      (∀ d ∈ tail', isDigitChar d = true) → (∀ d ∈ rest.head?, isDigitChar d = false) →
      Leads (.number (String.ofList (digits (c :: tail) ++ '.' :: digits (d :: tail'))))
        (c :: tail ++ '.' :: d :: tail') rest
  | string {value body rest : List Char} : Quoted value body →
      Leads (.string (String.ofList value)) ('"' :: body) rest
  | single {c : Char} {s : Symbol} {rest : List Char} : Symbol.ofChar? c = some s →
      (∀ d ∈ rest.head?, Symbol.ofPair? c d = none ∧ opensComment c d = false) →
      Leads (.symbol s) [c] rest
  | pair {c d : Char} {s : Symbol} {rest : List Char} : Symbol.ofPair? c d = some s →
      Leads (.symbol s) [c, d] rest

theorem isNameChar_cons {c : Char} {tail : List Char} (hc : isNameStart c = true)
    (htail : ∀ d ∈ tail, isNameChar d = true) : ∀ d ∈ c :: tail, isNameChar d = true := by
  refine List.forall_mem_cons.mpr ⟨?_, htail⟩
  rw [isNameChar, hc, Bool.true_or]

theorem isDigitChar_cons {c : Char} {tail : List Char} (hc : c.isDigit = true)
    (htail : ∀ d ∈ tail, isDigitChar d = true) : ∀ d ∈ c :: tail, isDigitChar d = true := by
  refine List.forall_mem_cons.mpr ⟨?_, htail⟩
  rw [isDigitChar, hc, Bool.true_or]

theorem isDigitChar_point (rest : List Char) :
    ∀ d ∈ ('.' :: rest).head?, isDigitChar d = false := by
  rintro d hd
  cases hd
  rfl

/-! ### The lexer finds words -/

/-- Names are ASCII text, so the check on their characters never fails. -/
theorem name_eq (text : List Char) :
    name text = .token (nameKind (text.takeWhile isNameChar)) (text.takeWhile isNameChar)
      (text.dropWhile isNameChar) := by
  have hdrop : (text.takeWhile isNameChar).dropWhile isAscii = [] := by
    refine List.dropWhile_eq_nil_iff.mpr fun c hc => isAscii_of_isNameChar ?_
    exact List.mem_takeWhile_imp hc
  rw [name, hdrop]
  rfl

theorem numeral_of_ne_nil {literal taken rest : List Char} (h : literal ≠ []) :
    numeral literal taken rest = .token (.number (String.ofList literal)) taken rest := by
  rw [numeral, if_neg]
  rwa [List.isEmpty_iff]

theorem numeral_eq_token {literal taken rest : List Char} {kind : TokenKind}
    {word rest' : List Char} (h : numeral literal taken rest = .token kind word rest') :
    .number (String.ofList literal) = kind ∧ taken = word ∧ rest = rest' := by
  unfold numeral at h
  split at h
  · cases h
  · cases h
    exact ⟨rfl, rfl, rfl⟩

theorem digits_ne_nil {c : Char} (hc : c.isDigit = true) (tail : List Char) :
    digits (c :: tail) ≠ [] := by
  have hne : (c != '_') = true := by
    refine bne_iff_ne.mpr ?_
    rintro rfl
    exact absurd hc (by decide)
  exact List.ne_nil_of_mem (List.mem_filter.mpr ⟨List.mem_cons_self, hne⟩)

theorem scan_of_leads {kind : TokenKind} {word rest : List Char} (h : Leads kind word rest) :
    scan (word ++ rest) = .token kind word rest := by
  cases h with
  | @name c tail rest hc htail hrest =>
    obtain ⟨htake, hdrop⟩ := takeWhile_stretch (isNameChar_cons hc htail) hrest
    rw [List.cons_append] at htake hdrop ⊢
    rw [scan_name hc, name_eq, htake, hdrop]
  | @whole c tail rest hc htail hrest hpoint =>
    obtain ⟨htake, hdrop⟩ := takeWhile_stretch (isDigitChar_cons hc htail) hrest
    rw [List.cons_append] at htake hdrop ⊢
    rw [scan_number hc, number, htake, hdrop]
    dsimp only
    split
    · next d rest' =>
      rw [if_neg (by rw [hpoint d rest' rfl]; exact Bool.false_ne_true)]
      exact numeral_of_ne_nil (digits_ne_nil hc tail)
    · exact numeral_of_ne_nil (digits_ne_nil hc tail)
  | @fraction c d tail tail' rest hc htail hd htail' hrest =>
    obtain ⟨htake, hdrop⟩ := takeWhile_stretch (isDigitChar_cons hc htail)
      (isDigitChar_point (d :: (tail' ++ rest)))
    obtain ⟨htake', hdrop'⟩ := takeWhile_stretch (isDigitChar_cons hd htail') hrest
    have happend : c :: tail ++ '.' :: d :: tail' ++ rest
        = c :: (tail ++ '.' :: d :: (tail' ++ rest)) := by simp
    rw [List.cons_append] at htake hdrop htake' hdrop'
    rw [happend, scan_number hc, number, htake, hdrop]
    simp only [if_pos hd, htake', hdrop']
    exact numeral_of_ne_nil (List.append_ne_nil_of_right_ne_nil _ (List.cons_ne_nil _ _))
  | @string value body rest hbody =>
    rw [List.cons_append, scan_quote, Lexer.string, stringBody_of_quoted hbody]
  | @single c s rest hs hrest =>
    show scan (c :: rest) = _
    rw [scan_mark (isMark_of_ofChar? hs) fun d hd => (hrest d hd).2]
    cases rest with
    | nil => simp only [symbol, hs]
    | cons d rest => simp only [symbol, hs, (hrest d rfl).1]
  | @pair c d s rest hs =>
    obtain ⟨hmark, hopens⟩ := isMark_of_ofPair? hs
    show scan (c :: d :: rest) = _
    rw [scan_mark hmark (by rintro e he; cases he; exact hopens)]
    simp only [symbol, hs]

theorem leads_of_name {c : Char} {rest : List Char} (hc : isNameStart c = true) {kind : TokenKind}
    {word rest' : List Char} (h : name (c :: rest) = .token kind word rest') :
    Leads kind word rest' := by
  have hhead : isNameChar c = true := by rw [isNameChar, hc, Bool.true_or]
  have htake : (c :: rest).takeWhile isNameChar = c :: rest.takeWhile isNameChar := by
    rw [List.takeWhile_cons_of_pos hhead]
  rw [name_eq, htake] at h
  cases h
  exact .name hc (fun d hd => List.mem_takeWhile_imp hd) (head?_dropWhile _)

theorem leads_of_number {c : Char} {rest : List Char} (hc : c.isDigit = true) {kind : TokenKind}
    {word rest' : List Char} (h : number (c :: rest) = .token kind word rest') :
    Leads kind word rest' := by
  have hhead : isDigitChar c = true := by rw [isDigitChar, hc, Bool.true_or]
  have htake : (c :: rest).takeWhile isDigitChar = c :: rest.takeWhile isDigitChar := by
    rw [List.takeWhile_cons_of_pos hhead]
  have htail : ∀ d ∈ rest.takeWhile isDigitChar, isDigitChar d = true :=
    fun d hd => List.mem_takeWhile_imp hd
  have hnext := head?_dropWhile (p := isDigitChar) (c :: rest)
  rw [number, htake] at h
  dsimp only at h
  split at h
  · next d more hdrop =>
    rw [hdrop] at hnext
    split at h
    · next hd =>
      have hheadd : isDigitChar d = true := by rw [isDigitChar, hd, Bool.true_or]
      rw [List.takeWhile_cons_of_pos hheadd] at h
      obtain ⟨rfl, rfl, rfl⟩ := numeral_eq_token h
      exact .fraction hc htail hd (fun e he => List.mem_takeWhile_imp he) (head?_dropWhile _)
    · next hd =>
      obtain ⟨rfl, rfl, rfl⟩ := numeral_eq_token h
      refine .whole hc htail hnext fun e more' he => ?_
      cases he
      exact Bool.eq_false_iff.mpr hd
  · next hpoint =>
    obtain ⟨rfl, rfl, rfl⟩ := numeral_eq_token h
    exact .whole hc htail hnext fun e more' he => absurd he (hpoint e more')

theorem leads_of_string {body : List Char} {kind : TokenKind} {word rest : List Char}
    (h : string body = .token kind word rest) : Leads kind word rest := by
  rw [string] at h
  split at h
  · next hbody =>
    cases h
    exact .string (quoted_of_stringBody hbody)
  · cases h

theorem leads_of_symbol {c : Char} {rest : List Char} {kind : TokenKind} {word rest' : List Char}
    (hopens : ∀ d ∈ rest.head?, opensComment c d = false)
    (h : symbol c rest = .token kind word rest') : Leads kind word rest' := by
  have hsingle : ∀ {s : Symbol}, Symbol.ofChar? c = some s →
      (∀ d ∈ rest.head?, Symbol.ofPair? c d = none) → Leads (.symbol s) [c] rest :=
    fun hs hpair => .single hs fun d hd => ⟨hpair d hd, hopens d hd⟩
  cases rest with
  | nil =>
    simp only [symbol] at h
    split at h
    · next hs =>
      cases h
      exact hsingle hs nofun
    · cases h
  | cons d rest =>
    simp only [symbol] at h
    split at h
    · next hs =>
      cases h
      exact .pair hs
    · next hpair =>
      split at h
      · next hs =>
        cases h
        exact hsingle hs fun e he => by cases he; exact hpair
      · cases h

theorem lineComment_ne_token {text : List Char} {kind : TokenKind} {word rest : List Char} :
    lineComment text ≠ .token kind word rest := by
  rw [lineComment]
  split <;> nofun

theorem blockComment_ne_token {opening body : List Char} {kind : TokenKind}
    {word rest : List Char} : blockComment opening body ≠ .token kind word rest := by
  rw [blockComment]
  split <;> nofun

theorem not_opensComment_of_scan {c : Char} {rest : List Char} {kind : TokenKind}
    {word rest' : List Char} (h : scan (c :: rest) = .token kind word rest') :
    ∀ d ∈ rest.head?, opensComment c d = false := by
  intro d hd
  cases rest with
  | nil => cases hd
  | cons e more =>
    cases hd
    refine Bool.eq_false_iff.mpr fun hopens => ?_
    simp only [opensComment, Bool.and_eq_true, Bool.or_eq_true, beq_iff_eq] at hopens
    obtain ⟨rfl, rfl | rfl⟩ := hopens
    · exact lineComment_ne_token h
    · exact blockComment_ne_token h

/-- The lexer finds a word exactly where one leads. -/
theorem scan_eq_token_iff {text : List Char} {kind : TokenKind} {word rest : List Char} :
    scan text = .token kind word rest ↔ Leads kind word rest ∧ text = word ++ rest := by
  constructor
  · intro h
    have hsplits := splits_scan text
    rw [h] at hsplits
    refine ⟨?_, hsplits.2.symm⟩
    cases text with
    | nil => cases h
    | cons c more =>
      have hopens := not_opensComment_of_scan h
      rw [scan_cons hopens] at h
      split at h
      · cases h
      split at h
      · exact absurd h lineComment_ne_token
      split at h
      · next hc => exact leads_of_name hc h
      split at h
      · next hc => exact leads_of_number hc h
      split at h
      · exact leads_of_string h
      · exact leads_of_symbol hopens h
  · rintro ⟨h, rfl⟩
    exact scan_of_leads h

/-! ### What is special about words -/

theorem not_isNameChar_of_isBlank {c : Char} (h : Text.isBlank c = true) :
    isNameChar c = false := by
  refine Bool.eq_false_iff.mpr fun hc => ?_
  have hrange : 33 ≤ c.toNat ∧ c.toNat ≤ 132 := by
    rcases Bool.or_eq_true_iff.mp hc with hc | hc
    · have := toNat_of_isNameStart hc
      omega
    · have := toNat_of_isDigit hc
      omega
  rw [isBlank_eq_false hrange] at h
  cases h

theorem not_isDigitChar_of_isBlank {c : Char} (h : Text.isBlank c = true) :
    isDigitChar c = false := by
  have hname := not_isNameChar_of_isBlank h
  simp only [isNameChar, isNameStart, Bool.or_eq_false_iff] at hname
  simp [isDigitChar, hname.2, hname.1.1]

theorem ofPair?_of_isBlank {d : Char} (h : Text.isBlank d = true) (c : Char) :
    Symbol.ofPair? c d = none ∧ opensComment c d = false := by
  have hne : ∀ e : Char, Text.isBlank e = false → d ≠ e := by
    rintro e he rfl
    rw [he] at h
    cases h
  refine ⟨?_, by simp [opensComment, hne '/' rfl, hne '*' rfl]⟩
  cases hpair : Symbol.ofPair? c d with
  | none => rfl
  | some s =>
    unfold Symbol.ofPair? at hpair
    split at hpair <;> first | exact absurd rfl (hne _ rfl) | cases hpair

namespace Leads

variable {kind : TokenKind} {word : List Char}

theorem ne_nil {rest : List Char} (h : Leads kind word rest) : word ≠ [] := by
  cases h <;> simp

theorem kind_ne_eof {rest : List Char} (h : Leads kind word rest) : kind ≠ .eof := by
  cases h with
  | name =>
    rw [nameKind]
    split <;> nofun
  | whole | fraction | string | single | pair => nofun

theorem alone {rest : List Char} (h : Leads kind word rest) : Leads kind word [] := by
  cases h with
  | name hc htail _ => exact .name hc htail nofun
  | whole hc htail _ _ => exact .whole hc htail nofun nofun
  | fraction hc htail hd htail' _ => exact .fraction hc htail hd htail' nofun
  | string hbody => exact .string hbody
  | single hs _ => exact .single hs nofun
  | pair hs => exact .pair hs

/-- A word stays one when a blank is put behind it, right there or after some more of the text,
whatever follows the blank. -/
theorem spread {before after : List Char} {b : Char} (h : Leads kind word (before ++ after))
    (hb : Text.isBlank b = true) (more : List Char) : Leads kind word (before ++ b :: more) := by
  -- the next character is the old one or the blank
  have next : ∀ {p : Char → Prop}, p b → (∀ d ∈ (before ++ after).head?, p d) →
      ∀ d ∈ (before ++ b :: more).head?, p d := by
    intro p hpb hp d hd
    cases before with
    | nil =>
      cases hd
      exact hpb
    | cons c before =>
      cases hd
      exact hp _ rfl
  cases h with
  | name hc htail hrest => exact .name hc htail (next (not_isNameChar_of_isBlank hb) hrest)
  | whole hc htail hrest hpoint =>
    refine .whole hc htail (next (not_isDigitChar_of_isBlank hb) hrest) ?_
    intro d rest' hd
    match before with
    | [] =>
      cases hd
      cases hb
    | [c] =>
      cases hd
      have hdigit := not_isDigitChar_of_isBlank hb
      rw [isDigitChar, Bool.or_eq_false_iff] at hdigit
      exact hdigit.1
    | c :: e :: before =>
      cases hd
      exact hpoint d (before ++ after) rfl
  | fraction hc htail hd htail' hrest =>
    exact .fraction hc htail hd htail' (next (not_isDigitChar_of_isBlank hb) hrest)
  | string hbody => exact .string hbody
  | single hs hrest => exact .single hs (next (ofPair?_of_isBlank hb _) hrest)
  | pair hs => exact .pair hs

/-- A word is the longest one: what leads a text that begins with a word is no shorter. -/
theorem length_le {kind' : TokenKind} {word' rest more : List Char} (h : Leads kind word [])
    (hscan : scan (word ++ more) = .token kind' word' rest) : word.length ≤ word'.length := by
  cases h with
  | @name c tail _ hc htail _ =>
    rw [List.cons_append, scan_name hc, ← List.cons_append, name_eq,
      List.takeWhile_append_of_pos (isNameChar_cons hc htail)] at hscan
    cases hscan
    simp
  | @whole c tail _ hc htail _ _ =>
    rw [List.cons_append, scan_number hc, ← List.cons_append, number,
      List.takeWhile_append_of_pos (isDigitChar_cons hc htail)] at hscan
    dsimp only at hscan
    split at hscan
    · split at hscan
      · obtain ⟨-, rfl, -⟩ := numeral_eq_token hscan
        simp
      · obtain ⟨-, rfl, -⟩ := numeral_eq_token hscan
        simp
    · obtain ⟨-, rfl, -⟩ := numeral_eq_token hscan
      simp
  | @fraction c d tail tail' _ hc htail hd htail' _ =>
    obtain ⟨htake, hdrop⟩ := takeWhile_stretch (isDigitChar_cons hc htail)
      (isDigitChar_point (d :: (tail' ++ more)))
    have happend : c :: tail ++ '.' :: d :: tail' ++ more
        = c :: tail ++ '.' :: d :: (tail' ++ more) := by simp
    rw [happend, List.cons_append, scan_number hc, ← List.cons_append, number, htake, hdrop]
      at hscan
    simp only [if_pos hd] at hscan
    rw [← List.cons_append, List.takeWhile_append_of_pos (isDigitChar_cons hd htail')] at hscan
    obtain ⟨-, rfl, -⟩ := numeral_eq_token hscan
    simp
  | @string value body _ hbody =>
    rw [scan_of_leads (.string hbody)] at hscan
    cases hscan
    exact Nat.le_refl _
  | @single c s _ hs _ =>
    have hword' := (scan_eq_token_iff.mp hscan).1.ne_nil
    exact List.length_pos_iff.mpr hword'
  | @pair c d s _ hs =>
    rw [scan_of_leads (.pair hs)] at hscan
    cases hscan
    exact Nat.le_refl _

end Leads

theorem Leads.head_ne_byteOrderMark {kind : TokenKind} {c : Char} {tail rest : List Char}
    (h : Leads kind (c :: tail) rest) : c ≠ byteOrderMark := by
  rintro rfl
  cases h with
  | name hc _ _ => exact absurd hc (by decide)
  | whole hc _ _ _ => exact absurd hc (by decide)
  | fraction hc _ _ _ _ => exact absurd hc (by decide)
  | single hs _ => cases hs
  | pair hs => cases hs

end Lexer
end ClipScript
