/-
What a parser has settled by the tokens it has read.

Let a parser succeed.  Then the tokens it took settle the result, together with the kind of the
token that comes next: it succeeds in the same way wherever these tokens are followed by a token of
that kind.  Let it complain about a token.  Then the tokens up to this one settle the complaint.
`Settles` says both.

Two productions look further ahead than one token.  A name looks for a dot, a name and a
parenthesis that make it a call of a plugin, and an argument looks for a label.  Neither can notice:
behind a name that is no such call the dot and the name behind it are taken one by one, and
an argument without a label takes the name it begins with.  So parsers are judged with the number of
tokens that they take at least when they succeed, and before they complain.

How many tokens are left bounds the rounds of every loop, so the rules compare parsers of different
bounds, each of which is enough for the tokens that its parser is given.
-/
import ClipScript.Proofs.Parser.Crossing

namespace ClipScript

/-! ## What comes next -/

namespace Token

/-- The kind of the next token, which is the end of input if there is none. -/
def nextKind (ts : List Token) : TokenKind := (ts.map Token.kind).headD .eof

def SameAhead (n : Nat) (ts ts' : List Token) : Prop :=
  ∀ i ≤ n, nextKind (ts.drop i) = nextKind (ts'.drop i)

/-- A name is one token. -/
def nameAhead : List Token → Nat
  | ⟨.identifier _, _⟩ :: _ => 1
  | _ => 0

/-- How many tokens come before the last one that tells whether a plugin is called. -/
def callAhead : List Token → Nat
  | ⟨.symbol .dot, _⟩ :: rest => nameAhead rest + 1
  | _ => 0

/-- What a parser cannot tell apart behind the tokens that it took. -/
abbrev Look := List Token → List Token → Prop

/-- As many kinds behind the next one as are counted are looked at. -/
def ahead (count : List Token → Nat) : Look := fun ts ts' => SameAhead (count ts) ts ts'

abbrev near : Look := ahead fun _ => 0

def elses : Look := fun ts ts' =>
  nextKind ts = .keyword .elseKw ↔ nextKind ts' = .keyword .elseKw

theorem SameAhead.mono {n m : Nat} {ts ts' : List Token} (h : SameAhead n ts ts') (hm : m ≤ n) :
    SameAhead m ts ts' :=
  fun i hi => h i (Nat.le_trans hi hm)

theorem SameAhead.next {n : Nat} {ts ts' : List Token} (h : SameAhead n ts ts') :
    nextKind ts = nextKind ts' :=
  h 0 (Nat.zero_le n)

theorem nextKind_append (taken : List Token) {ts ts' : List Token}
    (h : nextKind ts = nextKind ts') : nextKind (taken ++ ts) = nextKind (taken ++ ts') := by
  cases taken with
  | nil => exact h
  | cons t taken => rfl

/-- Behind tokens that are the same only the next one has to be of the same kind. -/
theorem sameAhead_append {n : Nat} {taken ts ts' : List Token} (hn : n ≤ taken.length)
    (h : nextKind ts = nextKind ts') : SameAhead n (taken ++ ts) (taken ++ ts') := by
  intro i hi
  have hlength := Nat.le_trans hi hn
  rw [List.drop_append_of_le_length hlength, List.drop_append_of_le_length hlength]
  exact nextKind_append _ h

theorem near_of_next {ts ts' : List Token} (h : nextKind ts = nextKind ts') : near ts ts' := by
  intro i hi
  rw [Nat.le_zero.mp hi]
  exact h

theorem elses_of_next {ts ts' : List Token} (h : nextKind ts = nextKind ts') : elses ts ts' := by
  rw [elses, h]

/-- By the tokens that are taken, and by what is seen behind them with one look, it is settled what
is seen with another look where they begin. -/
structure Look.Covers (look : Look) (moves past : Nat) (sight : Look) (ts : List Token) :
    Prop where
  ok : ∀ {taken rest rest' : List Token}, ts = taken ++ rest → moves ≤ taken.length →
    look rest rest' → sight ts (taken ++ rest')
  error : ∀ {taken rest : List Token} {t : Token} (rest' : List Token), ts = taken ++ t :: rest →
    past ≤ taken.length → sight ts (taken ++ t :: rest')

theorem covers_ahead {moves past : Nat} {count count' : List Token → Nat} {ts : List Token}
    (hmoves : count' ts ≤ moves) (hpast : count' ts ≤ past) :
    (ahead count).Covers moves past (ahead count') ts where
  ok hts htaken hlook := by
    have hsame := sameAhead_append (Nat.le_trans hmoves htaken) hlook.next
    rwa [← hts] at hsame
  error {_ rest t} rest' hts htaken := by
    have hnext : nextKind (t :: rest) = nextKind (t :: rest') := rfl
    have hsame := sameAhead_append (Nat.le_trans hpast htaken) hnext
    rwa [← hts] at hsame

/-- A look at no more than the next token. -/
theorem Look.Covers.of_next {look sight : Look} {moves past : Nat} {ts : List Token}
    (hsight : ∀ {ts ts' : List Token}, nextKind ts = nextKind ts' → sight ts ts')
    (hmoves : 0 < moves ∨ ∀ {ts ts' : List Token}, look ts ts' → sight ts ts') :
    look.Covers moves past sight ts where
  ok {taken rest rest'} hts htaken hlook := by
    subst hts
    cases taken with
    | nil => exact (hmoves.resolve_left (Nat.not_lt.mpr htaken)) hlook
    | cons t taken => exact hsight rfl
  error {taken rest t} rest' hts _ := by
    subst hts
    cases taken <;> exact hsight rfl

theorem covers_near {moves past : Nat} {count : List Token → Nat} {ts : List Token} :
    (ahead count).Covers moves past near ts :=
  covers_ahead (Nat.zero_le _) (Nat.zero_le _)

theorem covers_sees {k : TokenKind} {moves past : Nat} {count : List Token → Nat}
    {ts : List Token} :
    (ahead count).Covers moves past (fun ts ts' => nextKind ts = k ↔ nextKind ts' = k) ts :=
  .of_next (fun h => by rw [h]) (.inr fun h => by rw [h.next])

theorem covers_nothing {look : Look} {moves past : Nat} {ts : List Token} :
    look.Covers moves past (fun _ _ => True) ts :=
  ⟨fun _ _ _ => trivial, fun _ _ _ => trivial⟩

theorem covers_near_of_moves {look : Look} {moves past : Nat} {ts : List Token} :
    look.Covers (moves + 1) past near ts :=
  .of_next near_of_next (.inl (Nat.succ_pos moves))

theorem exists_cons_of_nextKind {ts : List Token} {k : TokenKind} (h : nextKind ts = k)
    (hk : k ≠ .eof) : ∃ place more, ts = ⟨k, place⟩ :: more := by
  cases ts with
  | nil => exact absurd h.symm hk
  | cons t more =>
    subst h
    exact ⟨t.span, more, rfl⟩

theorem head_kind (ts : List Token) (finish : Span) (imported : List String) :
    (Cursor.mk ts finish imported).head.kind = nextKind ts := by
  cases ts <;> rfl

/-- Every place is there once, that of the end of input too. -/
def Distinct (finish : Span) (ts : List Token) : Prop := (finish :: ts.map Token.span).Nodup

theorem Distinct.of_append {finish : Span} (taken : List Token) {ts : List Token}
    (h : Distinct finish (taken ++ ts)) : Distinct finish ts := by
  refine List.Nodup.sublist (List.Sublist.cons_cons finish ?_) h
  exact (List.sublist_append_right taken ts).map Token.span

theorem Distinct.eq_of_span {finish : Span} {ts taken taken' rest rest' : List Token} {t t' : Token}
    (h : Distinct finish ts) (hts : ts = taken ++ t :: rest) (hts' : ts = taken' ++ t' :: rest')
    (hspan : t.span = t'.span) : taken = taken' ∧ t = t' := by
  induction taken generalizing taken' ts with
  | nil =>
    cases taken' with
    | nil =>
      subst hts
      exact ⟨rfl, (List.cons.inj hts').1⟩
    | cons u taken' =>
      subst hts
      obtain ⟨rfl, rfl⟩ := List.cons.inj hts'
      exact absurd h (by simp [Distinct, hspan])
  | cons u taken ih =>
    cases taken' with
    | nil =>
      subst hts'
      obtain ⟨rfl, rfl⟩ := List.cons.inj hts
      exact absurd h (by simp [Distinct, hspan])
    | cons u' taken' =>
      subst hts
      obtain ⟨rfl, htail⟩ := List.cons.inj hts'
      obtain ⟨rfl, rfl⟩ := ih (h.of_append [u]) rfl htail
      exact ⟨rfl, rfl⟩

theorem Distinct.span_ne {finish : Span} {taken rest : List Token} {t : Token}
    (h : Distinct finish (taken ++ t :: rest)) : t.span ≠ finish := by
  rintro rfl
  simp [Distinct] at h

end Token

/-- What tells where an expression ends.  A name that ends it may turn out to be the name of a
plugin, unless dots are taken as well. -/
def Level.look : Level → Token.Look
  | .unary | .primary => Token.ahead Token.callAhead
  | _ => Token.near

/-! ## Complaints about tokens -/

/-- Whether a fault is a complaint about one token. -/
def GrammarFault.isAboutToken : GrammarFault → Bool
  | unexpectedToken _ _ | invalidNumber _ => true
  | argumentOrder | parameterOrder _ => false

/-- A complaint about a token gives its kind, or its digits if they are no number, and its place. -/
inductive ParseError.Reports (t : Token) : ParseError → Prop where
  | unexpected (expected : Expectation) : Reports t ⟨.unexpectedToken expected t.kind, t.span⟩
  | number {digits : String} : t.kind = .number digits → Reports t ⟨.invalidNumber digits, t.span⟩

theorem ParseError.Reports.span {t : Token} {e : ParseError} (h : e.Reports t) :
    e.span = t.span := by
  cases h <;> rfl

namespace Parser

open Token

variable {α β : Type} {room moves past : Nat} {look : Look} {count : List Token → Nat}
  {imported : List String} {ts : List Token}

/-- What the tokens `ts` settle of `p`, so that `p'` has to do the same on at most `room` tokens.
When `p` succeeds it takes at least `moves` tokens, and these settle the result, together with
what `look` sees of those behind them.  When `p` complains about a token, there
are at least `past` tokens before that one, and all these settle the complaint.  The places are
distinct there, so that the place of a complaint tells its token. -/
structure Settles (room : Nat) (look : Look) (moves past : Nat) (imported : List String)
    (ts : List Token) (p p' : Parser α) : Prop where
  ok : ∀ {finish : Span} {a : α} {c : Cursor}, p.run ⟨ts, finish, imported⟩ = .ok (a, c) →
    ∃ taken rest imported', ts = taken ++ rest ∧ c = ⟨rest, finish, imported'⟩ ∧
      moves ≤ taken.length ∧ ∀ rest' finish', (taken ++ rest').length ≤ room →
        look rest rest' →
        p'.run ⟨taken ++ rest', finish', imported⟩ = .ok (a, ⟨rest', finish', imported'⟩)
  error : ∀ {finish : Span} {e : ParseError}, Distinct finish ts →
    p.run ⟨ts, finish, imported⟩ = .error e → e.fault.isAboutToken →
    (∃ expected, e = ⟨.unexpectedToken expected .eof, finish⟩) ∨
      ∃ taken t rest, ts = taken ++ t :: rest ∧ e.Reports t ∧ past ≤ taken.length ∧
        ∀ rest' finish', (taken ++ t :: rest').length ≤ room →
          p'.run ⟨taken ++ t :: rest', finish', imported⟩ = .error e

namespace Settles

variable {p p' q q' : Parser α}

theorem weaken {room' moves' past' : Nat} {look' : Look}
    (h : Settles room look moves past imported ts p p') (hroom : room' ≤ room)
    (hlook : ∀ ts ts', look' ts ts' → look ts ts') (hmoves : moves' ≤ moves)
    (hpast : past' ≤ past) :
    Settles room' look' moves' past' imported ts p p' := by
  constructor
  · intro finish a c hrun
    obtain ⟨taken, rest, imported', hts, hc, htaken, hsame⟩ := h.ok hrun
    refine ⟨taken, rest, imported', hts, hc, Nat.le_trans hmoves htaken, ?_⟩
    intro rest' finish' hlen hahead
    exact hsame rest' finish' (Nat.le_trans hlen hroom) (hlook _ _ hahead)
  · intro finish e hdistinct hrun hfault
    refine (h.error hdistinct hrun hfault).imp_right ?_
    rintro ⟨taken, t, rest, hts, hreports, htaken, hsame⟩
    exact ⟨taken, t, rest, hts, hreports, Nat.le_trans hpast htaken,
      fun rest' finish' hlen => hsame rest' finish' (Nat.le_trans hlen hroom)⟩

theorem within {room' : Nat} (h : Settles room look moves past imported ts p p')
    (hroom : room' ≤ room) : Settles room' look moves past imported ts p p' :=
  h.weaken hroom (fun _ _ h => h) (Nat.le_refl moves) (Nat.le_refl past)

theorem at_once (h : Settles room look moves past imported ts p p') :
    Settles room look moves 0 imported ts p p' :=
  h.weaken (Nat.le_refl room) (fun _ _ h => h) (Nat.le_refl moves) (Nat.zero_le past)

theorem uncounted (h : Settles room look moves past imported ts p p') :
    Settles room look 0 0 imported ts p p' :=
  h.weaken (Nat.le_refl room) (fun _ _ h => h) (Nat.zero_le moves) (Nat.zero_le past)

theorem nearly (h : Settles room elses moves past imported ts p p') :
    Settles room near moves past imported ts p p' :=
  h.weaken (Nat.le_refl room) (fun _ _ hlook => elses_of_next hlook.next) (Nat.le_refl moves)
    (Nat.le_refl past)

/-- A parser that takes a token cannot do so where there is no room for any. -/
theorem without_room {look' : Look}
    (h : Settles room look (moves + 1) past imported ts p p') :
    Settles 0 look' (moves + 1) past imported ts p q' := by
  constructor
  · intro finish a c hrun
    obtain ⟨taken, rest, imported', hts, hc, htaken, -⟩ := h.ok hrun
    refine ⟨taken, rest, imported', hts, hc, htaken, fun rest' finish' hlen => ?_⟩
    rw [List.length_append] at hlen
    omega
  · intro finish e hdistinct hrun hfault
    refine (h.error hdistinct hrun hfault).imp_right ?_
    rintro ⟨taken, t, rest, hts, hreports, htaken, -⟩
    refine ⟨taken, t, rest, hts, hreports, htaken, fun rest' finish' hlen => ?_⟩
    rw [List.length_append, List.length_cons] at hlen
    omega

/-- A loop that takes a token each round, with as many rounds as there is room. -/
theorem of_rounds {n : Nat} (loop : Nat → Parser α) (hroom : room ≤ n)
    (h : ∀ n, room ≤ n + 1 →
      Settles room look (moves + 1) past imported ts p (loop (n + 1))) :
    Settles room look (moves + 1) past imported ts p (loop n) := by
  cases n with
  | zero =>
    cases Nat.le_zero.mp hroom
    exact (h 0 (Nat.zero_le 1)).without_room
  | succ n => exact h n hroom

/-- A parser that succeeds where it stands, by what it sees ahead. -/
theorem stays {a : α}
    (hp : ∀ finish, p.run ⟨ts, finish, imported⟩ = .ok (a, ⟨ts, finish, imported⟩))
    (hp' : ∀ ts' finish', ts'.length ≤ room → look ts ts' →
      p'.run ⟨ts', finish', imported⟩ = .ok (a, ⟨ts', finish', imported⟩)) :
    Settles room look 0 past imported ts p p' := by
  constructor
  · intro finish b c hrun
    rw [hp] at hrun
    cases hrun
    exact ⟨[], ts, imported, rfl, rfl, Nat.le_refl 0, hp'⟩
  · intro finish e _ hrun
    rw [hp] at hrun
    cases hrun

theorem pure (a : α) : Settles room look 0 past imported ts (pure a) (pure a) :=
  stays (fun _ => rfl) fun _ _ _ _ => rfl

theorem objects (h : ∀ c, ∃ e, p.run c = .error e ∧ e.fault.isAboutToken = false) :
    Settles room look moves past imported ts p p' := by
  constructor
  · intro finish a c hrun
    obtain ⟨e, he, -⟩ := h ⟨ts, finish, imported⟩
    rw [he] at hrun
    cases hrun
  · intro finish e _ hrun hfault
    obtain ⟨e', he, hnot⟩ := h ⟨ts, finish, imported⟩
    rw [he] at hrun
    cases hrun
    rw [hnot] at hfault
    cases hfault

theorem blames {t : Token} {more : List Token} {e : ParseError} (he : e.Reports t)
    (hp : ∀ finish, p.run ⟨t :: more, finish, imported⟩ = .error e)
    (hp' : ∀ more' finish, p'.run ⟨t :: more', finish, imported⟩ = .error e) :
    Settles room look moves 0 imported (t :: more) p p' := by
  constructor
  · intro finish a c hrun
    rw [hp] at hrun
    cases hrun
  · intro finish e' _ hrun _
    rw [hp] at hrun
    cases hrun
    exact .inr ⟨[], t, more, rfl, he, Nat.le_refl 0, fun rest' finish' _ => hp' rest' finish'⟩

theorem runs_out {expected : Expectation}
    (hp : ∀ finish, p.run ⟨[], finish, imported⟩
      = .error ⟨.unexpectedToken expected .eof, finish⟩) :
    Settles room look moves past imported [] p p' := by
  constructor
  · intro finish a c hrun
    rw [hp] at hrun
    cases hrun
  · intro finish e _ hrun _
    rw [hp] at hrun
    cases hrun
    exact .inl ⟨expected, rfl⟩

theorem runs_out_bind {f : α → Parser β} {g : Parser β} {look' : Look}
    {moves' past' : Nat} (h : Settles room look (moves + 1) past imported [] p p') :
    Settles room look' moves' past' imported [] (p >>= f) g := by
  have hnil : ∀ {taken rest : List Token}, [] = taken ++ rest → taken = [] :=
    fun h => (List.append_eq_nil_iff.mp h.symm).1
  constructor
  · intro finish b c hrun
    obtain ⟨a, d, hfirst, -⟩ := exists_of_run_bind hrun
    obtain ⟨taken, rest, -, hts, -, htaken, -⟩ := h.ok hfirst
    rw [hnil hts] at htaken
    cases htaken
  · intro finish e hdistinct hrun hfault
    rcases error_of_run_bind hrun with hfirst | ⟨a, d, hfirst, -⟩
    · refine .inl ((h.error hdistinct hfirst hfault).resolve_right ?_)
      rintro ⟨taken, t, rest, hts, -⟩
      simp at hts
    · obtain ⟨taken, rest, -, hts, -, htaken, -⟩ := h.ok hfirst
      rw [hnil hts] at htaken
      cases htaken

/-- One step and then another, which knows where it starts.  What the first one looks at is settled
by what the second one takes. -/
theorem bind_of_run {look₁ : Look} {total : Nat} {moves' past' : List Token → Nat}
    {f f' : α → Parser β}
    (hp : Settles room look₁ moves past imported ts p p')
    (hf : ∀ a rest finish imported', rest.length + moves ≤ ts.length →
      p.run ⟨ts, finish, imported⟩ = .ok (a, ⟨rest, finish, imported'⟩) →
      Settles (room - moves) look (moves' rest) (past' rest) imported' rest (f a) (f' a))
    (hcovers : ∀ rest, look.Covers (moves' rest) (past' rest) look₁ rest)
    (htotal : ∀ rest, total ≤ moves + moves' rest) (hpast : past ≤ moves) :
    Settles room look total past imported ts (p >>= f) (p' >>= f') := by
  constructor
  · intro finish b c hrun
    obtain ⟨a, d, hfirst, hsecond⟩ := exists_of_run_bind hrun
    obtain ⟨taken, rest, imported₁, rfl, rfl, htaken, hsame⟩ := hp.ok hfirst
    have hlength : rest.length + moves ≤ (taken ++ rest).length := by
      rw [List.length_append]
      omega
    obtain ⟨more, rest₂, imported₂, rfl, rfl, hmore, hsame₂⟩ :=
      (hf a rest finish _ hlength hfirst).ok hsecond
    refine ⟨taken ++ more, rest₂, imported₂, (List.append_assoc ..).symm, rfl, ?_, ?_⟩
    · have := htotal (more ++ rest₂)
      rw [List.length_append]
      omega
    · intro rest' finish' hlen hahead
      rw [List.append_assoc] at hlen ⊢
      rw [run_bind_ok (hsame _ finish' hlen ((hcovers _).ok rfl hmore hahead))]
      refine hsame₂ rest' finish' ?_ hahead
      rw [List.length_append] at hlen
      omega
  · intro finish e hdistinct hrun hfault
    rcases error_of_run_bind hrun with hfirst | ⟨a, d, hfirst, hsecond⟩
    · refine (hp.error hdistinct hfirst hfault).imp_right ?_
      rintro ⟨taken, t, rest, hts, hreports, htaken, hsame⟩
      exact ⟨taken, t, rest, hts, hreports, htaken,
        fun rest' finish' hlen => run_bind_error (hsame rest' finish' hlen) f'⟩
    · obtain ⟨taken, rest, imported₁, rfl, rfl, htaken, hsame⟩ := hp.ok hfirst
      have hlength : rest.length + moves ≤ (taken ++ rest).length := by
        rw [List.length_append]
        omega
      refine ((hf a rest finish _ hlength hfirst).error (hdistinct.of_append taken) hsecond
        hfault).imp_right ?_
      rintro ⟨more, t, rest₂, rfl, hreports, hmore, hsame₂⟩
      refine ⟨taken ++ more, t, rest₂, (List.append_assoc ..).symm, hreports, ?_, ?_⟩
      · rw [List.length_append]
        omega
      · intro rest' finish' hlen
        rw [List.append_assoc] at hlen ⊢
        rw [run_bind_ok (hsame _ finish' hlen ((hcovers _).error rest' rfl hmore))]
        refine hsame₂ rest' finish' ?_
        rw [List.length_append] at hlen
        omega

theorem bind {count' : List Token → Nat} {f f' : α → Parser β}
    (hp : Settles room (ahead count') moves past imported ts p p')
    (hf : ∀ a rest imported', rest.length + moves ≤ ts.length →
      Settles (room - moves) (ahead count) (count' rest) (count' rest) imported' rest (f a) (f' a))
    (hpast : past ≤ moves) :
    Settles room (ahead count) moves past imported ts (p >>= f) (p' >>= f') :=
  hp.bind_of_run (fun a rest _ imported' hlength _ => hf a rest imported' hlength)
    (fun _ => covers_ahead (Nat.le_refl _) (Nat.le_refl _)) (fun _ => Nat.le_add_right _ _) hpast

/-- One step and then another, of which not even that has to be known that it takes a token. -/
theorem seq_of_covers {look₁ : Look} {f f' : α → Parser β}
    (hp : Settles room look₁ moves 0 imported ts p p')
    (hf : ∀ a rest imported', rest.length + moves ≤ ts.length →
      Settles (room - moves) look 0 0 imported' rest (f a) (f' a))
    (hcovers : ∀ rest, look.Covers 0 0 look₁ rest) :
    Settles room look moves 0 imported ts (p >>= f) (p' >>= f') :=
  hp.bind_of_run (fun a rest _ imported' hlength _ => hf a rest imported' hlength) hcovers
    (fun _ => Nat.le_add_right _ 0) (Nat.zero_le moves)

/-- One step that looks at nothing but the next token, and then another. -/
theorem seq {f f' : α → Parser β} (hp : Settles room near moves 0 imported ts p p')
    (hf : ∀ a rest imported', rest.length + moves ≤ ts.length →
      Settles (room - moves) (ahead count) 0 0 imported' rest (f a) (f' a)) :
    Settles room (ahead count) moves 0 imported ts (p >>= f) (p' >>= f') :=
  hp.bind hf (Nat.zero_le moves)

/-- The same where the second step knows where it starts, and takes a token.  So it is settled by
that token what the first one looked at. -/
theorem last {f f' : α → Parser β} (hp : Settles room near moves 0 imported ts p p')
    (hf : ∀ a rest finish imported', rest.length + moves ≤ ts.length →
      p.run ⟨ts, finish, imported⟩ = .ok (a, ⟨rest, finish, imported'⟩) →
      Settles (room - moves) look 1 0 imported' rest (f a) (f' a)) :
    Settles room look 1 0 imported ts (p >>= f) (p' >>= f') :=
  hp.bind_of_run hf (fun _ => .of_next near_of_next (.inl Nat.one_pos))
    (fun _ => Nat.le_add_left 1 moves) (Nat.zero_le moves)

theorem step {f f' : α → Parser β} (hp : Settles room near moves 0 imported ts p p')
    (hf : ∀ a rest imported', rest.length + moves ≤ ts.length →
      Settles (room - moves) look 1 0 imported' rest (f a) (f' a)) :
    Settles room look 1 0 imported ts (p >>= f) (p' >>= f') :=
  hp.last fun a rest _ imported' hlength _ => hf a rest imported' hlength

theorem bind_pure (h : Settles room look moves past imported ts p p') (f : α → β) :
    Settles room look moves past imported ts (p >>= fun a => Pure.pure (f a))
      (p' >>= fun a => Pure.pure (f a)) := by
  constructor
  · intro finish b c hrun
    obtain ⟨a, d, hfirst, hsecond⟩ := exists_of_run_bind hrun
    obtain ⟨taken, rest, imported', hts, rfl, htaken, hsame⟩ := h.ok hfirst
    cases hsecond
    refine ⟨taken, rest, imported', hts, rfl, htaken, fun rest' finish' hlen hahead => ?_⟩
    rw [run_bind_ok (hsame rest' finish' hlen hahead)]
    rfl
  · intro finish e hdistinct hrun hfault
    rcases error_of_run_bind hrun with hfirst | ⟨a, d, -, hsecond⟩
    · refine (h.error hdistinct hfirst hfault).imp_right ?_
      rintro ⟨taken, t, rest, hts, hreports, htaken, hsame⟩
      exact ⟨taken, t, rest, hts, hreports, htaken,
        fun rest' finish' hlen => run_bind_error (hsame rest' finish' hlen) _⟩
    · cases hsecond

theorem map (h : Settles room look moves past imported ts p p') (f : α → β) :
    Settles room look moves past imported ts (f <$> p) (f <$> p') :=
  h.bind_pure f

theorem discard (h : Settles room look moves past imported ts p p') :
    Settles room look moves past imported ts (discard p) (discard p') :=
  h.map _

/-- The parsers do what others do, as far as they can tell by a look at tokens that are taken
later. -/
theorem dispatch {sight : Look} (h : Settles room look moves past imported ts q q')
    (hcovers : look.Covers moves past sight ts)
    (hp : ∀ finish, p.run ⟨ts, finish, imported⟩ = q.run ⟨ts, finish, imported⟩)
    (hp' : ∀ ts' finish', sight ts ts' →
      p'.run ⟨ts', finish', imported⟩ = q'.run ⟨ts', finish', imported⟩) :
    Settles room look moves past imported ts p p' := by
  constructor
  · intro finish a c hrun
    rw [hp] at hrun
    obtain ⟨taken, rest, imported', hts, hc, htaken, hsame⟩ := h.ok hrun
    refine ⟨taken, rest, imported', hts, hc, htaken, fun rest' finish' hlen hahead => ?_⟩
    rw [hp' _ _ (hcovers.ok hts htaken hahead)]
    exact hsame rest' finish' hlen hahead
  · intro finish e hdistinct hrun hfault
    rw [hp] at hrun
    refine (h.error hdistinct hrun hfault).imp_right ?_
    rintro ⟨taken, t, rest, hts, hreports, htaken, hsame⟩
    refine ⟨taken, t, rest, hts, hreports, htaken, fun rest' finish' hlen => ?_⟩
    rw [hp' _ _ (hcovers.error rest' hts htaken)]
    exact hsame rest' finish' hlen

/-! ## Looking -/

/-- A step that looks at the next token knows its kind.  It must not use its place. -/
theorem peek_bind {f f' : Token → Parser β} (hf' : ∀ t t', t.kind = t'.kind → f' t = f' t')
    (h : ∀ t, t.kind = nextKind ts →
      Settles room (ahead count) moves past imported ts (f t) (f' t)) :
    Settles room (ahead count) moves past imported ts (peek >>= f) (peek >>= f') := by
  have hstep : ∀ finish, Settles room (ahead count) moves past imported ts
      (f (Cursor.mk ts finish []).head) (peek >>= f') := by
    intro finish
    refine (h _ (head_kind ts finish [])).dispatch covers_near (fun _ => rfl)
      fun ts' finish' hahead => ?_
    show (f' (Cursor.mk ts' finish' imported).head).run _ = _
    rw [hf' _ (Cursor.mk ts finish []).head]
    rw [head_kind, head_kind, hahead.next]
  constructor
  · intro finish a c hrun
    exact (hstep finish).ok hrun
  · intro finish e hdistinct hrun hfault
    exact (hstep finish).error hdistinct hrun hfault

/-- A step that looks at the next token may use its place if it is taken later. -/
theorem peek_bind_of_moves {f f' : Token → Parser β}
    (h : ∀ t, t.kind = nextKind ts → Settles room look (moves + 1) past imported ts (f t) (f' t)) :
    Settles room look (moves + 1) past imported ts (peek >>= f) (peek >>= f') := by
  have hhead : ∀ finish, Settles room look (moves + 1) past imported ts
      (f (Cursor.mk ts finish []).head) (f' (Cursor.mk ts finish []).head) :=
    fun finish => h _ (head_kind ts finish [])
  constructor
  · intro finish a c hrun
    obtain ⟨taken, rest, imported', hts, hc, htaken, hsame⟩ := (hhead finish).ok hrun
    refine ⟨taken, rest, imported', hts, hc, htaken, fun rest' finish' hlen hahead => ?_⟩
    cases taken with
    | nil => cases htaken
    | cons t taken =>
      subst hts
      exact hsame rest' finish' hlen hahead
  · intro finish e hdistinct hrun hfault
    refine ((hhead finish).error hdistinct hrun hfault).imp_right ?_
    rintro ⟨taken, t, rest, hts, hreports, htaken, hsame⟩
    refine ⟨taken, t, rest, hts, hreports, htaken, fun rest' finish' hlen => ?_⟩
    cases taken with
    | nil =>
      subst hts
      exact hsame rest' finish' hlen
    | cons u taken =>
      subst hts
      exact hsame rest' finish' hlen

/-- Whatever bound the tokens give is enough for them. -/
theorem remaining_bind {f f' : Nat → Parser β}
    (h : ∀ n ≤ room, Settles n look moves past imported ts (f ts.length) (f' n)) :
    Settles room look moves past imported ts (remaining >>= f) (remaining >>= f') := by
  constructor
  · intro finish a c hrun
    obtain ⟨taken, rest, imported', rfl, rfl, htaken, -⟩ := (h 0 (Nat.zero_le room)).ok hrun
    refine ⟨taken, rest, imported', rfl, rfl, htaken, fun rest' finish' hlen hahead => ?_⟩
    obtain ⟨taken', rest₁, imported₁, htaken', hc, -, hsame⟩ := (h _ hlen).ok hrun
    cases hc
    cases List.append_cancel_right htaken'
    exact hsame rest' finish' (Nat.le_refl _) hahead
  · intro finish e hdistinct hrun hfault
    rcases (h 0 (Nat.zero_le room)).error hdistinct hrun hfault with
      hend | ⟨taken, t, rest, hts, hreports, htaken, -⟩
    · exact .inl hend
    refine .inr ⟨taken, t, rest, hts, hreports, htaken, fun rest' finish' hlen => ?_⟩
    -- the place of the complaint tells the token, so all bounds blame the same one
    rcases (h _ hlen).error hdistinct hrun hfault with
      ⟨expected, rfl⟩ | ⟨taken', t', rest₁, hts', hreports', -, hsame⟩
    · subst hts
      exact absurd hreports.span.symm hdistinct.span_ne
    · have hspan : t.span = t'.span := by rw [← hreports.span, hreports'.span]
      obtain ⟨rfl, rfl⟩ := hdistinct.eq_of_span hts hts' hspan
      exact hsame rest' finish' (Nat.le_refl _)

theorem check_bind {k : TokenKind} {f f' : Bool → Parser β}
    (hcovers : look.Covers moves past near ts)
    (h : Settles room look moves past imported ts (f (nextKind ts == k)) (f' (nextKind ts == k))) :
    Settles room look moves past imported ts (check k >>= f) (check k >>= f') := by
  refine h.dispatch hcovers (fun finish => ?_) fun ts' finish' hahead => ?_
  · show (f ((Cursor.mk ts finish imported).head.kind == k)).run _ = _
    rw [head_kind]
  · show (f' ((Cursor.mk ts' finish' imported).head.kind == k)).run _ = _
    rw [head_kind, hahead.next]

/-! ## Single tokens -/

theorem advance_bind {t : Token} {more : List Token} {f f' : Token → Parser β}
    (h : Settles room look moves past imported more (f t) (f' t)) :
    Settles (room + 1) look (moves + 1) (past + 1) imported (t :: more) (advance >>= f)
      (advance >>= f') := by
  constructor
  · intro finish a c hrun
    obtain ⟨taken, rest, imported', rfl, hc, htaken, hsame⟩ := h.ok hrun
    refine ⟨t :: taken, rest, imported', rfl, hc, Nat.succ_le_succ htaken, ?_⟩
    intro rest' finish' hlen hahead
    exact hsame rest' finish' (Nat.le_of_succ_le_succ hlen) hahead
  · intro finish e hdistinct hrun hfault
    refine (h.error (hdistinct.of_append [t]) hrun hfault).imp_right ?_
    rintro ⟨taken, u, rest, rfl, hreports, htaken, hsame⟩
    refine ⟨t :: taken, u, rest, rfl, hreports, Nat.succ_le_succ htaken, ?_⟩
    intro rest' finish' hlen
    exact hsame rest' finish' (Nat.le_of_succ_le_succ hlen)

theorem word_bind {t : Token} {more : List Token} {f f' : Token → Parser β}
    (h : Settles (room - 1) look 0 0 imported more (f t) (f' t)) :
    Settles room look 1 0 imported (t :: more) (advance >>= f) (advance >>= f') :=
  (advance_bind h).at_once.within (by omega)

theorem discard_word_bind {t : Token} {more : List Token} {f f' : PUnit → Parser β}
    (h : Settles (room - 1) look 0 0 imported more (f ⟨⟩) (f' ⟨⟩)) :
    Settles room look 1 0 imported (t :: more) (Functor.discard advance >>= f)
      (Functor.discard advance >>= f') := by
  have hword : Settles room look 1 0 imported (t :: more) (advance >>= fun _ => f ⟨⟩)
      (advance >>= fun _ => f' ⟨⟩) := word_bind h
  exact hword

/-- Two tokens are passed over, by what three kinds tell. -/
theorem skip {t t' : Token} {rest : List Token}
    (h : Settles room (ahead count) moves past imported rest q q')
    (hp : ∀ finish, p.run ⟨t :: t' :: rest, finish, imported⟩ = q.run ⟨rest, finish, imported⟩)
    (hp' : ∀ ts' finish', SameAhead 2 (t :: t' :: rest) ts' →
      p'.run ⟨ts', finish', imported⟩ = q'.run ⟨ts'.drop 2, finish', imported⟩) :
    Settles room (ahead count) (moves + 2) (past + 2) imported (t :: t' :: rest) p p' := by
  have hadvance : Settles (room + 2) (ahead count) (moves + 2) (past + 2) imported (t :: t' :: rest)
      (advance >>= fun _ => advance >>= fun _ => q)
      (advance >>= fun _ => advance >>= fun _ => q') := advance_bind (advance_bind h)
  have hcovers : (ahead count).Covers (moves + 2) (past + 2) (ahead fun _ => 2) (t :: t' :: rest) :=
    covers_ahead (Nat.le_add_left 2 _) (Nat.le_add_left 2 _)
  refine (hadvance.dispatch hcovers hp ?_).within (Nat.le_add_right room 2)
  intro ts' finish' hahead
  rw [hp' ts' finish' hahead]
  show _ = q'.run ⟨ts'.tail.tail, finish', imported⟩
  rw [← List.drop_one, ← List.drop_one, List.drop_drop]

/-- A token that stands ahead is accepted, and where it does not nothing is taken. -/
theorem accept_bind {k : TokenKind} (hk : k ≠ .eof) {f f' : Bool → Parser β}
    (hcovers : look.Covers moves past (fun ts ts' => nextKind ts = k ↔ nextKind ts' = k) ts)
    (htrue : ∀ place more, ts = ⟨k, place⟩ :: more →
      Settles (room - 1) look (moves - 1) (past - 1) imported more (f true) (f' true))
    (hfalse : nextKind ts ≠ k → Settles room look moves past imported ts (f false) (f' false)) :
    Settles room look moves past imported ts (accept k >>= f) (accept k >>= f') := by
  by_cases hnext : nextKind ts = k
  · obtain ⟨place, more, rfl⟩ := exists_cons_of_nextKind hnext hk
    have hadvance : Settles room look moves past imported (⟨k, place⟩ :: more)
        (advance >>= fun _ => f true) (advance >>= fun _ => f' true) :=
      (advance_bind (htrue place more rfl)).weaken (by omega) (fun _ _ h => h) (by omega) (by omega)
    have hrun : ∀ (g : Bool → Parser β) ts finish, nextKind ts = k →
        (accept k >>= g).run ⟨ts, finish, imported⟩
          = (advance >>= fun _ => g true).run ⟨ts, finish, imported⟩ := by
      intro g ts finish hts
      rw [run_bind_ok (run_accept_true _)]
      · rfl
      · rw [head_kind, hts, beq_self_eq_true]
    exact hadvance.dispatch hcovers (fun finish => hrun f _ finish hnext)
      fun ts' finish' hahead => hrun f' ts' finish' (hahead.mp hnext)
  · have hrun : ∀ (g : Bool → Parser β) ts finish, nextKind ts ≠ k →
        (accept k >>= g).run ⟨ts, finish, imported⟩ = (g false).run ⟨ts, finish, imported⟩ := by
      intro g ts finish hts
      rw [run_bind_ok (run_accept_false _)]
      rw [head_kind, beq_false_of_ne hts]
    exact (hfalse hnext).dispatch hcovers (fun finish => hrun f _ finish hnext)
      fun ts' finish' hahead => hrun f' ts' finish' (hnext ∘ hahead.mpr)

theorem expect (s : Symbol) :
    Settles room look 1 0 imported ts (Parser.expect s) (Parser.expect s) := by
  cases ts with
  | nil => exact runs_out fun _ => rfl
  | cons t more =>
    by_cases hk : t.kind = .symbol s
    · have hbody : Settles (room - 1) look 0 0 imported more
          (if t.kind == .symbol s then Pure.pure t.span else unexpected (.symbol s) t)
          (if t.kind == .symbol s then Pure.pure t.span else unexpected (.symbol s) t) := by
        rw [hk, beq_self_eq_true]
        exact pure t.span
      exact word_bind hbody
    · have hrun : ∀ more finish, (Parser.expect s).run ⟨t :: more, finish, imported⟩
          = .error ⟨.unexpectedToken (.symbol s) t.kind, t.span⟩ := by
        intro more finish
        show (if t.kind == .symbol s then Pure.pure t.span else unexpected (.symbol s) t :
          Parser Span).run _ = _
        rw [beq_false_of_ne hk]
        rfl
      exact blames (.unexpected _) (hrun more) hrun

theorem expectName (expected : Expectation) :
    Settles room look 1 0 imported ts (Parser.expectName expected)
      (Parser.expectName expected) := by
  cases ts with
  | nil => exact runs_out fun _ => rfl
  | cons t more =>
    obtain ⟨kind, place⟩ := t
    cases kind with
    | identifier name => exact word_bind (pure (name, place))
    | _ => exact blames (.unexpected _) (fun _ => rfl) fun _ _ => rfl

theorem makes_known (name : String) (a : α) :
    Settles room look 0 past imported ts
      (do
        modify fun c => { c with imported := name :: c.imported }
        return a)
      (do
        modify fun c => { c with imported := name :: c.imported }
        return a) := by
  constructor
  · intro finish b c hrun
    cases hrun
    exact ⟨[], ts, name :: imported, rfl, rfl, Nat.le_refl 0, fun _ _ _ _ => rfl⟩
  · intro finish e _ hrun
    cases hrun

/-! ## Lists -/

section Lists

variable {item item' : List α → Parser α}

theorem separated {n n' : Nat}
    (hitem : ∀ before imported ts, ts.length ≤ n →
      Settles room near 1 0 imported ts (item before) (item' before))
    (hts : ts.length ≤ n) (hroom : room ≤ n') (before : List α) :
    Settles room near 1 0 imported ts (Parser.separated item n before)
      (Parser.separated item' n' before) := by
  induction n generalizing n' room imported ts before with
  | zero =>
    cases List.eq_nil_of_length_eq_zero (Nat.le_zero.mp hts)
    exact (hitem before imported [] (Nat.le_refl 0)).runs_out_bind
  | succ n ih =>
    refine of_rounds (Parser.separated item' · before) hroom fun m hm => ?_
    refine (hitem before imported ts hts).seq fun a rest imported' hlength => ?_
    refine accept_bind (k := .symbol .comma) nofun covers_sees (fun place more hrest => ?_)
      fun _ => pure _
    have hmore : more.length + 1 = rest.length := by rw [hrest, List.length_cons]
    have hfewer : ∀ before imported ts, ts.length ≤ n →
        Settles (room - 1 - 1) near 1 0 imported ts (item before) (item' before) :=
      fun before imported ts hts => (hitem before imported ts (by omega)).within (by omega)
    exact (ih hfewer (by omega) (by omega) _).uncounted

theorem parenthesised {n : Nat}
    (hitem : ∀ before imported ts, ts.length ≤ n →
      Settles room near 1 0 imported ts (item before) (item' before)) (hts : ts.length ≤ n) :
    Settles room near 1 0 imported ts (Parser.parenthesised item) (Parser.parenthesised item') := by
  refine (expect .leftParen).discard.seq fun _ rest imported' hlength => ?_
  have hclose : ∀ room items rest imported, Settles room near 0 0 imported rest
      (do let close ← Parser.expect .rightParen; return (items, close))
      (do let close ← Parser.expect .rightParen; return ((items : List α), close)) :=
    fun room items rest imported => ((expect .rightParen).bind_pure _).uncounted
  refine check_bind covers_near ?_
  split
  · exact hclose _ [] rest _
  · refine remaining_bind fun m hm => ?_
    have hitems : Settles m near 1 0 imported' rest (Parser.separated item rest.length [])
        (Parser.separated item' m []) :=
      separated (fun before imported ts hle => (hitem before imported ts (by omega)).within
        (by omega)) (Nat.le_refl _) (Nat.le_refl m) []
    exact (hitems.seq fun items rest' imported'' _ => hclose _ items rest' imported'').uncounted

end Lists

/-- A result that is checked before it is given back, by a check that is not about a token. -/
theorem checked {a : α} {faulty : Bool} {e : ParseError} (he : e.fault.isAboutToken = false) :
    Settles room look 0 past imported ts
      (do
        if faulty then throw e
        return a)
      (do
        if faulty then throw e
        return a) := by
  cases faulty with
  | false => exact pure a
  | true => exact objects fun _ => ⟨e, rfl, he⟩

end Settles

end Parser
end ClipScript
