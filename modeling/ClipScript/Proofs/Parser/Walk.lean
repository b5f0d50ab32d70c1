/-
All parsers of the grammar go alike.

Two parsers that start at cursors of a lawful pairing walk side by side: wherever both succeed their
results go together, and so do their complaints (`Pairing.Walks`).  There is a rule for each step
that parsers are made of, and then one for each parser of the grammar, from the inside out.

Coming back to an outer level is the parser `again`, which may be another one on each side.  It is
only come back to after a token was taken.  So what is known of it has to hold only where fewer
tokens are left than at the start.
-/
import ClipScript.Proofs.Parser.Levels
import ClipScript.Proofs.Parser.Pairing

namespace ClipScript

open ClipScript.Parser

/-! ## Rounds

The loops of the grammar are these rounds, one below the other. -/

namespace Parser

variable {α : Type}

def leftRound (level : Level) (operand : Parser Node) (next : Node → Parser Node) (sofar : Node) :
    Parser Node := do
  match level.operator? (← peek).kind with
  | none => return sofar
  | some op =>
    discard advance
    let rhs ← operand
    next (.ofBinary op sofar rhs)

def separatedRound (item : List α → Parser α) (next : List α → Parser (List α))
    (before : List α) : Parser (List α) := do
  let before := before ++ [← item before]
  if ← accept (.symbol .comma) then next before else return before

def blockRound (again : Parser (Option Node)) (next : Parser (List Node)) : Parser (List Node) := do
  let token ← peek
  match token.kind with
  | .symbol .rightBrace => return []
  | .eof => unexpected (.symbol .rightBrace) token
  | _ =>
    let statement ← again
    let rest ← next
    return statement.toList ++ rest

def scriptRound (next : Parser (List Node)) : Parser (List Node) := do
  if ← check .eof then return []
  else
    let first ← statement
    let rest ← next
    return first.toList ++ rest

/-- What is left to read of a parameter behind `opt`. -/
def paramBehind (start : Span) (optional : Bool) : Parser Param := do
  let token ← advance
  let kind ← match token.kind with
    | .keyword .numKw => pure ValueKind.number
    | .keyword .boolKw => pure ValueKind.boolean
    | .keyword .stringKw => pure ValueKind.string
    | .keyword .clipKw => pure ValueKind.clip
    | _ => unexpected .parameterType token
  let (name, finish) ← expectName .parameterName
  return { name, kind, optional, span := start.merge finish }

theorem param_eq : param = (do
    let t ← peek
    let optional ← accept (.keyword .optKw)
    paramBehind t.span optional) :=
  rfl

theorem head_of_run_blockBody {again : Parser (Option Node)} {n : Nat} {c c' : Cursor}
    {body : List Node} (h : (blockBody again n).run c = .ok (body, c')) :
    c'.head.kind = .symbol .rightBrace := by
  induction n generalizing c body with
  | zero => cases h
  | succ n ih =>
    obtain ⟨t, d, hpeek, h⟩ := exists_of_run_bind h
    cases hpeek
    split at h
    · next hk =>
      cases h
      exact hk
    · cases h
    · obtain ⟨first, c₁, _, h⟩ := exists_of_run_bind h
      obtain ⟨rest, c₂, hrest, h⟩ := exists_of_run_bind h
      cases h
      exact ih hrest

end Parser

/-- Chains are read as a whole at the level. -/
def Level.Whole (level : Level) : Prop := level ≠ .unary ∧ level ≠ .primary

namespace Pairing

variable {P : Pairing} {α β : Type} {m : P.Mark} {c c' : Cursor}

/-! ## The judgement -/

/-- What two runs from a cursor come to: results that go together, with no more left to read, or
complaints that do. -/
inductive Ends (P : Pairing) (c : Cursor) (good : α → α → P.Mark → Prop) :
    Except ParseError (α × Cursor) → Except ParseError (α × Cursor) → Prop where
  | ok {a a' : α} {m : P.Mark} {d d' : Cursor} : good a a' m → P.cursor m d d' →
      d.unread ≤ c.unread → Ends P c good (.ok (a, d)) (.ok (a', d'))
  | error {e e' : ParseError} : P.error e e' → Ends P c good (.error e) (.error e')
  | loose_left {e : ParseError} {r : Except ParseError (α × Cursor)} : P.loose →
      Ends P c good (.error e) r
  | loose_right {e : ParseError} {r : Except ParseError (α × Cursor)} : P.loose →
      Ends P c good r (.error e)

theorem Ends.of_le {d : Cursor} {good : α → α → P.Mark → Prop}
    {r r' : Except ParseError (α × Cursor)} (h : P.Ends d good r r') (hle : d.unread ≤ c.unread) :
    P.Ends c good r r' := by
  cases h with
  | ok ha hd hle' => exact .ok ha hd (Nat.le_trans hle' hle)
  | error he => exact .error he
  | loose_left hloose => exact .loose_left hloose
  | loose_right hloose => exact .loose_right hloose

/-- From cursors that go together two parsers come to ends that do. -/
def Walks (P : Pairing) (m : P.Mark) (c c' : Cursor) (p p' : Parser α)
    (good : α → α → P.Mark → Prop) : Prop :=
  P.cursor m c c' → P.Ends c good (p.run c) (p'.run c')

namespace Walks

variable {p p' : Parser α} {good : α → α → P.Mark → Prop} {good' : β → β → P.Mark → Prop}

theorem pure {a a' : α} (h : good a a' m) : P.Walks m c c' (pure a) (pure a') good :=
  fun hc => .ok h hc (Nat.le_refl _)

theorem fails {e e' : ParseError} (h : P.error e e') (hp : p.run c = .error e)
    (hp' : p'.run c' = .error e') : P.Walks m c c' p p' good := by
  intro _
  rw [hp, hp']
  exact .error h

theorem imp {other : α → α → P.Mark → Prop} (h : P.Walks m c c' p p' good)
    (himp : ∀ a a' m, good a a' m → other a a' m) : P.Walks m c c' p p' other := by
  intro hc
  have hends := h hc
  generalize p.run c = r at hends
  generalize p'.run c' = r' at hends
  cases hends with
  | ok ha hd hle => exact .ok (himp _ _ _ ha) hd hle
  | error he => exact .error he
  | loose_left hloose => exact .loose_left hloose
  | loose_right hloose => exact .loose_right hloose

theorem of_both {a a' : α} {d d' : Cursor} (h : P.Walks m c c' p p' good) (hc : P.cursor m c c')
    (hrun : p.run c = .ok (a, d)) (hrun' : p'.run c' = .ok (a', d')) :
    ∃ m₁, good a a' m₁ ∧ P.cursor m₁ d d' ∧ d.unread ≤ c.unread := by
  have hends := h hc
  rw [hrun, hrun'] at hends
  cases hends with
  | ok ha hd hle => exact ⟨_, ha, hd, hle⟩

theorem of_errors {e e' : ParseError} (h : P.Walks m c c' p p' good) (hstrict : ¬P.loose)
    (hc : P.cursor m c c') (hrun : p.run c = .error e) (hrun' : p'.run c' = .error e') :
    P.error e e' := by
  have hends := h hc
  rw [hrun, hrun'] at hends
  cases hends with
  | error he => exact he
  | loose_left hloose | loose_right hloose => exact absurd hloose hstrict

theorem bind_of_run {f f' : α → Parser β} (h : P.Walks m c c' p p' good)
    (hf : ∀ {m₁ d d'} a a', good a a' m₁ → d.unread ≤ c.unread → p.run c = .ok (a, d) →
      P.Walks m₁ d d' (f a) (f' a') good') : P.Walks m c c' (p >>= f) (p' >>= f') good' := by
  intro hc
  have hends := h hc
  show P.Ends c good' (p.run c >>= fun r => (f r.1).run r.2)
    (p'.run c' >>= fun r => (f' r.1).run r.2)
  generalize hrun : p.run c = r at hends
  generalize p'.run c' = r' at hends
  cases hends with
  | @ok a a' m₁ d d' ha hd hle =>
    have hrest := hf a a' ha hle hrun hd
    exact hrest.of_le hle
  | error he => exact .error he
  | loose_left hloose => exact .loose_left hloose
  | loose_right hloose => exact .loose_right hloose

theorem bind {f f' : α → Parser β} (h : P.Walks m c c' p p' good)
    (hf : ∀ {m₁ d d'} a a', good a a' m₁ → d.unread ≤ c.unread →
      P.Walks m₁ d d' (f a) (f' a') good') : P.Walks m c c' (p >>= f) (p' >>= f') good' :=
  h.bind_of_run fun a a' ha hle _ => hf a a' ha hle

theorem map {f f' : α → β} (h : P.Walks m c c' p p' good)
    (hf : ∀ a a' m, good a a' m → good' (f a) (f' a') m) :
    P.Walks m c c' (f <$> p) (f' <$> p') good' := by
  rw [map_eq_pure_bind, map_eq_pure_bind]
  exact h.bind fun a a' ha _ => pure (hf a a' _ ha)

theorem some (h : P.Walks m c c' p p' good) :
    P.Walks m c c' (some <$> p) (some <$> p') fun x x' m₁ =>
      ∃ a a', x = Option.some a ∧ x' = Option.some a' ∧ good a a' m₁ :=
  h.map fun a a' _ ha => ⟨a, a', rfl, rfl, ha⟩

/-- A result that is checked before it is given back. -/
theorem checked {a a' : α} {faulty faulty' : Bool} {e e' : ParseError} (hsame : faulty = faulty')
    (herror : P.error e e') (hgood : faulty = false → good a a' m) :
    P.Walks m c c'
      (do
        if faulty then throw e
        return a)
      (do
        if faulty' then throw e'
        return a') good := by
  subst hsame
  cases faulty with
  | false => exact pure (hgood rfl)
  | true => exact fails herror rfl rfl

theorem discard_bind {f f' : PUnit → Parser β}
    (h : P.Walks m c c' (p >>= fun _ => f ⟨⟩) (p' >>= fun _ => f' ⟨⟩) good') :
    P.Walks m c c' (discard p >>= f) (discard p' >>= f') good' := by
  simp only [Functor.discard, map_const, Function.comp, Function.const, map_eq_pure_bind,
    bind_assoc, pure_bind]
  exact h

/-! ## Steps -/

section Steps

theorem get_bind {f f' : Cursor → Parser β} (h : P.Walks m c c' (f c) (f' c') good') :
    P.Walks m c c' (get >>= f) (get >>= f') good' :=
  h

variable (hP : P.Lawful)

include hP

theorem peek_bind {f f' : Token → Parser β}
    (h : ∀ {k s s'}, c.head = ⟨k, s⟩ → c'.head = ⟨k, s'⟩ →
      P.Walks m c c' (f ⟨k, s⟩) (f' ⟨k, s'⟩) good') :
    P.Walks m c c' (peek >>= f) (peek >>= f') good' := by
  intro hc
  show P.Ends c good' ((f c.head).run c) ((f' c'.head).run c')
  have hhead : c'.head = ⟨c.head.kind, c'.head.span⟩ := by rw [← hP.head_kind hc]
  rw [hhead]
  exact h rfl hhead hc

theorem check_bind {k : TokenKind} {f f' : Bool → Parser β}
    (h : ∀ found, (c.head.kind == k) = found → P.Walks m c c' (f found) (f' found) good') :
    P.Walks m c c' (check k >>= f) (check k >>= f') good' := by
  intro hc
  show P.Ends c good' ((f (c.head.kind == k)).run c) ((f' (c'.head.kind == k)).run c')
  rw [hP.head_kind hc]
  exact h _ rfl hc

theorem remaining_bind {f f' : Nat → Parser β}
    (h : ∀ n, P.Walks m c c' (f n) (f' n) good') :
    P.Walks m c c' (remaining >>= f) (remaining >>= f') good' := by
  intro hc
  show P.Ends c good' ((f c.rest.length).run c) ((f' c'.rest.length).run c')
  rw [hP.length_eq hc]
  exact h _ hc

/-- A token that is not the end of input is taken. -/
theorem advance_bind {f f' : Token → Parser β} {k : TokenKind} {s s' : Span}
    (hs : c.head = ⟨k, s⟩) (hs' : c'.head = ⟨k, s'⟩) (hk : k ≠ .eof)
    (h : ∀ {m₁ d d'}, P.token k m s s' m₁ → d.unread < c.unread →
      P.Walks m₁ d d' (f ⟨k, s⟩) (f' ⟨k, s'⟩) good') :
    P.Walks m c c' (advance >>= f) (advance >>= f') good' := by
  intro hc
  have hne : c.head.kind ≠ .eof := by rwa [hs]
  obtain ⟨m₁, htoken, hd⟩ := hP.advance hc hne
  have hlt := Cursor.unread_tail hne
  rw [hs, hs'] at htoken
  have hends := h htoken hlt hd
  show P.Ends c good' ((f c.head).run _) ((f' c'.head).run _)
  rw [hs, hs']
  exact hends.of_le (Nat.le_of_lt hlt)

theorem accept_bind {k : TokenKind} (hk : k ≠ .eof) {f f' : Bool → Parser β}
    (htrue : ∀ {m₁ d d'}, P.token k m c.head.span c'.head.span m₁ → d.unread < c.unread →
      P.Walks m₁ d d' (f true) (f' true) good')
    (hfalse : P.Walks m c c' (f false) (f' false) good') :
    P.Walks m c c' (accept k >>= f) (accept k >>= f') good' := by
  intro hc
  have hkind := hP.head_kind hc
  by_cases hhead : c.head.kind = k
  · have hs : c.head = ⟨k, c.head.span⟩ := by rw [← hhead]
    have hs' : c'.head = ⟨k, c'.head.span⟩ := by rw [← hhead, ← hkind]
    have htaken : P.Walks m c c' (advance >>= fun _ => f true) (advance >>= fun _ => f' true)
        good' :=
      advance_bind hP hs hs' hk htrue
    have hends := htaken hc
    rw [run_bind_ok (run_accept_true (beq_iff_eq.mpr hhead)),
      run_bind_ok (run_accept_true (beq_iff_eq.mpr (hkind.trans hhead)))]
    exact hends
  · rw [run_bind_ok (run_accept_false (beq_false_of_ne hhead)),
      run_bind_ok (run_accept_false (beq_false_of_ne (hkind ▸ hhead)))]
    exact hfalse hc

theorem accept {k : TokenKind} (hk : k ≠ .eof) :
    P.Walks m c c' (accept k) (accept k) fun found found' _ => found = found' := by
  rw [← bind_pure (Parser.accept k)]
  exact accept_bind hP hk (fun _ _ => pure rfl) (pure rfl)

/-- A token is taken, whatever it is.  What follows complains if there is none. -/
theorem advance_bind_or {f f' : Token → Parser β} (expected : Expectation)
    (hend : ∀ s d, (f ⟨.eof, s⟩).run d = .error ⟨.unexpectedToken expected .eof, s⟩)
    (hend' : ∀ s d, (f' ⟨.eof, s⟩).run d = .error ⟨.unexpectedToken expected .eof, s⟩)
    (h : ∀ {k s s' m₁ d d'}, c.head = ⟨k, s⟩ → c'.head = ⟨k, s'⟩ → P.token k m s s' m₁ →
      d.unread < c.unread →
      P.error ⟨.unexpectedToken expected k, s⟩ ⟨.unexpectedToken expected k, s'⟩ →
      P.Walks m₁ d d' (f ⟨k, s⟩) (f' ⟨k, s'⟩) good') :
    P.Walks m c c' (advance >>= f) (advance >>= f') good' := by
  intro hc
  have herror := hP.unexpected expected hc
  have hkind := hP.head_kind hc
  generalize hs : c.head = t at herror hkind
  generalize hs' : c'.head = t' at herror hkind
  obtain ⟨k, s⟩ := t
  obtain ⟨k', s'⟩ := t'
  obtain rfl : k' = k := hkind
  by_cases hk : k' = .eof
  · subst hk
    refine fails herror ?_ ?_ hc
    · show (f c.head).run _ = _
      rw [hs, hend]
    · show (f' c'.head).run _ = _
      rw [hs', hend']
  · exact advance_bind hP hs hs' hk (fun htoken hlt => h hs hs' htoken hlt herror) hc

theorem expect_bind {s : Symbol} {f f' : Span → Parser β}
    (h : ∀ {u u' m₁ d d'}, P.token (.symbol s) m u u' m₁ → d.unread < c.unread →
      P.Walks m₁ d d' (f u) (f' u') good') :
    P.Walks m c c' (expect s >>= f) (expect s >>= f') good' := by
  rw [expect, bind_assoc, bind_assoc]
  refine advance_bind_or hP (.symbol s) (fun _ _ => rfl) (fun _ _ => rfl) ?_
  intro k u u' m₁ d d' _ _ htoken hlt herror
  by_cases hk : k = .symbol s
  · subst hk
    rw [beq_self_eq_true]
    exact h htoken hlt
  · rw [beq_false_of_ne hk]
    exact fails herror rfl rfl

theorem expectName_bind {expected : Expectation} {f f' : String × Span → Parser β}
    (h : ∀ {name u u' m₁ d d'}, P.token (.identifier name) m u u' m₁ → d.unread < c.unread →
      P.Walks m₁ d d' (f (name, u)) (f' (name, u')) good') :
    P.Walks m c c' (expectName expected >>= f) (expectName expected >>= f') good' := by
  rw [expectName, bind_assoc, bind_assoc]
  refine advance_bind_or hP expected (fun _ _ => rfl) (fun _ _ => rfl) ?_
  intro k u u' m₁ d d' _ _ htoken hlt herror
  cases k with
  | identifier name => exact h htoken hlt
  | _ => exact fails herror rfl rfl

theorem drop_bind {k k' : TokenKind} {kinds : List TokenKind} {q q' : Parser β}
    (hkinds : c.rest.map Token.kind = k :: k' :: kinds) (hk : k ≠ .eof) (hk' : k' ≠ .eof)
    (h : ∀ {m₁ d d'}, P.Skips [k, k'] m m₁ → d.unread < c.unread → P.Walks m₁ d d' q q' good') :
    P.Walks m c c' (set { c with rest := c.rest.drop 2 } >>= fun _ => q)
      (set { c' with rest := c'.rest.drop 2 } >>= fun _ => q') good' := by
  intro hc
  have hkinds' := (hP.kinds hc).symm.trans hkinds
  obtain ⟨rest, finish, imported⟩ := c
  obtain ⟨rest', finish', imported'⟩ := c'
  obtain ⟨s, rest, rfl, hmore⟩ := exists_of_map_kind hkinds
  obtain ⟨u, rest, rfl, -⟩ := exists_of_map_kind hmore
  obtain ⟨s', rest', rfl, hmore'⟩ := exists_of_map_kind hkinds'
  obtain ⟨u', rest', rfl, -⟩ := exists_of_map_kind hmore'
  obtain ⟨m₁, hfirst, hd⟩ := hP.advance hc hk
  obtain ⟨m₂, hsecond, he⟩ := hP.advance hd hk'
  have hlt := Nat.lt_trans (Cursor.unread_tail (c := ⟨⟨k', u⟩ :: rest, finish, imported⟩) hk')
    (Cursor.unread_tail (c := ⟨⟨k, s⟩ :: ⟨k', u⟩ :: rest, finish, imported⟩) hk)
  exact (h (.cons hfirst (.cons hsecond .nil)) hlt he).of_le (Nat.le_of_lt hlt)

end Steps

end Walks

open Walks

/-- Two parsers of a level walk side by side where no more than `n` tokens are left. -/
def WalkAt (P : Pairing) (n : Nat) (level : Level) (p p' : Parser Node) : Prop :=
  ∀ ⦃m c c'⦄, c.unread ≤ n → P.Walks m c c' p p' (P.expr level m)

/-- They do so where fewer are left. -/
def WalkBelow (P : Pairing) (n : Nat) (level : Level) (p p' : Parser Node) : Prop :=
  ∀ ⦃m c c'⦄, c.unread < n → P.Walks m c c' p p' (P.expr level m)

/-- Expressions walk side by side. -/
def WalkExpressions (P : Pairing) : Prop :=
  ∀ ⦃m c c'⦄, P.Walks m c c' expression expression (P.expr .assignment m)

/-- Two parsers of a statement walk side by side where fewer than `n` tokens are left. -/
def WalkStatements (P : Pairing) (n : Nat) (p p' : Parser (Option Node)) : Prop :=
  ∀ ⦃m c c'⦄, c.unread < n → P.Walks m c c' p p' (P.Found m c.head.span c'.head.span)

/-- Both sides know the same names. -/
def SameImports (P : Pairing) : Prop :=
  ∀ ⦃m c c'⦄, P.cursor m c c' → c.imported = c'.imported

/-- Operands of a level group to the left. -/
def Groups (P : Pairing) (level : Level) : Prop :=
  ∀ {op : BinaryOp} {m m₁ m₂ m' : P.Mark} {n n' u u' : Node}, op.level = level →
    P.expr level m n n' m₁ → P.Skips [.symbol op.symbol] m₁ m₂ →
    P.expr level.tighter m₂ u u' m' → P.expr level m (.ofBinary op n u) (.ofBinary op n' u') m'

namespace Lawful

variable (hP : P.Lawful) {n : Nat}

include hP

/-- Where there must be something else than what stands there both complain. -/
theorem walks_unexpected (expected : Expectation) {good : α → α → P.Mark → Prop} :
    P.Walks m c c' (do unexpected expected (← peek)) (do unexpected expected (← peek)) good :=
  fun hc => .error (hP.unexpected expected hc)

/-! ## Lists -/

section Lists

variable {item item' : List α → Parser α}
  {R : P.Mark → List α → List α → P.Mark → Prop} {start : P.Mark}

theorem walks_separatedRound (start : P.Mark) {before before' : List α}
    {next next' : List α → Parser (List α)}
    (hitem : P.Walks m c c' (item before) (item' before') fun a a' =>
      R start (before ++ [a]) (before' ++ [a']))
    (hnext : ∀ {m₁ d d'} l l', P.Pending R start l l' m₁ → d.unread < c.unread →
      P.Walks m₁ d d' (next l) (next' l') (R start)) :
    P.Walks m c c' (separatedRound item next before) (separatedRound item' next' before')
      (R start) := by
  refine hitem.bind fun a a' ha hle => ?_
  refine accept_bind hP (by decide) (fun htoken hlt => ?_) ?_
  · have hne : before ++ [a] ≠ [] := List.append_ne_nil_of_right_ne_nil _ (List.cons_ne_nil a [])
    exact hnext _ _ (.next hne ha (.single htoken)) (Nat.lt_of_lt_of_le hlt hle)
  · exact Walks.pure ha

theorem walks_separated
    (hitem : ∀ {m c c'} before before', P.Pending R start before before' m → c.unread < n →
      P.Walks m c c' (item before) (item' before') fun a a' =>
        R start (before ++ [a]) (before' ++ [a']))
    (rounds : Nat) {before before' : List α} (hbefore : P.Pending R start before before' m)
    (hc : c.unread < n) :
    P.Walks m c c' (separated item rounds before) (separated item' rounds before')
      (R start) := by
  induction rounds generalizing m c c' before before' with
  | zero => exact (hitem _ _ hbefore hc).bind fun a a' ha _ => .pure ha
  | succ rounds ih =>
    exact hP.walks_separatedRound start (hitem _ _ hbefore hc)
      fun l l' hl hlt => ih hl (Nat.lt_trans hlt hc)

theorem walks_parenthesised
    (hitem : ∀ {start m c c'} before before', P.Pending R start before before' m →
      c.unread < n → P.Walks m c c' (item before) (item' before') fun a a' =>
        R start (before ++ [a]) (before' ++ [a']))
    (hnil : ∀ m, R m [] [] m) (hc : c.unread ≤ n) :
    P.Walks m c c' (parenthesised item) (parenthesised item') (P.Enclosed R m) := by
  refine .discard_bind (.expect_bind hP fun {_ _ m₁ d d'} hopen hlt => ?_)
  have hclose : ∀ {m₂ e e'} l l', R m₁ l l' m₂ → P.Walks m₂ e e'
      (do let close ← expect .rightParen; return (l, close))
      (do let close ← expect .rightParen; return (l', close)) (P.Enclosed R m) :=
    fun l l' hl => .expect_bind hP fun hclose _ =>
      .pure ⟨_, _, .single hopen, hl, hclose⟩
  refine .check_bind hP fun found _ => ?_
  cases found with
  | true => exact hclose [] [] (hnil m₁)
  | false =>
    refine .remaining_bind hP fun rounds => ?_
    exact (hP.walks_separated hitem rounds .first (Nat.lt_of_lt_of_le hlt hc)).bind
      fun l l' hl _ => hclose l l' hl

end Lists

/-! ## Expressions -/

section Levels

variable {level : Level} {again again' : Level → Parser Node} {operand operand' : Parser Node}

theorem groups_of_isLeft (hleft : level.isLeft) : P.Groups level := by
  rintro op m m₁ m₂ m' n n' u u' rfl hn hop hu
  rw [← BinaryOp.leftLevel_of_isLeft hleft] at hn
  rw [← BinaryOp.rightLevel_of_isLeft hleft] at hu
  exact hP.binary hn hop hu

theorem walks_leftRound (hgroups : P.Groups level) {start : P.Mark} {sofar sofar' : Node}
    {next next' : Node → Parser Node}
    (hoperand : P.WalkBelow c.unread level.tighter operand operand')
    (hnext : ∀ {m₁ d d'} u u', P.expr level start u u' m₁ → d.unread < c.unread →
      P.Walks m₁ d d' (next u) (next' u') (P.expr level start))
    (hsofar : P.expr level start sofar sofar' m) :
    P.Walks m c c' (leftRound level operand next sofar) (leftRound level operand' next' sofar')
      (P.expr level start) := by
  refine .peek_bind hP fun {k s s'} hs hs' => ?_
  dsimp only
  cases hop : level.operator? k with
  | none => exact .pure hsofar
  | some op =>
    obtain ⟨hlevel, rfl⟩ := Level.operator?_eq_some hop
    refine .discard_bind (.advance_bind hP hs hs' nofun fun htoken hlt => ?_)
    refine (hoperand hlt).bind fun rhs rhs' hrhs hle => ?_
    exact hnext _ _ (hgroups hlevel hsofar (.single htoken) hrhs) (Nat.lt_of_le_of_lt hle hlt)

theorem walks_leftLevel (hleft : level.isLeft)
    (hoperand : P.WalkAt n level.tighter operand operand') :
    P.WalkAt n level (leftLevel level operand) (leftLevel level operand') := by
  intro m c c' hc
  have hrounds : ∀ rounds {m₁ d d'} sofar sofar', P.expr level m sofar sofar' m₁ → d.unread ≤ n →
      P.Walks m₁ d d' (leftRounds level operand rounds sofar)
        (leftRounds level operand' rounds sofar') (P.expr level m) := by
    intro rounds
    induction rounds with
    | zero => exact fun _ _ hsofar _ => .pure hsofar
    | succ rounds ih =>
      intro m₁ d d' sofar sofar' hsofar hd
      have hbelow : P.WalkBelow d.unread level.tighter operand operand' :=
        fun _ e _ he => hoperand (Nat.le_trans (Nat.le_of_lt he) hd)
      refine hP.walks_leftRound (hP.groups_of_isLeft hleft) hbelow (fun u u' hu hlt => ?_) hsofar
      exact ih u u' hu (Nat.le_trans (Nat.le_of_lt hlt) hd)
  refine (hoperand hc).bind fun first first' hfirst hle => .remaining_bind hP fun rounds => ?_
  exact hrounds rounds first first' (hP.tighten hfirst) (Nat.le_trans hle hc)

theorem any_isSome_label_of_pending {start : P.Mark} {before before' : List (Labelled Node)}
    (h : P.Pending P.args start before before' m) :
    before.any (·.label.isSome) = before'.any (·.label.isSome) := by
  cases h with
  | first => rfl
  | next _ hargs _ => exact hP.labelled hargs

theorem walks_argument (h : P.WalkBelow n .assignment (again .assignment) (again' .assignment))
    {start : P.Mark} (before before' : List (Labelled Node))
    (hbefore : P.Pending P.args start before before' m) (hc : c.unread < n) :
    P.Walks m c c' (argument again before) (argument again' before') fun a a' =>
      P.args start (before ++ [a]) (before' ++ [a']) := by
  have hvalue : ∀ {m₁ d d'} label, P.Label m label m₁ → d.unread < n →
      P.Walks m₁ d d' (argumentValue again before label) (argumentValue again' before' label)
        fun a a' => P.args start (before ++ [a]) (before' ++ [a']) := by
    intro m₁ d d' label hlabel hd
    refine (h hd).bind fun node node' hnode _ => ?_
    refine .checked ?_ (hP.argumentOrder hnode) fun hfine => ?_
    · rw [hP.any_isSome_label_of_pending hbefore]
    · exact hP.argument hbefore hlabel hnode hfine
  intro hcursor
  rw [argument_eq, argument_eq]
  refine Walks.get_bind ?_ hcursor
  rw [← hP.kinds hcursor]
  cases hahead : labelAhead? (c.rest.map Token.kind) with
  | none => exact hvalue none .none hc
  | some name =>
    obtain ⟨mark, more, hkinds⟩ := exists_of_labelAhead? hahead
    refine drop_bind hP hkinds nofun nofun fun hskips hlt => ?_
    exact hvalue (some name) (.some mark hskips) (Nat.lt_trans hlt hc)

theorem walks_arguments (h : P.WalkBelow n .assignment (again .assignment) (again' .assignment))
    (hc : c.unread ≤ n) :
    P.Walks m c c' (parenthesised (argument again)) (parenthesised (argument again'))
      (P.Enclosed P.args m) :=
  hP.walks_parenthesised (hP.walks_argument h) (fun _ => hP.args_nil) hc

theorem walks_callTo (h : P.WalkBelow n .assignment (again .assignment) (again' .assignment))
    {callee : Callee} {start : P.Mark} {s s' : Span} (hcalled : P.Called start callee s s' m)
    (hc : c.unread < n) :
    P.Walks m c c' (callTo again callee s) (callTo again' callee s') (P.expr .primary start) :=
  (hP.walks_arguments h (Nat.le_of_lt hc)).bind fun _ _ hx _ => .pure (hP.call hcalled hx)

/-- Both sides take the same names for those of plugins. -/
theorem walks_named (himports : P.SameImports)
    (h : P.WalkBelow n .assignment (again .assignment) (again' .assignment)) {name : String}
    {start : P.Mark} {s s' : Span} (hname : P.token (.identifier name) start s s' m)
    (hc : c.unread < n) :
    P.Walks m c c' (named again name s) (named again' name s') (P.expr .primary start) := by
  intro hcursor
  rw [named_eq, named_eq]
  refine Walks.get_bind ?_ hcursor
  have hsame : calleeAhead? c'.imported name (c'.rest.map Token.kind)
      = calleeAhead? c.imported name (c.rest.map Token.kind) := by
    rw [hP.kinds hcursor, himports hcursor]
  rw [hsame]
  cases hahead : calleeAhead? c.imported name (c.rest.map Token.kind) with
  | none => exact .pure (hP.leaf rfl hname)
  | some callee =>
    cases callee with
    | named function =>
      obtain rfl := eq_of_calleeAhead? hahead
      exact hP.walks_callTo h (.named hname) hc
    | plugin owner function =>
      obtain ⟨rfl, hknown, more, hkinds⟩ := exists_of_calleeAhead? hahead
      refine drop_bind hP hkinds nofun nofun fun hskips hlt => ?_
      exact hP.walks_callTo h (.plugin hname hcursor hknown hskips) (Nat.lt_trans hlt hc)

theorem walks_primary (himports : P.SameImports)
    (h : P.WalkBelow n .assignment (again .assignment) (again' .assignment)) :
    P.WalkAt n .primary (primary again) (primary again') := by
  intro m c c' hc hcursor
  refine advance_bind_or hP .expression (fun _ _ => rfl) (fun _ _ => rfl) ?_ hcursor
  intro k s s' m₁ d d' hs hs' htoken hlt herror
  dsimp only
  split
  · next digits =>
    split
    · next x hx => exact .pure (hP.leaf (by rw [TokenKind.leaf?, hx]; rfl) htoken)
    · next hx =>
      have hnumber := hP.invalidNumber hcursor (by rw [hs]) hx
      rw [hs, hs'] at hnumber
      exact .fails hnumber rfl rfl
  · exact .pure (hP.leaf rfl htoken)
  · exact .pure (hP.leaf rfl htoken)
  · exact .pure (hP.leaf rfl htoken)
  · exact hP.walks_named himports h htoken (Nat.lt_of_lt_of_le hlt hc)
  · refine (h (Nat.lt_of_lt_of_le hlt hc)).bind fun inner inner' hinner _ => ?_
    refine discard_bind (expect_bind hP fun hclose _ => ?_)
    exact .pure (hP.parens (.single htoken) hinner (.single hclose))
  · exact .fails herror rfl rfl

theorem walks_unary (himports : P.SameImports)
    (hinner : P.WalkBelow n .assignment (again .assignment) (again' .assignment))
    (h : P.WalkBelow n .unary (again .unary) (again' .unary)) :
    P.WalkAt n .unary (unary again) (unary again') := by
  intro m c c' hc
  refine .peek_bind hP fun {k s s'} hs hs' => ?_
  dsimp only
  cases hop : UnaryOp.ofToken? k with
  | none => exact (hP.walks_primary himports hinner hc).imp fun _ _ _ hn => hP.tighten hn
  | some op =>
    obtain rfl := UnaryOp.ofToken?_eq_some hop
    refine .advance_bind hP hs hs' nofun fun htoken hlt => ?_
    exact (h (Nat.lt_of_lt_of_le hlt hc)).bind fun operand operand' hoperand _ =>
      .pure (hP.unary htoken hoperand)

theorem walks_chain (hunary : P.WalkAt n .unary (unary again) (unary again'))
    (h : P.WalkBelow n .chain (again .chain) (again' .chain)) :
    P.WalkAt n .chain (chain again) (chain again') := by
  intro m c c' hc
  refine (hunary hc).bind fun value value' hvalue hle => ?_
  refine accept_bind hP (by decide) (fun hdot hlt => ?_) (.pure (hP.tighten hvalue))
  refine (h (by omega)).bind fun link link' hlink _ => ?_
  exact .pure (hP.chain hvalue (.single hdot) hlink)

theorem walks_power (hchain : P.WalkAt n .chain (chain again) (chain again'))
    (h : P.WalkBelow n .power (again .power) (again' .power)) :
    P.WalkAt n .power (power again) (power again') := by
  intro m c c' hc
  have hconcat : P.WalkAt n .concat (concat again) (concat again') :=
    hP.walks_leftLevel rfl hchain
  refine (hconcat hc).bind fun base base' hbase hle => .peek_bind hP fun {k s s'} hs hs' => ?_
  dsimp only
  cases hop : Level.power.operator? k with
  | none => exact .pure (hP.tighten hbase)
  | some op =>
    obtain ⟨hlevel, rfl⟩ := Level.operator?_eq_some hop
    refine .discard_bind (.advance_bind hP hs hs' nofun fun htoken hlt => ?_)
    refine (h (by omega)).bind fun exponent exponent' hexponent _ => .pure ?_
    rw [← hlevel]
    refine hP.binary ?_ (.single htoken) ?_
    · rwa [BinaryOp.leftLevel, if_pos hlevel]
    · rwa [BinaryOp.rightLevel, if_pos hlevel]

theorem walks_ternary
    (hdisjunction : P.WalkAt n .disjunction (disjunction again) (disjunction again'))
    (hyes : P.WalkBelow n .disjunction (again .disjunction) (again' .disjunction))
    (hno : P.WalkBelow n .ternary (again .ternary) (again' .ternary)) :
    P.WalkAt n .ternary (ternary again) (ternary again') := by
  intro m c c' hc
  refine (hdisjunction hc).bind fun condition condition' hcondition hle => ?_
  refine accept_bind hP (by decide) (fun hquestion hlt => ?_) (.pure (hP.tighten hcondition))
  refine (hyes (by omega)).bind fun yes yes' hyes hle' => ?_
  refine discard_bind (expect_bind hP fun hpipe hlt' => ?_)
  refine (hno (by omega)).bind fun no no' hno _ => ?_
  exact .pure (hP.ternary hcondition (.single hquestion) hyes (.single hpipe) hno)

theorem walks_assignment (hternary : P.WalkAt n .ternary (ternary again) (ternary again'))
    (h : P.WalkBelow n .assignment (again .assignment) (again' .assignment)) :
    P.WalkAt n .assignment (assignment again) (assignment again') := by
  intro m c c' hc
  refine (hternary hc).bind fun target target' htarget hle => ?_
  refine .peek_bind hP fun {k s s'} hs hs' => ?_
  dsimp only
  cases hop : AssignOp.ofToken? k with
  | none => exact .pure (hP.tighten htarget)
  | some op =>
    obtain rfl := AssignOp.ofToken?_eq_some hop
    refine .discard_bind (.advance_bind hP hs hs' nofun fun htoken hlt => ?_)
    exact (h (by omega)).bind fun value value' hvalue _ =>
      .pure (hP.assign htarget (.single htoken) hvalue)

/-- The levels from that of chains on, each of which reads a chain as a whole. -/
theorem walks_atLevel_of_chain (hchain : P.WalkAt n .chain (chain again) (chain again'))
    (h : ∀ level, level.Whole → P.WalkBelow n level (again level) (again' level)) {level : Level}
    (hlevel : level.Whole) : P.WalkAt n level (atLevel again level) (atLevel again' level) := by
  have hpower := hP.walks_power hchain (h .power ⟨nofun, nofun⟩)
  refine atLevel_stacked again again' (fun level p p' => level.Whole → P.WalkAt n level p p')
    (fun hprimary => absurd rfl hprimary.2) (fun hunary => absurd rfl hunary.1) (fun _ => hchain)
    (fun _ => hpower) (fun level p p' hleft hoperand _ => ?_) (fun hdisjunction _ => ?_)
    (fun hternary _ => ?_) level hlevel
  · refine hP.walks_leftLevel hleft (hoperand ?_)
    cases level <;> first | exact ⟨by decide, by decide⟩ | cases hleft
  · exact hP.walks_ternary (hdisjunction ⟨nofun, nofun⟩) (h .disjunction ⟨nofun, nofun⟩)
      (h .ternary ⟨nofun, nofun⟩)
  · exact hP.walks_assignment (hternary ⟨nofun, nofun⟩) (h .assignment ⟨nofun, nofun⟩)

theorem walks_atLevel (himports : P.SameImports)
    (h : ∀ level, P.WalkBelow n level (again level) (again' level)) (level : Level) :
    P.WalkAt n level (atLevel again level) (atLevel again' level) := by
  have hunary := hP.walks_unary himports (h .assignment) (h .unary)
  have hchain := hP.walks_chain hunary (h .chain)
  have hwhole : ∀ {level : Level}, level.Whole →
      P.WalkAt n level (atLevel again level) (atLevel again' level) :=
    hP.walks_atLevel_of_chain hchain fun level _ => h level
  cases level with
  | primary => exact hP.walks_primary himports (h .assignment)
  | unary => exact hunary
  | _ => exact hwhole ⟨nofun, nofun⟩

end Levels

theorem walks_expressionAt (himports : P.SameImports) (bound : Nat) (level : Level) :
    P.Walks m c c' (expressionAt bound level) (expressionAt bound level) (P.expr level m) := by
  induction bound generalizing m c c' level with
  | zero => exact hP.walks_unexpected .expression
  | succ bound ih =>
    exact hP.walks_atLevel himports (fun level _ _ _ _ => ih level) level (Nat.le_refl c.unread)

theorem walks_expression (himports : P.SameImports) :
    P.Walks m c c' expression expression (P.expr .assignment m) :=
  .remaining_bind hP fun bound => hP.walks_expressionAt himports bound .assignment

/-! ## Statements -/

theorem walks_paramBehind {start : P.Mark} {s s' : Span} {optional : Bool}
    (hparam : ∀ (kind : Surface.ParamKind) {name : String} {m₁ m₂ : P.Mark} {u u' : Span},
      P.token (.keyword kind.keyword) m c.head.span c'.head.span m₁ →
      P.token (.identifier name) m₁ u u' m₂ →
      P.param start ⟨name, kind.toValueKind, optional, s.merge u⟩
        ⟨name, kind.toValueKind, optional, s'.merge u'⟩ m₂) :
    P.Walks m c c' (paramBehind s optional) (paramBehind s' optional) (P.param start) := by
  refine .advance_bind_or hP .parameterType (fun _ _ => rfl) (fun _ _ => rfl) ?_
  intro k u u' m₁ d d' hu hu' htoken _ herror
  have hname : ∀ kind : Surface.ParamKind, k = .keyword kind.keyword → P.Walks m₁ d d'
      (do
        let (name, finish) ← expectName .parameterName
        return { name, kind := kind.toValueKind, optional, span := s.merge finish })
      (do
        let (name, finish) ← expectName .parameterName
        return { name, kind := kind.toValueKind, optional, span := s'.merge finish })
      (P.param start) := by
    rintro kind rfl
    refine .expectName_bind hP fun hname _ => .pure (hparam kind ?_ hname)
    rwa [hu, hu']
  dsimp only
  split
  · exact hname .number rfl
  · exact hname .boolean rfl
  · exact hname .string rfl
  · exact hname .clip rfl
  · exact .fails herror rfl rfl

theorem walks_param : P.Walks m c c' Parser.param Parser.param (P.param m) := by
  rw [param_eq]
  refine .peek_bind hP fun {k s s'} hs hs' => ?_
  refine accept_bind hP (by decide) (fun htoken _ => ?_) ?_
  · rw [hs, hs'] at htoken
    refine hP.walks_paramBehind fun kind _ _ _ _ _ hkind hname => ?_
    exact hP.opted htoken (.single hkind) hname
  · refine hP.walks_paramBehind fun kind _ _ _ _ _ hkind hname => ?_
    rw [hs, hs'] at hkind
    exact hP.mandatory hkind hname

theorem walks_paramOf {function : String} {start : P.Mark} (before before' : List Param)
    (hbefore : P.Pending P.params start before before' m) :
    P.Walks m c c' (paramOf function before) (paramOf function before') fun p p' =>
      P.params start (before ++ [p]) (before' ++ [p']) := by
  refine hP.walks_param.bind fun p p' hp _ => ?_
  refine .checked ?_ (hP.parameterOrder function hp) fun hfine => hP.declared hbefore hp hfine
  rw [hP.optional hp]
  cases hbefore with
  | first => rfl
  | next _ hparams _ => rw [hP.optionals hparams]

section Words

variable (hexpression : P.WalkExpressions) {s s' : Span}

include hexpression

theorem walks_defaultStatement (hs : c.head = ⟨.keyword .defaultKw, s⟩)
    (hs' : c'.head = ⟨.keyword .defaultKw, s'⟩) :
    P.Walks m c c' defaultStatement defaultStatement (P.stmt m) := by
  refine .advance_bind hP hs hs' nofun fun hword _ => ?_
  refine .discard_bind (.expect_bind hP fun hopen _ => ?_)
  refine .expectName_bind hP fun hname _ => ?_
  refine .discard_bind (.expect_bind hP fun hcomma _ => ?_)
  refine hexpression.bind fun value value' hvalue _ => ?_
  refine .discard_bind (.expect_bind hP fun hclose _ => ?_)
  refine .expect_bind hP fun hsemicolon _ => .pure ?_
  exact hP.defaultValue hword (.cons hopen (.cons hname (.single hcomma))) hvalue (.single hclose)
    hsemicolon

theorem walks_returnStatement (hs : c.head = ⟨.keyword .returnKw, s⟩)
    (hs' : c'.head = ⟨.keyword .returnKw, s'⟩) :
    P.Walks m c c' returnStatement returnStatement (P.stmt m) := by
  refine .advance_bind hP hs hs' nofun fun hword _ => .check_bind hP fun found _ => ?_
  cases found with
  | true => exact .expect_bind hP fun hsemicolon _ => .pure (hP.returnNothing hword hsemicolon)
  | false =>
    refine hexpression.some.bind fun _ _ hvalue _ => ?_
    obtain ⟨value, value', rfl, rfl, hvalue⟩ := hvalue
    exact .expect_bind hP fun hsemicolon _ => .pure (hP.returnValue hword hvalue hsemicolon)

omit hexpression in
theorem walks_importStatement (hs : c.head = ⟨.keyword .importKw, s⟩)
    (hs' : c'.head = ⟨.keyword .importKw, s'⟩) :
    P.Walks m c c' importStatement importStatement (P.stmt m) := by
  refine .advance_bind hP hs hs' nofun fun hword _ => ?_
  refine .expectName_bind hP fun hname _ => .expect_bind hP fun hsemicolon _ => ?_
  intro hc
  obtain ⟨m', hnode, hc'⟩ := hP.importName hword (.single hname) hsemicolon hc
  exact .ok hnode hc' (Nat.le_refl _)

end Words

section Nested

variable {again again' : Parser (Option Node)}

theorem walks_blockRound {next next' : Parser (List Node)}
    (h : P.Walks m c c' again again' (P.Found m c.head.span c'.head.span))
    (hnext : ∀ {m₁ d d'} first, d.unread ≤ c.unread → again.run c = .ok (first, d) →
      P.Walks m₁ d d' next next' (P.body m₁)) :
    P.Walks m c c' (blockRound again next) (blockRound again' next') (P.body m) := by
  intro hc
  have herror := hP.unexpected (.symbol .rightBrace) hc
  refine Walks.peek_bind hP (fun {k s s'} hs hs' => ?_) hc
  rw [hs, hs'] at herror
  dsimp only
  split
  · exact .pure hP.body_nil
  · exact .fails herror rfl rfl
  · refine h.bind_of_run fun first first' hfirst hle hrun => ?_
    exact (hnext first hle hrun).bind fun rest rest' hrest _ => .pure (hP.body_cons hfirst hrest)

theorem walks_blockBody (h : P.WalkStatements n again again') (rounds : Nat) (hc : c.unread < n) :
    P.Walks m c c' (blockBody again rounds) (blockBody again' rounds) (P.body m) := by
  induction rounds generalizing m c c' with
  | zero => exact hP.walks_unexpected _
  | succ rounds ih =>
    exact hP.walks_blockRound (h hc) fun _ hle _ => ih (Nat.lt_of_le_of_lt hle hc)

theorem walks_block (h : P.WalkStatements n again again') (hc : c.unread ≤ n) :
    P.Walks m c c' (Parser.block again) (Parser.block again') (P.block m) := by
  refine .expect_bind hP fun hopen hlt => .remaining_bind hP fun rounds => ?_
  refine (hP.walks_blockBody h rounds (Nat.lt_of_lt_of_le hlt hc)).bind_of_run
    fun {m₂ e e'} body body' hbody _ hrun hcursor => ?_
  have hbrace := head_of_run_blockBody hrun
  have hs : e.head = ⟨.symbol .rightBrace, e.head.span⟩ := by rw [← hbrace]
  have hs' : e'.head = ⟨.symbol .rightBrace, e'.head.span⟩ := by
    rw [← hbrace, ← hP.head_kind hcursor]
  refine Walks.advance_bind hP hs hs' nofun (fun hclose _ => .pure ?_) hcursor
  exact hP.sequence hopen hbody hclose

theorem walks_branch (h : P.WalkStatements n again again') (hc : c.unread < n) :
    P.Walks m c c' (Parser.branch again) (Parser.branch again') (P.branch m) := by
  refine .peek_bind hP fun {k s s'} hs hs' => ?_
  refine (h hc).bind fun found found' hfound _ => .pure ?_
  rw [hs, hs'] at hfound
  exact hP.branch hfound

theorem walks_ifStatement (hexpression : P.WalkExpressions) (h : P.WalkStatements n again again')
    {s s' : Span} (hs : c.head = ⟨.keyword .ifKw, s⟩) (hs' : c'.head = ⟨.keyword .ifKw, s'⟩)
    (hc : c.unread ≤ n) :
    P.Walks m c c' (ifStatement again) (ifStatement again') (P.stmt m) := by
  refine .advance_bind hP hs hs' nofun fun hword h₁ => ?_
  refine .discard_bind (.expect_bind hP fun hopen h₂ => ?_)
  refine hexpression.bind fun condition condition' hcondition h₃ => ?_
  refine .discard_bind (.expect_bind hP fun hclose h₄ => ?_)
  refine (hP.walks_branch h (by omega)).bind fun yes yes' hyes h₅ => ?_
  refine accept_bind hP (by decide) (fun helse h₆ => ?_) ?_
  · refine (hP.walks_branch h (by omega)).some.bind fun _ _ hno _ => .pure ?_
    obtain ⟨no, no', rfl, rfl, hno⟩ := hno
    exact hP.ifElse hword (.single hopen) hcondition (.single hclose) hyes (.single helse) hno
  · exact .pure (hP.ifThen hword (.single hopen) hcondition (.single hclose) hyes)

theorem walks_functionStatement (h : P.WalkStatements n again again') {s s' : Span}
    (hs : c.head = ⟨.keyword .functionKw, s⟩) (hs' : c'.head = ⟨.keyword .functionKw, s'⟩)
    (hc : c.unread ≤ n) :
    P.Walks m c c' (functionStatement again) (functionStatement again') (P.stmt m) := by
  refine .advance_bind hP hs hs' nofun fun hword h₁ => ?_
  refine .expectName_bind hP fun hname h₂ => ?_
  refine (hP.walks_parenthesised (fun l l' hl _ => hP.walks_paramOf l l' hl)
    (fun _ => hP.params_nil) (Nat.le_refl _)).bind fun x x' hx h₃ => ?_
  refine (hP.walks_block h (by omega)).bind fun body body' hbody _ => .pure ?_
  exact hP.functionDef hword (.single hname) hx hbody

theorem walks_statementWith (hexpression : P.WalkExpressions)
    (h : P.WalkStatements n again again') (hc : c.unread ≤ n) :
    P.Walks m c c' (statementWith again) (statementWith again')
      (P.Found m c.head.span c'.head.span) := by
  have hsome : ∀ {p p' : Parser Node}, P.Walks m c c' p p' (P.stmt m) →
      P.Walks m c c' (some <$> p) (some <$> p') (P.Found m c.head.span c'.head.span) :=
    fun hp => hp.map fun _ _ _ hn => .node hn
  refine .peek_bind hP fun {k s s'} hs hs' => ?_
  dsimp only
  split
  · refine .discard_bind (.advance_bind hP hs hs' nofun fun htoken _ => .pure ?_)
    rw [hs, hs']
    exact .empty htoken
  · exact hsome ((hP.walks_block h hc).imp fun _ _ _ hn => hP.block hn)
  · exact hsome (hP.walks_ifStatement hexpression h hs hs' hc)
  · exact hsome (hP.walks_functionStatement h hs hs' hc)
  · exact hsome (hP.walks_defaultStatement hexpression hs hs')
  · exact hsome (hP.walks_returnStatement hexpression hs hs')
  · exact hsome (hP.walks_importStatement hs hs')
  · refine hexpression.bind fun value value' hvalue _ => ?_
    refine .discard_bind (.expect_bind hP fun hsemicolon _ => .pure ?_)
    exact .node (hP.expression hvalue (.single hsemicolon))

end Nested

section Scripts

variable (hexpression : P.WalkExpressions)

include hexpression

theorem walks_statementAt (bound : Nat) :
    P.Walks m c c' (statementAt bound) (statementAt bound)
      (P.Found m c.head.span c'.head.span) := by
  induction bound generalizing m c c' with
  | zero => exact hP.walks_unexpected .expression
  | succ bound ih =>
    exact hP.walks_statementWith hexpression (fun _ _ _ _ => ih) (Nat.le_refl c.unread)

theorem walks_statement :
    P.Walks m c c' statement statement (P.Found m c.head.span c'.head.span) :=
  .remaining_bind hP (hP.walks_statementAt hexpression)

theorem walks_scriptRound {next next' : Parser (List Node)}
    (hnext : ∀ {m₁ d d'} first, d.unread ≤ c.unread → statement.run c = .ok (first, d) →
      P.Walks m₁ d d' next next' (P.body m₁)) :
    P.Walks m c c' (scriptRound next) (scriptRound next') (P.body m) := by
  refine .check_bind hP fun found _ => ?_
  cases found with
  | true => exact .pure hP.body_nil
  | false =>
    refine (hP.walks_statement hexpression).bind_of_run fun first first' hfirst hle hrun => ?_
    exact (hnext first hle hrun).bind fun rest rest' hrest _ => .pure (hP.body_cons hfirst hrest)

theorem walks_statements (rounds : Nat) :
    P.Walks m c c' (statements rounds) (statements rounds) (P.body m) := by
  induction rounds generalizing m c c' with
  | zero => exact .pure hP.body_nil
  | succ rounds ih => exact hP.walks_scriptRound hexpression fun _ _ _ => ih

/-- The statements of scripts go together. -/
theorem walks_program : P.Walks m c c' program program fun p p' m' =>
    P.body m p.statements p'.statements m' :=
  .peek_bind hP fun _ _ => .remaining_bind hP fun n =>
    (hP.walks_statements hexpression n).bind fun _ _ hbody _ => .pure hbody

end Scripts

end Lawful

end Pairing
end ClipScript
