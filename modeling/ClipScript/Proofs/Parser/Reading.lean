/-
What a parser reads.

`Reads` says of a parser that it takes tokens of given kinds off its input and succeeds, whatever
their places are and whatever comes after them, as long as the next token is one it stops at.  The
rules below follow the steps that parsers are made of, so that a statement about a grammar rule is
put together as the rule is.

Looking ahead is the one thing that makes the token after the last one matter.  `Reads.bind` asks
for it where two steps meet: the second step starts with its own first token, or with the token
that comes after both if it reads nothing.
-/
import ClipScript.Parser.Statement

namespace ClipScript

/-- The next token is the first of some tokens, or what comes after them. -/
theorem Cursor.head_append_kind (ts rest : List Token) (finish : Span) (i j : List String) :
    (Cursor.mk (ts ++ rest) finish i).head.kind
      = (ts.map Token.kind).headD (Cursor.mk rest finish j).head.kind := by
  cases ts <;> rfl

namespace Parser

variable {α β : Type}

/-- The parser reads tokens of these kinds and gives a good result, if it stops at what comes next.
Afterwards `after` is known to be imported instead of `before`. -/
def Reads (before after : List String) (p : Parser α) (kinds : List TokenKind)
    (stop : TokenKind → Prop) (good : α → Prop) : Prop :=
  ∀ (ts rest : List Token) (finish : Span), ts.map Token.kind = kinds →
    stop (Cursor.mk rest finish after).head.kind →
    ∃ a, p.run ⟨ts ++ rest, finish, before⟩ = .ok (a, ⟨rest, finish, after⟩) ∧ good a

def paren (kinds : List TokenKind) : List TokenKind :=
  .symbol .leftParen :: kinds ++ [.symbol .rightParen]

def commas (items : List (List TokenKind)) : List TokenKind :=
  [TokenKind.symbol .comma].intercalate items

def anything : TokenKind → Prop := fun _ => True

theorem run_get (c : Cursor) : (get : Parser Cursor).run c = .ok (c, c) := rfl

theorem run_peek (c : Cursor) : peek.run c = .ok (c.head, c) := rfl

theorem run_set (c d : Cursor) : (set d : Parser Unit).run c = .ok ((), d) := rfl

theorem run_bind_ok {p : Parser α} {c c' : Cursor} {a : α} (h : p.run c = .ok (a, c'))
    (f : α → Parser β) : (p >>= f).run c = (f a).run c' := by
  show (do let (a, c') ← p.run c; (f a).run c') = _
  rw [h]
  rfl

theorem run_map_ok {p : Parser α} {c c' : Cursor} {a : α} (h : p.run c = .ok (a, c'))
    (f : α → β) : (f <$> p).run c = .ok (f a, c') := by
  show (do let (a, c') ← p.run c; pure (f a, c')) = _
  rw [h]
  rfl

theorem run_accept_true {k : TokenKind} {c : Cursor} (h : (c.head.kind == k) = true) :
    (accept k).run c = .ok (true, { c with rest := c.rest.tail }) := by
  show (if c.head.kind == k then _ else _ : Parser Bool).run c = _
  rw [h]
  rfl

theorem run_accept_false {k : TokenKind} {c : Cursor} (h : (c.head.kind == k) = false) :
    (accept k).run c = .ok (false, c) := by
  show (if c.head.kind == k then _ else _ : Parser Bool).run c = _
  rw [h]
  rfl

namespace Reads

variable {before middle after : List String} {p : Parser α} {kinds first second : List TokenKind}
  {stop stop' : TokenKind → Prop} {good good' : α → Prop}

theorem imp (h : Reads before after p kinds stop good) (hstop : ∀ k, stop' k → stop k)
    (hgood : ∀ a, good a → good' a) : Reads before after p kinds stop' good' := by
  intro ts rest finish hts hnext
  obtain ⟨a, hrun, ha⟩ := h ts rest finish hts (hstop _ hnext)
  exact ⟨a, hrun, hgood a ha⟩

theorem stopping (h : Reads before after p kinds stop good) (hstop : ∀ k, stop' k → stop k) :
    Reads before after p kinds stop' good :=
  h.imp hstop fun _ ha => ha

theorem pure {a : α} (ha : good a) : Reads before before (pure a) [] stop good := by
  intro ts rest finish hts _
  rw [List.map_eq_nil_iff] at hts
  subst hts
  exact ⟨a, rfl, ha⟩

theorem pure_bind {a : α} {f : α → Parser β} {good' : β → Prop}
    (h : Reads before after (f a) kinds stop good') :
    Reads before after (Pure.pure a >>= f) kinds stop good' :=
  h

/-- One step after the other.  The first one stops where the second one begins. -/
theorem bind {f : α → Parser β} {good' : β → Prop}
    (hp : Reads before middle p first stop good)
    (hf : ∀ a, good a → Reads middle after (f a) second stop' good')
    (hmeet : ∀ k, stop' k → stop (second.headD k)) :
    Reads before after (p >>= f) (first ++ second) stop' good' := by
  intro ts rest finish hts hnext
  obtain ⟨ts₁, ts₂, rfl, rfl, rfl⟩ := List.map_eq_append_iff.mp hts
  have hstop : stop (Cursor.mk (ts₂ ++ rest) finish middle).head.kind := by
    rw [Cursor.head_append_kind ts₂ rest finish middle after]
    exact hmeet _ hnext
  obtain ⟨a, hrun, ha⟩ := hp ts₁ (ts₂ ++ rest) finish rfl hstop
  obtain ⟨b, hrun', hb⟩ := hf a ha ts₂ rest finish rfl hnext
  refine ⟨b, ?_, hb⟩
  rw [List.append_assoc, run_bind_ok hrun]
  exact hrun'

theorem cons {k : TokenKind} {f : α → Parser β} {good' : β → Prop}
    (hp : Reads before middle p [k] anything good)
    (hf : ∀ a, good a → Reads middle after (f a) second stop' good') :
    Reads before after (p >>= f) (k :: second) stop' good' :=
  bind hp hf fun _ _ => trivial

theorem look {f : α → Parser β} {good' : β → Prop} (hp : Reads before middle p [] stop good)
    (hf : ∀ a, good a → Reads middle after (f a) second stop' good')
    (hmeet : ∀ k, stop' k → stop (second.headD k)) :
    Reads before after (p >>= f) second stop' good' :=
  bind hp hf hmeet

theorem finish {f : α → Parser β} {good' : β → Prop} (hp : Reads before middle p kinds stop good)
    (hf : ∀ a, good a → Reads middle after (f a) [] stop' good')
    (hmeet : ∀ k, stop' k → stop k) : Reads before after (p >>= f) kinds stop' good' := by
  rw [← List.append_nil kinds]
  exact bind hp hf hmeet

theorem map {f : α → β} {good' : β → Prop} (h : Reads before after p kinds stop good)
    (hf : ∀ a, good a → good' (f a)) : Reads before after (f <$> p) kinds stop good' := by
  intro ts rest finish hts hnext
  obtain ⟨a, hrun, ha⟩ := h ts rest finish hts hnext
  exact ⟨f a, run_map_ok hrun f, hf a ha⟩

theorem discard (h : Reads before after p kinds stop good) :
    Reads before after (discard p) kinds stop fun _ => True :=
  h.map fun _ _ => trivial

theorem advance (k : TokenKind) :
    Reads before before advance [k] anything fun t => t.kind = k := by
  intro ts rest finish hts _
  obtain ⟨t, ts', rfl, hk, hts'⟩ := List.map_eq_cons_iff.mp hts
  rw [List.map_eq_nil_iff] at hts'
  subst hts'
  exact ⟨t, rfl, hk⟩

/-- A step that looks at the next token knows what it is. -/
theorem peek_bind {f : Token → Parser β} {good' : β → Prop}
    (h : ∀ t : Token, (∃ k, stop k ∧ t.kind = kinds.headD k) →
      Reads before after (f t) kinds stop good') :
    Reads before after (peek >>= f) kinds stop good' := by
  intro ts rest finish hts hnext
  have hkind : (Cursor.mk (ts ++ rest) finish before).head.kind
      = kinds.headD (Cursor.mk rest finish after).head.kind := by
    rw [Cursor.head_append_kind ts rest finish before after, hts]
  exact h _ ⟨_, hnext, hkind⟩ ts rest finish hts hnext

theorem peek_bind_cons {k : TokenKind} {f : Token → Parser β} {good' : β → Prop}
    (h : ∀ t : Token, t.kind = k → Reads before after (f t) (k :: kinds) stop good') :
    Reads before after (peek >>= f) (k :: kinds) stop good' := by
  refine peek_bind fun t ht => ?_
  obtain ⟨_, _, hk⟩ := ht
  exact h t hk

theorem peek_bind_nil {f : Token → Parser β} {good' : β → Prop}
    (h : ∀ t : Token, stop t.kind → Reads before after (f t) [] stop good') :
    Reads before after (peek >>= f) [] stop good' := by
  refine peek_bind fun t ht => ?_
  obtain ⟨k, hk, rfl⟩ := ht
  exact h t hk

/-- A step that counts the tokens left finds at least those it is going to read. -/
theorem remaining_bind {f : Nat → Parser β} {good' : β → Prop}
    (h : ∀ n, kinds.length ≤ n → Reads before after (f n) kinds stop good') :
    Reads before after (remaining >>= f) kinds stop good' := by
  intro ts rest finish hts hnext
  have hlength : kinds.length ≤ (ts ++ rest).length := by
    rw [← hts, List.length_map, List.length_append]
    omega
  exact h _ hlength ts rest finish hts hnext

theorem check_true (k : TokenKind) :
    Reads before before (check k) [] (fun next => next = k) fun b => b = true := by
  refine peek_bind_nil fun t ht => pure ?_
  rw [ht, beq_self_eq_true]

theorem check_false (k : TokenKind) :
    Reads before before (check k) [] (fun next => next ≠ k) fun b => b = false :=
  peek_bind_nil fun _ ht => pure (beq_false_of_ne ht)

theorem accept_true (k : TokenKind) :
    Reads before before (accept k) [k] anything fun b => b = true := by
  refine look (check_true k) (fun b hb => ?_) fun _ _ => rfl
  subst hb
  exact cons (advance k).discard fun _ _ => pure rfl

theorem accept_false (k : TokenKind) :
    Reads before before (accept k) [] (fun next => next ≠ k) fun b => b = false := by
  refine look (check_false k) (fun b hb => ?_) fun _ h => h
  subst hb
  exact pure rfl

theorem expect (s : Symbol) :
    Reads before before (expect s) [.symbol s] anything fun _ => True := by
  refine cons (advance (.symbol s)) fun t ht => ?_
  rw [ht, beq_self_eq_true]
  exact pure trivial

theorem expectName (expected : Expectation) (name : String) :
    Reads before before (expectName expected) [.identifier name] anything
      fun found => found.1 = name := by
  refine cons (advance (.identifier name)) fun t ht => ?_
  rw [ht]
  exact pure rfl

theorem commas_cons_cons (x y : List TokenKind) (rest : List (List TokenKind)) :
    commas (x :: y :: rest) = x ++ .symbol .comma :: commas (y :: rest) := by
  simp [commas, List.intercalate]

theorem commas_singleton (x : List TokenKind) : commas [x] = x := by
  simp [commas, List.intercalate]

theorem commas_cons (x : List TokenKind) (rest : List (List TokenKind)) :
    ∃ more, commas (x :: rest) = x ++ more := by
  cases rest with
  | nil => exact ⟨[], by rw [commas_singleton, List.append_nil]⟩
  | cons y rest => exact ⟨_, commas_cons_cons x y rest⟩

theorem length_le_commas {x : List TokenKind} {items : List (List TokenKind)} (h : x ∈ items) :
    x.length ≤ (commas items).length := by
  induction items with
  | nil => cases h
  | cons y rest ih =>
    cases rest with
    | nil =>
      obtain rfl := List.mem_singleton.mp h
      exact Nat.le_of_eq (by rw [commas_singleton])
    | cons z rest =>
      rw [commas_cons_cons, List.length_append, List.length_cons]
      rcases List.mem_cons.mp h with rfl | h
      · omega
      · have := ih h
        omega

/-- What may come after an item of a list. -/
def atItemEnd : TokenKind → Prop := fun k => k = .symbol .comma ∨ k = .symbol .rightParen

variable {item : List α → Parser α} {shape : α → β} {follows : β → β → Prop}
  {items : List (List TokenKind × β)}

/-- Items are read one by one.  An item is compared with the ones before it, so each of them has to
be one that it may follow. -/
theorem separated (hitem : ∀ x ∈ items, ∀ earlier : List α, (∀ a ∈ earlier, follows (shape a) x.2) →
      Reads before before (item earlier) x.1 atItemEnd fun a => shape a = x.2)
    (hfollows : items.Pairwise fun x y => follows x.2 y.2) (hne : items ≠ [])
    (earlier : List α) (hearlier : ∀ a ∈ earlier, ∀ x ∈ items, follows (shape a) x.2) (n : Nat)
    (hn : (commas (items.map Prod.fst)).length ≤ n) :
    Reads before before (separated item n earlier) (commas (items.map Prod.fst))
      (fun k => k = .symbol .rightParen)
      fun found => found.map shape = earlier.map shape ++ items.map Prod.snd := by
  induction items generalizing earlier n with
  | nil => exact absurd rfl hne
  | cons x rest ih =>
    rw [List.forall_mem_cons] at hitem
    have hx : Reads before before (item earlier) x.1 atItemEnd fun a => shape a = x.2 :=
      hitem.1 earlier fun a ha => hearlier a ha x List.mem_cons_self
    have hmap : ∀ a, shape a = x.2 → (earlier ++ [a]).map shape = earlier.map shape ++ [x.2] := by
      intro a ha
      rw [List.map_append, List.map_singleton, ha]
    cases rest with
    | nil =>
      rw [List.map_singleton, commas_singleton]
      cases n with
      | zero => exact hx.finish (fun a ha => pure (hmap a ha)) fun _ hk => .inr hk
      | succ n =>
        refine hx.finish (fun a ha => ?_) fun _ hk => .inr hk
        refine look (accept_false _) (fun b hb => ?_) fun k hk => by rw [hk]; nofun
        subst hb
        exact pure (hmap a ha)
    | cons y rest =>
      rw [List.map_cons, List.map_cons, commas_cons_cons] at hn ⊢
      rw [List.length_append, List.length_cons] at hn
      obtain ⟨m, rfl⟩ : ∃ m, n = m + 1 := ⟨n - 1, by omega⟩
      rw [List.pairwise_cons] at hfollows
      refine bind hx (fun a ha => ?_) fun _ _ => .inl rfl
      refine cons (accept_true (.symbol .comma)) fun b hb => ?_
      subst hb
      -- the item that was just read is one of the earlier ones from here on
      have hearlier' : ∀ b ∈ earlier ++ [a], ∀ z ∈ y :: rest, follows (shape b) z.2 := by
        intro b hb z hz
        rcases List.mem_append.mp hb with hold | hnew
        · exact hearlier b hold z (List.mem_cons_of_mem _ hz)
        · rw [List.mem_singleton.mp hnew, ha]
          exact hfollows.1 z hz
      have hrest := ih hitem.2 hfollows.2 (List.cons_ne_nil _ _) (earlier ++ [a]) hearlier' m
        (by rw [List.map_cons]; omega)
      refine hrest.imp (fun _ hk => hk) fun found hfound => ?_
      rw [hfound, hmap a ha, List.append_assoc]
      rfl

/-- Items in parentheses.  An item does not begin with the closing one. -/
theorem parenthesised
    (hitem : ∀ x ∈ items, ∀ earlier : List α, (∀ a ∈ earlier, follows (shape a) x.2) →
      Reads before before (item earlier) x.1 atItemEnd fun a => shape a = x.2)
    (hfollows : items.Pairwise fun x y => follows x.2 y.2)
    (hbegin : ∀ x ∈ items, ∀ k, x.1.headD k ≠ .symbol .rightParen) :
    Reads before before (parenthesised item)
      (paren (commas (items.map Prod.fst))) anything
      fun found => found.1.map shape = items.map Prod.snd := by
  have hclose : ∀ found : List α, found.map shape = items.map Prod.snd →
      Reads before before (do let close ← Parser.expect .rightParen; return (found, close))
        [.symbol .rightParen] anything fun found => found.1.map shape = items.map Prod.snd :=
    fun found hfound => (expect .rightParen).finish (fun _ _ => pure hfound) fun _ _ => trivial
  rw [paren, List.cons_append]
  refine cons (expect .leftParen).discard fun _ _ => ?_
  cases items with
  | nil =>
    refine look (check_true _) (fun b hb => ?_) fun _ _ => rfl
    subst hb
    exact hclose [] rfl
  | cons x rest =>
    obtain ⟨more, hmore⟩ := commas_cons x.1 (rest.map Prod.fst)
    have hbegin' : ∀ k,
        (commas ((x :: rest).map Prod.fst) ++ [TokenKind.symbol .rightParen]).headD k ≠
          .symbol .rightParen := by
      intro k
      rw [List.map_cons, hmore, List.append_assoc]
      have hx := hbegin x List.mem_cons_self ((more ++ [TokenKind.symbol .rightParen]).headD k)
      cases hkinds : x.1 with
      | nil => rwa [hkinds] at hx
      | cons => rwa [hkinds] at hx
    refine look (check_false _) (fun b hb => ?_) fun k _ => hbegin' k
    subst hb
    refine remaining_bind fun n hn => ?_
    rw [List.length_append] at hn
    refine bind (separated hitem hfollows (List.cons_ne_nil _ _) [] nofun n (by omega)) ?_
      fun _ _ => rfl
    exact hclose

end Reads
end Parser
end ClipScript
