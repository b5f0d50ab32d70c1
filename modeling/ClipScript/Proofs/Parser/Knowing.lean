/-
The same tokens, read with and without knowing a plugin.

Two parsers stand at the same tokens, and the first knows the plugin `p` (`Cursor.Abreast`).  They
go side by side until a name `p` is followed by a dot, a name and a parenthesis.  There the first
reads a call of the plugin, while the second has read the name alone and stands before the dot
(`Parting`).  They meet again where the second has read its chain: this reads the same arguments and
then the same links, only one level deeper.  So the rules compare expressions of different bounds,
and the readings that come out fit each other (`Node.Fits`).

Within a chain the two can be parted.  Everywhere else they are a lawful pairing
(`Pairing.recognizing`), and nothing is said where one of them complains.
-/
import ClipScript.Proofs.Lexer.Layout
import ClipScript.Proofs.Node.Grouping
import ClipScript.Proofs.Parser.Progress
import ClipScript.Proofs.Parser.Twins

namespace ClipScript

open Node (Fits FitsArg)

/-! ## Cursors -/

/-- The tokens to come, and the end of input behind them. -/
def Cursor.ahead (c : Cursor) : List Token := c.rest ++ [⟨.eof, c.finish⟩]

/-- Both stand at the same tokens, in the order in which they begin, and know the same names except
that the first knows `p`. -/
structure Cursor.Abreast (p : String) (c c' : Cursor) : Prop where
  rest : c.rest = c'.rest
  finish : c.finish = c'.finish
  knows : c.imported.contains p
  others : ∀ x, x ≠ p → c.imported.contains x = c'.imported.contains x
  sorted : c.ahead.Pairwise (·.span.start ≤ ·.span.start)

namespace Cursor.Abreast

variable {p : String} {c c' : Cursor}

theorem head (h : c.Abreast p c') : c.head = c'.head := by
  rw [Cursor.head, Cursor.head, h.rest, h.finish]

theorem drop (h : c.Abreast p c') (n : Nat) :
    Cursor.Abreast p { c with rest := c.rest.drop n } { c' with rest := c'.rest.drop n } :=
  { h with
    rest := by rw [h.rest]
    sorted := h.sorted.sublist ((List.drop_sublist n c.rest).append (.refl _)) }

theorem tail (h : c.Abreast p c') :
    Cursor.Abreast p { c with rest := c.rest.tail } { c' with rest := c'.rest.tail } := by
  have hdrop := h.drop 1
  rwa [List.drop_one, List.drop_one] at hdrop

theorem imports (h : c.Abreast p c') (name : String) :
    Cursor.Abreast p { c with imported := name :: c.imported }
      { c' with imported := name :: c'.imported } :=
  { h with
    knows := by rw [List.contains_cons, h.knows, Bool.or_true]
    others := fun x hx => by rw [List.contains_cons, List.contains_cons, h.others x hx] }

theorem start_le (h : c.Abreast p c') (hne : c.head.kind ≠ .eof) :
    ∀ u ∈ Cursor.ahead { c with rest := c.rest.tail }, c.head.span.start ≤ u.span.start := by
  have hsorted := h.sorted
  rw [Cursor.ahead, Cursor.rest_eq_cons hne, List.cons_append] at hsorted
  exact fun u hu => List.rel_of_pairwise_cons hsorted hu

end Cursor.Abreast

/-- A cursor from which on everything begins at `lower` or behind it. -/
theorem Cursor.twin_of_le {lower : Nat} {c : Cursor} (h : ∀ u ∈ c.ahead, lower ≤ u.span.start) :
    c.Twin (fun s _ => lower ≤ s.start) c := by
  rw [Cursor.ahead, List.forall_mem_append, List.forall_mem_singleton] at h
  exact ⟨List.forall₂_same.mpr fun u hu => ⟨rfl, h.1 u hu⟩, h.2, rfl⟩

theorem Cursor.Twin.le {lower : Nat} {c c' : Cursor}
    (h : c.Twin (fun s _ => lower ≤ s.start) c') : ∀ u ∈ c.ahead, lower ≤ u.span.start := by
  rw [Cursor.ahead, List.forall_mem_append, List.forall_mem_singleton]
  refine ⟨fun u hu => ?_, h.finish⟩
  obtain ⟨i, hi, rfl⟩ := List.mem_iff_getElem.mp hu
  have hi' : i < c'.rest.length := by rw [← h.rest.length_eq]; exact hi
  exact (h.rest.get hi hi').place

theorem merging_le (lower : Nat) : Merging fun s _ => lower ≤ s.start := by
  intro a a' b b' ha hb
  rw [Span.start_merge]
  omega

namespace Pairing

variable {p : String}

/-- Readings with and without knowing the plugin, where both succeed. -/
def recognizing (p : String) : Pairing where
  Mark := Unit
  cursor _ c c' := c.Abreast p c'
  token _ _ s s' _ := s = s'
  error _ _ := True
  loose := True
  expr _ _ n n' _ := Fits p n n'
  args _ l l' _ := List.Forall₂ (FitsArg p) l l'
  param _ q q' _ := q = q'
  params _ l l' _ := l = l'
  stmt _ n n' _ := Fits p n n'
  branch _ n n' _ := Fits p n n'
  block _ n n' _ := Fits p n n'
  body _ l l' _ := List.Forall₂ (Fits p) l l'

theorem recognizing_steps : (recognizing p).StepLaws where
  kinds hc := congrArg (List.map Token.kind) (Cursor.Abreast.rest hc)
  advance hc _ := ⟨⟨⟩, congrArg Token.span (Cursor.Abreast.head hc), Cursor.Abreast.tail hc⟩

theorem any_isSome_label_of_fits {args args' : List (Labelled Node)}
    (h : List.Forall₂ (FitsArg p) args args') :
    args.any (·.label.isSome) = args'.any (·.label.isSome) := by
  induction h with
  | nil => rfl
  | cons harg _ ih => rw [List.any_cons, List.any_cons, harg.1, ih]

theorem recognizing_complaints : (recognizing p).ComplaintLaws where
  unexpected _ _ := trivial
  invalidNumber _ _ _ := trivial
  argumentOrder _ := trivial
  parameterOrder _ _ := trivial
  labelled := any_isSome_label_of_fits
  optional hq := hq ▸ rfl
  optionals hl := hl ▸ rfl

theorem recognizing_expressions : (recognizing p).ExpressionLaws where
  tighten hn := hn
  leaf _ hs := hs ▸ .leaf _ _
  parens _ hn _ := hn
  call hcalled hargs := by
    obtain ⟨_, _, _, hargs, hclose⟩ := hargs
    obtain rfl := hcalled.place (R := Eq) id
    exact hclose ▸ .call _ _ hargs
  unary hs hn := hs ▸ .unary _ _ hn
  chain hn _ hu := .chain hn hu
  binary hn _ hu := .binary _ hn hu
  ternary hn _ hu _ hv := .ternary hn hu hv
  assign hn _ hu := .assign _ hn hu
  args_nil := .nil
  argument hbefore _ hn _ := by
    obtain ⟨_, hl⟩ := hbefore.exists_items .nil
    exact List.rel_append hl (.cons ⟨rfl, hn⟩ .nil)

theorem recognizing_statements : (recognizing p).StatementLaws where
  mandatory hs hu := hs ▸ hu ▸ rfl
  opted hs _ hu := hs ▸ hu ▸ rfl
  params_nil := rfl
  declared hbefore hq _ := by
    obtain ⟨_, hl⟩ := hbefore.exists_items rfl
    exact hl ▸ hq ▸ rfl
  expression hn _ := hn
  sequence hs hbody hu := hs ▸ hu ▸ .sequence _ hbody
  block hn := hn
  branch hfound := by
    cases hfound with
    | empty hs => exact hs ▸ .sequence _ .nil
    | node hn => exact hn
  ifThen hs _ hn _ hu := hs ▸ .ifElse _ hn hu .none
  ifElse hs _ hn _ hu _ hv := hs ▸ .ifElse _ hn hu (.some hv)
  functionDef hs _ hparams hn := by
    obtain ⟨_, _, _, hparams, _⟩ := hparams
    exact hs ▸ hparams ▸ .functionDef _ _ _ hn
  defaultValue hs _ hn _ hu := hs ▸ hu ▸ .defaultValue _ _ hn
  returnNothing hs hu := hs ▸ hu ▸ .returnValue _ .none
  returnValue hs hn hu := hs ▸ hu ▸ .returnValue _ (.some hn)
  importName hs _ hu hc := ⟨⟨⟩, hs ▸ hu ▸ .importName _ _, Cursor.Abreast.imports hc _⟩
  body_nil := .nil
  body_cons hfound hl := List.rel_append (forall₂_toList (hfound.rel id)) hl

theorem lawful_recognizing (p : String) : (recognizing p).Lawful where
  toStepLaws := recognizing_steps
  toComplaintLaws := recognizing_complaints
  toExpressionLaws := recognizing_expressions
  toStatementLaws := recognizing_statements

/-- The two go together if they do so wherever both succeed. -/
theorem walks_of_both {α : Type} {m : Unit} {c c' : Cursor} {P P' : Parser α}
    {good : α → α → Unit → Prop} (hmoves : Parser.Moves P)
    (h : c.Abreast p c' → ∀ ⦃a a' d d'⦄, P.run c = .ok (a, d) → P'.run c' = .ok (a', d') →
      good a a' m ∧ d.Abreast p d') : (recognizing p).Walks m c c' P P' good := by
  intro hc
  cases hrun : P.run c with
  | error e => exact .loose_left trivial
  | ok r =>
    cases hrun' : P'.run c' with
    | error e => exact .loose_right trivial
    | ok r' =>
      obtain ⟨ha, hd⟩ := h hc hrun hrun'
      exact .ok ha hd (Nat.le_of_lt (hmoves.unread_lt hrun))

theorem both_of_walks {α : Type} {c c' d d' : Cursor} {P P' : Parser α} {good : α → α → Prop}
    {a a' : α} (h : (recognizing p).Walks ⟨⟩ c c' P P' fun a a' _ => good a a')
    (hc : c.Abreast p c') (hrun : P.run c = .ok (a, d)) (hrun' : P'.run c' = .ok (a', d')) :
    good a a' ∧ d.Abreast p d' := by
  obtain ⟨_, ha, hd, -⟩ := h.of_both hc hrun hrun'
  exact ⟨ha, hd⟩

end Pairing

namespace Parser

open Pairing (recognizing lawful_recognizing both_of_walks)

variable {α β : Type} {p : String}

/-! ## Expressions -/

/-- The second has read the name `p` at `sp` and stands before a dot, where the first has read the
call of a function of the plugin.  When the second comes to read the call behind the dot, it reads
the same arguments. -/
inductive Parting (p : String) (d d' : Cursor) : Span → Node → Prop where
  | mk {sp sd sf so close : Span} {function : String} {args : List (Labelled Node)}
      {more : List Token} :
      d'.rest = ⟨.symbol .dot, sd⟩ :: ⟨.identifier function, sf⟩ ::
        ⟨.symbol .leftParen, so⟩ :: more →
      sp.start ≤ sf.start → sp.start ≤ close.start →
      (∀ u ∈ d.ahead, sp.start ≤ u.span.start) →
      (∀ k b' e', (callTo (expressionAt k) (.named function) sf).run
          { d' with rest := ⟨.symbol .leftParen, so⟩ :: more } = .ok (b', e') →
        ∃ args', b' = .call (sf.merge close) (.named function) args' ∧
          List.Forall₂ (FitsArg p) args args' ∧ d.Abreast p e') →
      Parting p d d' sp (.call (sp.merge close) (.plugin p function) args)

/-- Where both parsers succeed they meet, or they part at a call of the plugin, before which the
second may have read operators. -/
def SplitsAt (p : String) (c c' : Cursor) (P P' : Parser Node) : Prop :=
  ∀ ⦃a a' : Node⦄ ⦃d d' : Cursor⦄, P.run c = .ok (a, d) → P'.run c' = .ok (a', d') →
    (Fits p a a' ∧ d.Abreast p d') ∨
      ∃ sp call, Parting p d d' sp call ∧
        (a = call ∧ a' = .identifier sp p ∨ a'.signs p = true)

def Splits (p : String) (P P' : Parser Node) : Prop :=
  ∀ ⦃c c' : Cursor⦄, c.Abreast p c' → SplitsAt p c c' P P'

theorem Splits.of_walks {P P' : Parser Node}
    (h : ∀ c c', (recognizing p).Walks ⟨⟩ c c' P P' fun n n' _ => Fits p n n') : Splits p P P' := by
  intro c c' hc a a' d d' hrun hrun'
  exact .inl (both_of_walks (h c c') hc hrun hrun')

/-- Expressions of a bound go with those of any other bound, and split at the levels within a
chain. -/
structure Walked (p : String) (n : Nat) : Prop where
  whole : ∀ {m c c'} k {level : Level}, level.Whole →
    (recognizing p).Walks m c c' (expressionAt n level) (expressionAt k level)
      fun a a' _ => Fits p a a'
  unary : ∀ k, Splits p (expressionAt n .unary) (expressionAt k .unary)

section Levels

variable {n k : Nat} {c c' : Cursor}

theorem Walked.expression {m : Unit} (h : Walked p n) (k : Nat) :
    (recognizing p).Walks m c c' (expressionAt n .assignment) (expressionAt k .assignment)
      fun a a' _ => Fits p a a' :=
  h.whole k ⟨nofun, nofun⟩

theorem Walked.link {m : Unit} (h : Walked p n) (k : Nat) :
    (recognizing p).Walks m c c' (expressionAt n .chain) (expressionAt k .chain)
      fun a a' _ => Fits p a a' :=
  h.whole k ⟨nofun, nofun⟩

theorem walks_arguments {m : Unit} (h : Walked p n) (k : Nat) :
    (recognizing p).Walks m c c' (parenthesised (argument (expressionAt n)))
      (parenthesised (argument (expressionAt k)))
      fun x x' _ => List.Forall₂ (FitsArg p) x.1 x'.1 ∧ x.2 = x'.2 := by
  refine ((lawful_recognizing p).walks_arguments (fun _ _ _ _ => h.expression k)
    (Nat.le_refl c.unread)).imp fun x x' _ hx => ?_
  obtain ⟨_, _, _, hargs, hclose⟩ := hx
  exact ⟨hargs, hclose⟩

theorem walks_callTo {m : Unit} (h : Walked p n) (callee : Callee) (start : Span) :
    (recognizing p).Walks m c c' (callTo (expressionAt n) callee start)
      (callTo (expressionAt k) callee start) fun a a' _ => Fits p a a' :=
  (walks_arguments h k).bind fun _ _ hx _ => .pure (hx.2 ▸ .call _ callee hx.1)

theorem exists_of_run_callTo {again : Level → Parser Node} {callee : Callee} {start : Span}
    {c d : Cursor} {b : Node} (h : (callTo again callee start).run c = .ok (b, d)) :
    ∃ args close, (parenthesised (argument again)).run c = .ok ((args, close), d) ∧
      b = .call (start.merge close) callee args := by
  obtain ⟨⟨args, close⟩, e, hargs, hrest⟩ := exists_of_run_bind h
  cases hrest
  exact ⟨args, close, hargs, rfl⟩

/-- The parsers part at a name that only the first knows, in front of a call. -/
theorem parting_of_run {sp sd sf so : Span} {function : String} {more : List Token}
    {c c' d : Cursor} {call : Node} (h : Walked p n) (hc : c.Abreast p c')
    (hrest : c'.rest = ⟨.symbol .dot, sd⟩ :: ⟨.identifier function, sf⟩ ::
      ⟨.symbol .leftParen, so⟩ :: more)
    (hlow : ∀ u ∈ c.ahead, sp.start ≤ u.span.start)
    (hrun : (callTo (expressionAt n) (.plugin p function) sp).run
      { c with rest := c.rest.drop 2 } = .ok (call, d)) :
    Parting p d c' sp call := by
  obtain ⟨args, close, hargs, rfl⟩ := exists_of_run_callTo hrun
  have hdrop := hc.drop 2
  have hahead : ∀ u ∈ Cursor.ahead { c with rest := c.rest.drop 2 }, sp.start ≤ u.span.start :=
    fun u hu => hlow u (((List.drop_sublist 2 c.rest).append (.refl _)).subset hu)
  -- all that the first reads on begins behind the name
  have hP := Pairing.lawful_twinning (merging_le sp.start)
  have htwins : Twins (fun s _ => sp.start ≤ s.start)
      (fun x x' => (Pairing.twinning _).Enclosed (Pairing.twinning _).args ⟨⟩ x x' ⟨⟩)
      (parenthesised (argument (expressionAt n))) (parenthesised (argument (expressionAt n))) :=
    .of_walks fun _ _ => hP.walks_arguments
      (fun _ _ _ _ => hP.walks_expressionAt Pairing.sameImports_twinning n .assignment)
      (Nat.le_refl _)
  obtain ⟨⟨_, _, _, _, hclose⟩, hd⟩ := htwins.of_ok (Cursor.twin_of_le hahead) hargs hargs
  refine .mk hrest ?_ hclose (Cursor.Twin.le hd) fun k b' e' hrun' => ?_
  · refine hlow ⟨.identifier function, sf⟩ (List.mem_append_left _ ?_)
    rw [hc.rest, hrest]
    simp
  · obtain ⟨args', close', hargs', rfl⟩ := exists_of_run_callTo hrun'
    have hopen : Cursor.Abreast p { c with rest := c.rest.drop 2 }
        { c' with rest := ⟨.symbol .leftParen, so⟩ :: more } := by
      have hsame : c'.rest.drop 2 = ⟨.symbol .leftParen, so⟩ :: more := by rw [hrest]; rfl
      rw [← hsame]
      exact hdrop
    obtain ⟨⟨hfits, hsame⟩, he⟩ := both_of_walks (walks_arguments h k) hopen hargs hargs'
    obtain rfl : close = close' := hsame
    exact ⟨args', rfl, hfits, he⟩

/-- The two look ahead alike, unless only the first knows the name. -/
theorem calleeAhead?_cases {c c' : Cursor} (hc : c.Abreast p c') (name : String) :
    calleeAhead? c.imported name (c.rest.map Token.kind)
        = calleeAhead? c'.imported name (c'.rest.map Token.kind) ∨
      name = p ∧ ∃ sd function sf so more,
        c'.rest = ⟨.symbol .dot, sd⟩ :: ⟨.identifier function, sf⟩ ::
          ⟨.symbol .leftParen, so⟩ :: more ∧
        calleeAhead? c.imported name (c.rest.map Token.kind) = some (.plugin p function) ∧
        calleeAhead? c'.imported name (c'.rest.map Token.kind) = none := by
  rw [hc.rest]
  by_cases hname : name = p
  · subst hname
    cases hknown : c'.imported.contains name with
    | true =>
      left
      unfold calleeAhead?
      rw [hc.knows, hknown]
    | false =>
      generalize hkinds : c'.rest.map Token.kind = kinds
      unfold calleeAhead?
      rw [hc.knows, hknown]
      split
      · exact .inl rfl
      · next function kinds =>
        obtain ⟨sd, rest, hrest, hbehind⟩ := exists_of_map_kind hkinds
        obtain ⟨sf, rest, rfl, hopen⟩ := exists_of_map_kind hbehind
        obtain ⟨so, more, rfl, -⟩ := exists_of_map_kind hopen
        exact .inr ⟨rfl, sd, function, sf, so, more, hrest, rfl, rfl⟩
      · exact .inl rfl
  · left
    unfold calleeAhead?
    rw [hc.others name hname]

theorem splits_named (h : Walked p n) (name : String) (sp : Span) {c c' : Cursor}
    (hc : c.Abreast p c') (hlow : ∀ u ∈ c.ahead, sp.start ≤ u.span.start) :
    SplitsAt p c c' (named (expressionAt n) name sp) (named (expressionAt k) name sp) := by
  intro a a' d d' hrun hrun'
  rw [named_eq, run_bind_ok (run_get c)] at hrun
  rw [named_eq, run_bind_ok (run_get c')] at hrun'
  rcases calleeAhead?_cases hc name with
    hsame | ⟨rfl, sd, function, sf, so, more, hrest, hcall, hnone⟩
  · left
    rw [hsame] at hrun
    generalize calleeAhead? c'.imported name (c'.rest.map Token.kind) = callee at hrun hrun'
    rcases callee with _ | callee
    · cases hrun
      cases hrun'
      exact ⟨.leaf sp _, hc⟩
    · cases callee with
      | named function =>
        exact both_of_walks (walks_callTo h (.named function) sp) hc hrun hrun'
      | plugin owner function =>
        exact both_of_walks (walks_callTo h (.plugin owner function) sp) (hc.drop 2) hrun hrun'
  · right
    rw [hcall] at hrun
    rw [hnone] at hrun'
    cases hrun'
    exact ⟨sp, a, parting_of_run h hc hrest hlow hrun, .inl ⟨rfl, rfl⟩⟩

theorem SplitsAt.advance_bind {f f' : Token → Parser Node} {c c' : Cursor} (hc : c.Abreast p c')
    (h : SplitsAt p { c with rest := c.rest.tail } { c' with rest := c'.rest.tail } (f c.head)
      (f' c.head)) : SplitsAt p c c' (advance >>= f) (advance >>= f') := by
  intro a a' d d' hrun hrun'
  refine h hrun ?_
  rw [hc.head]
  exact hrun'

theorem splits_primary (h : Walked p n) :
    Splits p (primary (expressionAt n)) (primary (expressionAt k)) := by
  intro c c' hc
  have hwalks : ∀ {P P' : Parser Node}, (∀ c c', (recognizing p).Walks ⟨⟩ c c' P P'
      fun a a' _ => Fits p a a') →
      SplitsAt p { c with rest := c.rest.tail } { c' with rest := c'.rest.tail } P P' :=
    fun hwalks => Splits.of_walks hwalks hc.tail
  refine .advance_bind hc ?_
  have hlow := hc.start_le
  generalize c.head = t at hlow
  obtain ⟨kind, s⟩ := t
  dsimp only
  split
  · next digits =>
    split
    · exact hwalks fun _ _ => .pure (.leaf s _)
    · exact hwalks fun _ _ => .fails trivial rfl rfl
  · exact hwalks fun _ _ => .pure (.leaf s _)
  · exact hwalks fun _ _ => .pure (.leaf s _)
  · exact hwalks fun _ _ => .pure (.leaf s _)
  · next name => exact splits_named h name s hc.tail (hlow (by simp))
  · refine hwalks fun _ _ => (h.expression k).bind fun a a' ha _ => ?_
    exact .discard_bind (.expect_bind (lawful_recognizing p) fun _ _ => .pure ha)
  · exact hwalks fun _ _ => .fails trivial rfl rfl

theorem splits_unary (h : Walked p n) :
    Splits p (unary (expressionAt n)) (unary (expressionAt k)) := by
  intro c c' hc a a' d d' hrun hrun'
  unfold unary at hrun hrun'
  rw [run_bind_ok (run_peek c)] at hrun
  rw [run_bind_ok (run_peek c'), ← hc.head] at hrun'
  cases hop : UnaryOp.ofToken? c.head.kind with
  | none =>
    rw [hop] at hrun hrun'
    exact splits_primary h hc hrun hrun'
  | some op =>
    rw [hop] at hrun hrun'
    obtain ⟨t, e, ht, hrun⟩ := exists_of_run_bind hrun
    obtain ⟨t', e', ht', hrun'⟩ := exists_of_run_bind hrun'
    cases ht
    cases ht'
    rw [← hc.head] at hrun'
    obtain ⟨operand, e₁, hoperand, hrun⟩ := exists_of_run_bind hrun
    obtain ⟨operand', e₁', hoperand', hrun'⟩ := exists_of_run_bind hrun'
    cases hrun
    cases hrun'
    rcases h.unary k hc.tail hoperand hoperand' with ⟨hfits, hd⟩ | ⟨sp, call, hparting, hname⟩
    · exact .inl ⟨.unary _ op hfits, hd⟩
    · refine .inr ⟨sp, call, hparting, .inr ?_⟩
      rcases hname with ⟨-, rfl⟩ | hsigns
      · simp [Node.signs]
      · simp [Node.signs, hsigns]

/-- What is read begins where its tokens do, or behind that. -/
theorem start_le_of_run {lower : Nat} {level : Level} {c d : Cursor} {a : Node}
    (h : ∀ u ∈ c.ahead, lower ≤ u.span.start) (hrun : (expressionAt n level).run c = .ok (a, d)) :
    lower ≤ a.span.start := by
  exact ((twins_expressionAt (merging_le lower) n level).of_ok (Cursor.twin_of_le h)
    hrun hrun).1.span

theorem walks_links {m : Unit} (h : Walked p n) {value value' : Node}
    (hvalue : Fits p value value') :
    (recognizing p).Walks m c c'
      (do
        if ← accept (.symbol .dot) then
          let call ← expressionAt n .chain
          return .chain (value.span.merge call.span) value call
        else return value)
      (do
        if ← accept (.symbol .dot) then
          let call ← expressionAt k .chain
          return .chain (value'.span.merge call.span) value' call
        else return value') fun a a' _ => Fits p a a' := by
  refine .accept_bind (lawful_recognizing p) (by decide) (fun _ _ => ?_) (.pure hvalue)
  exact (h.link k).bind fun link link' hlink _ => .pure (.chain hvalue hlink)

theorem run_accept_dot {c : Cursor} {sd : Span} {more : List Token}
    (h : c.rest = ⟨.symbol .dot, sd⟩ :: more) :
    (accept (.symbol .dot)).run c = .ok (true, { c with rest := more }) := by
  obtain ⟨rest, finish, imported⟩ := c
  cases h
  rfl

/-- Where the second goes on with the chain, the two meet behind it. -/
theorem meet_of_parting (h : Walked p n) {c c' d d' : Cursor} {sp : Span}
    {call value value' a a' : Node} (hparting : Parting p c c' sp call)
    (hvalue : value = call ∧ value' = .identifier sp p ∨ value'.signs p = true)
    (hrun : (do
      if ← accept (.symbol .dot) then
        let call ← expressionAt n .chain
        return .chain (value.span.merge call.span) value call
      else return value : Parser Node).run c = .ok (a, d))
    (hrun' : (do
      if ← accept (.symbol .dot) then
        let call ← expressionAt k .chain
        return .chain (value'.span.merge call.span) value' call
      else return value' : Parser Node).run c' = .ok (a', d')) :
    Fits p a a' ∧ d.Abreast p d' := by
  obtain ⟨hrest, hsf, hclose, hlow, hargs⟩ := hparting
  rename_i sd sf so close function args more
  rw [run_bind_ok (run_accept_dot hrest)] at hrun'
  obtain ⟨link', e', hlink', hrun'⟩ := exists_of_run_bind hrun'
  cases hrun'
  cases k with
  | zero => cases hlink'
  | succ j =>
    obtain ⟨call', e₁', hcall', hlinks'⟩ := exists_of_run_bind hlink'
    obtain ⟨args', rfl, hfits, he⟩ := hargs j call' e₁' hcall'
    obtain ⟨found, f, hfound, hrun⟩ := exists_of_run_bind hrun
    obtain ⟨found', f', hfound', hlinks'⟩ := exists_of_run_bind hlinks'
    have haccept {c c' : Cursor} : (recognizing p).Walks ⟨⟩ c c' (accept (.symbol .dot))
        (accept (.symbol .dot)) fun found found' _ => found = found' :=
      .accept (lawful_recognizing p) nofun
    obtain ⟨rfl, hf⟩ := both_of_walks haccept he hfound hfound'
    cases found with
    | false =>
      cases hrun
      cases hlinks'
      refine ⟨?_, hf⟩
      rcases hvalue with ⟨rfl, rfl⟩ | hsigns
      · exact .plugin hfits hclose hsf
      · exact .of_signs hsigns rfl
    | true =>
      obtain ⟨rest, g, hrest, hrun⟩ := exists_of_run_bind hrun
      obtain ⟨rest', g', hrest', hlinks'⟩ := exists_of_run_bind hlinks'
      cases hrun
      cases hlinks'
      obtain ⟨hfits', hg⟩ := both_of_walks (h.link j) hf hrest hrest'
      refine ⟨?_, hg⟩
      rcases hvalue with ⟨rfl, rfl⟩ | hsigns
      · have htwins : Twins (fun s _ => sp.start ≤ s.start) (· = ·) (accept (.symbol .dot))
            (accept (.symbol .dot)) :=
          .of_walks fun _ _ => .accept (Pairing.lawful_twinning (merging_le sp.start)) nofun
        have hbehind := (htwins.of_ok (Cursor.twin_of_le hlow) hfound hfound).2
        exact .pluginChain hfits hfits' hclose hsf (start_le_of_run (Cursor.Twin.le hbehind) hrest)
      · exact .of_signs hsigns rfl

theorem walks_chain {m : Unit} (h : Walked p n) :
    (recognizing p).Walks m c c' (chain (expressionAt n)) (chain (expressionAt k))
      fun a a' _ => Fits p a a' := by
  refine Pairing.walks_of_both (moves_expressionAt (n + 1) .chain) fun hc a a' d d' hrun hrun' => ?_
  obtain ⟨value, e, hvalue, hrun⟩ := exists_of_run_bind hrun
  obtain ⟨value', e', hvalue', hrun'⟩ := exists_of_run_bind hrun'
  rcases splits_unary h hc hvalue hvalue' with ⟨hfits, he⟩ | ⟨sp, call, hparting, hname⟩
  · exact both_of_walks (walks_links h hfits) he hrun hrun'
  · exact meet_of_parting h hparting hname hrun hrun'

end Levels

theorem walked (p : String) (n : Nat) : Walked p n := by
  induction n with
  | zero =>
    refine ⟨fun k level _ _ => .loose_left trivial, fun k c c' _ a a' d d' hrun _ => ?_⟩
    cases hrun
  | succ n ih =>
    refine ⟨fun {m c c'} k level hlevel => ?_, fun k => ?_⟩
    · cases k with
      | zero => exact fun _ => .loose_right trivial
      | succ k =>
        refine (lawful_recognizing p).walks_atLevel_of_chain (n := c.unread) (fun _ _ _ _ => ?_)
          (fun level hlevel _ _ _ _ => ih.whole k hlevel) hlevel (Nat.le_refl _)
        exact walks_chain ih
    · cases k with
      | zero =>
        intro c c' hc a a' d d' hrun hrun'
        cases hrun'
      | succ k => exact splits_unary ih

theorem walkExpressions_recognizing (p : String) : (recognizing p).WalkExpressions :=
  fun _ _ _ => .remaining_bind (lawful_recognizing p) fun n => (walked p n).whole n ⟨nofun, nofun⟩

end Parser

/-! ## Scripts -/

/-- The script that a list of tokens spells behind imports of some names. -/
def Program.ofTokensKnowing (names : List String) (tokens : List Token) :
    Except ParseError Program :=
  Parser.program.run' { Cursor.start tokens with imported := names }

/-- The script that a text spells behind imports of some names. -/
def Program.ofSourceKnowing (names : List String) (source : String) : Except RuntimeError Program :=
  match Lexer.lex source with
  | .error e => .error (.ofLex e)
  | .ok tokens =>
    match Program.ofTokensKnowing names tokens with
    | .error e => .error (.ofParse e)
    | .ok program => .ok program

namespace Program

variable {source : String} {names : List String} {program : Program}

/-- Behind no imports a text spells what it spells by itself. -/
theorem ofSourceKnowing_nil (source : String) : ofSourceKnowing [] source = ofSource source := rfl

theorem exists_of_ofSourceKnowing (h : ofSourceKnowing names source = .ok program) :
    ∃ tokens c, Lexer.lex source = .ok tokens ∧
      Parser.program.run { Cursor.start tokens with imported := names } = .ok (program, c) := by
  unfold ofSourceKnowing at h
  split at h
  · cases h
  · next tokens hlex =>
    split at h
    · cases h
    · next hread =>
      cases h
      obtain ⟨c, hrun⟩ := Parser.exists_of_run' hread
      exact ⟨tokens, c, hlex, hrun⟩

end Program

/-- Tokens begin one behind the other, and the end of the text behind them all. -/
theorem Lexer.Layout.sorted {place : Text.Position} {text : List Char} {words : List Token}
    (h : Layout place text words) :
    (words ++ [finish (place.after text)]).Pairwise (·.span.start ≤ ·.span.start) ∧
      ∀ t ∈ words ++ [finish (place.after text)], place.offset ≤ t.span.start := by
  have hafter : ∀ (place : Text.Position) (text : List Char),
      place.offset ≤ (place.after text).offset := by
    intro place text
    rw [Text.Position.offset_after]
    omega
  induction h with
  | @last place gap _ =>
    exact ⟨List.pairwise_singleton _ _, List.forall_mem_singleton.mpr (hafter place gap)⟩
  | @word place gap word rest kind words _ _ _ ih =>
    have hgap := hafter place gap
    have hword := hafter (place.after gap) word
    rw [Text.Position.after_append, Text.Position.after_append]
    refine ⟨List.pairwise_cons.mpr ⟨fun t ht => hword.trans (ih.2 t ht), ih.1⟩, ?_⟩
    exact List.forall_mem_cons.mpr ⟨hgap, fun t ht => (hgap.trans hword).trans (ih.2 t ht)⟩

theorem Cursor.sorted_start {source : String} {tokens : List Token}
    (h : Lexer.lex source = .ok tokens) :
    (Cursor.start tokens).ahead.Pairwise (·.span.start ≤ ·.span.start) := by
  obtain ⟨mark, text, words, -, hsource, hwords, rfl⟩ := Lexer.exists_layout h
  have hsorted := hwords.sorted.1
  rw [← Text.Position.after_append, ← hsource] at hsorted
  generalize Lexer.finish _ = last at hsorted
  have hfinish : (Cursor.start (words ++ [last])).finish = last.span := by
    rw [Cursor.start, List.getLast?_concat]
    rfl
  rw [Cursor.ahead, hfinish]
  refine List.pairwise_append.mpr ⟨hsorted, List.pairwise_singleton _ _, fun t ht u hu => ?_⟩
  rw [List.mem_singleton.mp hu]
  rcases List.mem_append.mp ht with hmem | hmem
  · exact (List.pairwise_append.mp hsorted).2.2 t hmem last List.mem_cons_self
  · rw [List.mem_singleton.mp hmem]

/-- Readings of a text with and without knowing a plugin fit each other, statement by statement. -/
theorem Program.forall₂_fits {p : String} {names : List String} {source : String}
    {known unknown : Program} (hknown : ofSourceKnowing (p :: names) source = .ok known)
    (hunknown : ofSourceKnowing names source = .ok unknown) :
    List.Forall₂ (Node.Fits p) known.statements unknown.statements := by
  obtain ⟨tokens, d, hlex, hrun⟩ := exists_of_ofSourceKnowing hknown
  obtain ⟨tokens', d', hlex', hrun'⟩ := exists_of_ofSourceKnowing hunknown
  obtain rfl : tokens = tokens' := Except.ok.inj (hlex.symm.trans hlex')
  have hstart : Cursor.Abreast p { Cursor.start tokens with imported := p :: names }
      { Cursor.start tokens with imported := names } := by
    refine ⟨rfl, rfl, ?_, fun x hx => ?_, Cursor.sorted_start hlex⟩
    · simp
    · show (p :: names).contains x = names.contains x
      rw [List.contains_cons, beq_false_of_ne hx, Bool.false_or]
  have hP := Pairing.lawful_recognizing p
  exact (Pairing.both_of_walks (hP.walks_program (Parser.walkExpressions_recognizing p)) hstart
    hrun hrun').1

end ClipScript
