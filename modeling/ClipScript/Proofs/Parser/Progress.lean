/-
Every parser moves on.

A parser that succeeds has taken at least one token, and no end of input among those it took
(`Moves`).  This is read off what it takes: nothing is spelt without tokens.  Seen from the list of
tokens, the index of the next one has grown and has not gone past the first end of input
(`Advances`).
-/
import ClipScript.Proofs.Parser.Derivation

namespace ClipScript

open Grammar

namespace Cursor

/-- The cursor stands before the token of this index, or at the end of the list, and the first end
of input is not behind it. -/
structure StandsAt (tokens : List Token) (index : Nat) (c : Cursor) : Prop where
  rest : c.rest = tokens.drop index
  le : index ≤ tokens.findIdx (·.kind == .eof)

/-- Tokens that hold no end of input lead from one index to another. -/
theorem StandsAt.of_crosses {tokens : List Token} {i : Nat} {c c' : Cursor}
    {kinds : List TokenKind} (h : c.StandsAt tokens i) (hcross : c.Crosses kinds c') :
    c'.StandsAt tokens (i + kinds.length) ∧
      ∀ t ∈ (tokens.take (i + kinds.length)).drop i, t.kind ≠ .eof := by
  obtain ⟨ts, rfl, hrest⟩ := hcross.rest
  rw [h.rest] at hrest
  rw [List.length_map]
  have hle : i ≤ tokens.length := Nat.le_trans h.le List.findIdx_le_length
  have hmid : (tokens.take (i + ts.length)).drop i = ts := by
    rw [List.drop_take, Nat.add_sub_cancel_left, hrest, List.take_left]
  have hordinary : ∀ t ∈ ts, t.kind ≠ .eof :=
    fun t ht hk => hcross.ordinary (List.mem_map.mpr ⟨t, ht, hk⟩)
  refine ⟨⟨?_, ?_⟩, by rwa [hmid]⟩
  · rw [← List.drop_drop, hrest, List.drop_left]
  · -- an end of input from `i` on would be one of the tokens taken
    refine Nat.le_of_not_lt fun hlt => ?_
    have hfirst : tokens.findIdx (·.kind == .eof) < tokens.length := by
      have htotal : ts.length ≤ tokens.length - i := by
        rw [← List.length_drop, hrest, List.length_append]
        omega
      omega
    have heof : tokens[tokens.findIdx (·.kind == .eof)].kind = .eof :=
      eq_of_beq (List.findIdx_getElem (w := hfirst))
    refine hordinary _ ?_ heof
    rw [← hmid, List.mem_drop_iff_getElem]
    have hi := h.le
    refine ⟨tokens.findIdx (·.kind == .eof) - i, ?_, ?_⟩
    · rw [List.length_take]
      omega
    · rw [List.getElem_take]
      congr 1
      omega

end Cursor

namespace Grammar

theorem Phrase.kinds_ne_nil {known : String → Prop} {level : Level} {n : Node}
    {kinds : List TokenKind} : Phrase known level n kinds → kinds ≠ []
  | .tighten tight => tight.kinds_ne_nil
  | .number _ | .string | .boolean | .name | .parens _ | .unary _ => List.cons_ne_nil _ _
  | .call _ _ => List.append_ne_nil_of_right_ne_nil _ (List.cons_ne_nil _ _)
  | .chain _ _ | .binary _ _ | .ternary _ _ _ | .assign _ _ =>
    List.append_ne_nil_of_right_ne_nil _ (List.cons_ne_nil _ _)

theorem Declaration.kinds_ne_nil {p : Param} {kinds : List TokenKind} (h : Declaration p kinds) :
    kinds ≠ [] := by
  cases h <;> exact List.cons_ne_nil _ _

theorem exists_imports (names : List String) : ∃ before, ∀ x ∈ names, Imports before x := by
  induction names with
  | nil => exact ⟨[], nofun⟩
  | cons x names ih =>
    obtain ⟨before, hbefore⟩ := ih
    refine ⟨before ++ [.keyword .importKw, .identifier x, .symbol .semicolon], fun y hy => ?_⟩
    rcases List.mem_cons.mp hy with rfl | hy
    · exact ⟨before, [], List.append_nil _⟩
    · exact (hbefore y hy).append _

end Grammar

namespace Parser

variable {α β : Type}

/-- Whenever the parser succeeds it has taken a token, and no end of input. -/
def Moves (p : Parser α) : Prop :=
  ∀ ⦃c a c'⦄, p.run c = .ok (a, c') → ∃ kinds, kinds ≠ [] ∧ c.Crosses kinds c'

/-- Whenever the parser succeeds from an index that no end of input stands before, it has come to a
greater one, with no end of input in between, and still none stands before it. -/
def Advances (p : Parser α) : Prop :=
  ∀ tokens i c, c.StandsAt tokens i → ∀ a c', p.run c = .ok (a, c') →
    ∃ j, i < j ∧ c'.StandsAt tokens j ∧ ∀ t ∈ (tokens.take j).drop i, t.kind ≠ .eof

namespace Moves

variable {p : Parser α}

theorem advances (h : Moves p) : Advances p := by
  intro tokens i c hc a c' hrun
  obtain ⟨kinds, hne, hcross⟩ := h hrun
  have hpos : 0 < kinds.length := List.length_pos_iff.mpr hne
  obtain ⟨hc', hordinary⟩ := hc.of_crosses hcross
  exact ⟨i + kinds.length, by omega, hc', hordinary⟩

theorem unread_lt (h : Moves p) {c c' : Cursor} {a : α} (hrun : p.run c = .ok (a, c')) :
    c'.unread < c.unread := by
  obtain ⟨kinds, hne, hcross⟩ := h hrun
  have hpos : 0 < kinds.length := List.length_pos_iff.mpr hne
  rw [hcross.unread]
  omega

theorem head_ne_eof (h : Moves p) {c c' : Cursor} {a : α} (hrun : p.run c = .ok (a, c')) :
    c.head.kind ≠ .eof := by
  have hlt := h.unread_lt hrun
  rw [Ne, ← Cursor.unread_eq_zero_iff]
  omega

/-- What is derived from tokens was taken from them.  All names that are known at the start can be
taken to be imported before it. -/
theorem of_walks (h : ∀ before c m, ∃ good, (Pairing.accounting before c).Walks m c c p p good ∧
    ∀ a m', good a a m' → ∃ kinds, kinds ≠ [] ∧ m'.taken = m.taken ++ kinds) : Moves p := by
  intro c a c' hrun
  obtain ⟨before, hbefore⟩ := exists_imports c.imported
  obtain ⟨good, hwalks, hne⟩ := h before c ⟨before, c.imported, hbefore⟩
  obtain ⟨m, kinds, hgood, htaken, hcross, -⟩ := exists_mark_of_run hbefore hwalks hrun
  obtain ⟨kinds', hne, htaken'⟩ := hne a m hgood
  exact ⟨kinds, List.append_cancel_left (htaken'.symm.trans htaken) ▸ hne, hcross⟩

theorem checked (h : Moves p) (faulty : α → Bool) (e : α → ParseError) (f : α → β) :
    Moves (do
      let a ← p
      if faulty a then throw (e a)
      return f a) := by
  intro c b c' hrun
  obtain ⟨a, d, hp, hrun⟩ := exists_of_run_bind hrun
  cases hfaulty : faulty a with
  | true =>
    rw [hfaulty] at hrun
    cases hrun
  | false =>
    rw [hfaulty] at hrun
    cases hrun
    exact h hp

end Moves

theorem moves_expressionAt (n : Nat) (level : Level) : Moves (expressionAt n level) := by
  refine .of_walks fun before c m => ⟨_, (Pairing.lawful_accounting before c).walks_expressionAt
    Pairing.sameImports_accounting n level, fun a m' ha => ?_⟩
  obtain ⟨-, kinds, rfl, hphrase⟩ := ha
  exact ⟨kinds, (hphrase.phrase rfl).kinds_ne_nil, rfl⟩

theorem moves_expression : Moves expression :=
  fun c _ _ hrun => moves_expressionAt c.rest.length .assignment hrun

theorem moves_argument (n : Nat) (before : List (Labelled Node)) :
    Moves (argument (expressionAt n) before) := by
  have hvalue : ∀ label, Moves (argumentValue (expressionAt n) before label) := fun label =>
    (moves_expressionAt n .assignment).checked _ (fun content => ⟨.argumentOrder, content.span⟩) _
  intro c a c' hrun
  cases hlabel : labelAhead? (c.rest.map Token.kind) with
  | none =>
    rw [run_argument_of_none _ before hlabel] at hrun
    exact hvalue none hrun
  | some name =>
    rw [run_argument_of_some _ before hlabel] at hrun
    obtain ⟨mark, more, hkinds⟩ := exists_of_labelAhead? hlabel
    obtain ⟨kinds, hne, hcross⟩ := hvalue (some name) hrun
    have hskipped := Cursor.crosses_drop hkinds nofun nofun
    exact ⟨_, List.append_ne_nil_of_right_ne_nil _ hne, hskipped.trans hcross⟩

theorem moves_param : Moves param := by
  refine .of_walks fun before c m => ⟨_, (Pairing.lawful_accounting before c).walks_param,
    fun a m' ha => ?_⟩
  obtain ⟨-, kinds, rfl, hdeclared⟩ := ha
  exact ⟨kinds, hdeclared.kinds_ne_nil, rfl⟩

theorem moves_paramOf (function : String) (before : List Param) : Moves (paramOf function before) :=
  moves_param.checked _ (fun p => ⟨.parameterOrder function, p.span⟩) id

theorem moves_statementAt (n : Nat) : Moves (statementAt n) := by
  refine .of_walks fun before c m => ⟨_, (Pairing.lawful_accounting before c).walks_statementAt
    Pairing.walkExpressions_accounting n, fun a m' ha => ?_⟩
  obtain ⟨-, kinds, htaken, hsentence⟩ := ha.sentence
  exact ⟨kinds, hsentence.kinds_ne_nil, htaken⟩

theorem moves_statement : Moves statement :=
  fun c _ _ hrun => moves_statementAt c.rest.length hrun

theorem moves_block (n : Nat) : Moves (block (statementAt n)) := by
  refine .of_walks fun before c m => ?_
  have hP := Pairing.lawful_accounting before c
  have hstatements : (Pairing.accounting before c).WalkStatements c.unread (statementAt n)
      (statementAt n) := fun _ _ _ _ => hP.walks_statementAt Pairing.walkExpressions_accounting n
  refine ⟨_, hP.walks_block hstatements (Nat.le_refl _), fun a m' ha => ?_⟩
  obtain ⟨-, s, body, kinds, -, htaken, -⟩ := ha
  exact ⟨braced kinds, List.cons_ne_nil _ _, htaken⟩

end Parser
end ClipScript
