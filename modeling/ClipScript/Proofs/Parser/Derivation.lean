/-
The parser accounts for every token.

A script that is read out of tokens is derived from exactly those before the end of input
(`Program.ofTokens_derived`).  A reading beside itself is a lawful pairing in which every tree is
derived from the tokens between its two marks (`Pairing.accounting`).  A mark holds the tokens taken
so far and the names that are known there, each of them imported among these tokens.
-/
import ClipScript.Proofs.Grammar
import ClipScript.Proofs.Parser.Walk

namespace ClipScript
namespace Grammar

/-- How far a script has been taken, and the names that are known there. -/
structure Stand where
  taken : List TokenKind
  known : List String
  imports : ∀ x ∈ known, Imports taken x

namespace Stand

def after (m : Stand) (kinds : List TokenKind) : Stand where
  taken := m.taken ++ kinds
  known := m.known
  imports x hx := (m.imports x hx).append kinds

theorem after_nil (m : Stand) : m.after [] = m := by
  simp only [after, List.append_nil]

theorem after_after (m : Stand) (first second : List TokenKind) :
    (m.after first).after second = m.after (first ++ second) := by
  simp only [after, List.append_assoc]

/-- The name in an import that was taken is known. -/
def importing (m : Stand) (name : String) : Stand where
  taken := m.taken ++ [.keyword .importKw, .identifier name, .symbol .semicolon]
  known := name :: m.known
  imports x hx := by
    rcases List.mem_cons.mp hx with rfl | hx
    · exact ⟨m.taken, [], List.append_nil _⟩
    · exact (m.imports x hx).append _

/-- The tree is derived from the tokens wherever the names known here are known. -/
def Spells (m : Stand) (level : Level) (n : Node) (kinds : List TokenKind) : Prop :=
  ∀ known : String → Prop, (∀ x ∈ m.known, known x) → Phrase known level n kinds

def SpellsArguments (m : Stand) (args : List (Labelled Node)) (kinds : List TokenKind) : Prop :=
  ∀ known : String → Prop, (∀ x ∈ m.known, known x) →
    Separated (Argument (Phrase known .assignment)) args kinds

/-- An expression imports nothing, so the names known at its start are enough. -/
theorem Spells.phrase {m m' : Stand} {level : Level} {n : Node} {kinds : List TokenKind}
    (h : m'.Spells level n kinds) (hknown : m'.known = m.known) :
    Phrase (Imports m.taken) level n kinds :=
  h _ (hknown ▸ m.imports)

end Stand

theorem Separated.concat {α : Type} {item : α → List TokenKind → Prop} {l : List α} {a : α}
    {kinds own : List TokenKind} (h : Separated item l kinds) (hne : l ≠ []) (ha : item a own) :
    Separated item (l ++ [a]) (kinds ++ .symbol .comma :: own) := by
  induction h with
  | nil => exact absurd rfl hne
  | single head => exact .cons head (.single ha)
  | cons head tail ih =>
    rw [List.append_assoc, List.cons_append]
    exact .cons head (ih (List.cons_ne_nil _ _))

theorem Phrase.of_leaf? {known : String → Prop} {k : TokenKind} {v : Value} {s : Span}
    (h : k.leaf? = some v) : Phrase known .primary (.leaf s v) [k] := by
  unfold TokenKind.leaf? at h
  split at h
  · obtain ⟨x, hx, rfl⟩ := Option.map_eq_some_iff.mp h
    exact .number hx
  · cases h
    exact .string
  · cases h
    exact .boolean (b := true)
  · cases h
    exact .boolean (b := false)
  · cases h
    exact .name
  · cases h

end Grammar

open Grammar
open ClipScript.Parser (paren)

namespace Pairing

/-- A reading beside itself, from the cursor `start` and behind the tokens `before`. -/
abbrev accounting (before : List TokenKind) (start : Cursor) : Pairing where
  Mark := Stand
  cursor m c c' := c = c' ∧ c.imported = m.known ∧
    ∃ kinds, m.taken = before ++ kinds ∧ start.Crosses kinds c
  token k m s s' m' := s = s' ∧ m' = m.after [k]
  error _ _ := True
  loose := False
  expr level m n n' m' := n = n' ∧ ∃ kinds, m' = m.after kinds ∧ m.Spells level n kinds
  args m l l' m' := l = l' ∧ ∃ kinds, m' = m.after kinds ∧ m.SpellsArguments l kinds
  param m p p' m' := p = p' ∧ ∃ kinds, m' = m.after kinds ∧ Declaration p kinds
  params m l l' m' := l = l' ∧ ∃ kinds, m' = m.after kinds ∧ Separated Declaration l kinds
  stmt m n n' m' := n = n' ∧ ∃ kinds, m'.taken = m.taken ++ kinds ∧ Sentence m.taken (some n) kinds
  branch m n n' m' := n = n' ∧ ∃ found place kinds, n = found.getD (.sequence place []) ∧
    m'.taken = m.taken ++ kinds ∧ Sentence m.taken found kinds
  block m n n' m' := n = n' ∧ ∃ s body kinds, n = .sequence s body ∧
    m'.taken = m.taken ++ braced kinds ∧ Text (m.taken ++ [.symbol .leftBrace]) body kinds
  body m l l' m' := l = l' ∧ ∃ kinds, m'.taken = m.taken ++ kinds ∧ Text m.taken l kinds

variable {before : List TokenKind} {start : Cursor}

theorem accounting_steps : (accounting before start).StepLaws where
  kinds hc := hc.1 ▸ rfl
  advance {m c _} hc hne := by
    obtain ⟨rfl, himported, kinds, htaken, hcross⟩ := hc
    refine ⟨m.after [c.head.kind], ⟨rfl, rfl⟩, rfl, himported, kinds ++ [c.head.kind], ?_, ?_⟩
    · rw [← List.append_assoc, ← htaken]
      rfl
    · exact hcross.trans (Cursor.crosses_tail hne)

theorem accounting_complaints : (accounting before start).ComplaintLaws where
  unexpected _ _ := trivial
  invalidNumber _ _ _ := trivial
  argumentOrder _ := trivial
  parameterOrder _ _ := trivial
  labelled hl := hl.1 ▸ rfl
  optional hp := hp.1 ▸ rfl
  optionals hl := hl.1 ▸ rfl

section Marks

variable {m m' : (accounting before start).Mark}

theorem Skips.eq_after {kinds : List TokenKind} (h : (accounting before start).Skips kinds m m') :
    m' = Stand.after m kinds := by
  induction h with
  | nil => exact (Stand.after_nil _).symm
  | cons htoken _ ih =>
    rw [ih, htoken.2, Stand.after_after]
    rfl

theorem Called.eq_after {callee : Callee} {s s' : Span}
    (h : (accounting before start).Called m callee s s' m') :
    m' = Stand.after m (Surface.calleeKinds callee) ∧
      ∀ known : String → Prop, (∀ x ∈ Stand.known m, known x) → Admits known callee := by
  cases h with
  | named hs => exact ⟨hs.2, fun _ _ => trivial⟩
  | plugin hs hc howner hskips =>
    obtain ⟨rfl, himported, -⟩ := hc
    obtain ⟨-, rfl⟩ := hs
    rw [himported] at howner
    refine ⟨?_, fun known hknown => hknown _ howner⟩
    rw [hskips.eq_after, Stand.after_after]
    rfl

/-- Items in parentheses, and the marks around them. -/
theorem Enclosed.exists_items {α : Type}
    {items : Stand → List α → List α → Stand → Prop}
    {x x' : List α × Span} (h : (accounting before start).Enclosed items m x x' m') :
    x.2 = x'.2 ∧ ∃ m₁, items (Stand.after m [.symbol .leftParen]) x.1 x'.1 m₁ ∧
      m' = Stand.after m₁ [.symbol .rightParen] := by
  obtain ⟨m₁, m₂, hopen, hitems, hsame, rfl⟩ := h
  rw [hopen.eq_after] at hitems
  exact ⟨hsame, m₂, hitems, rfl⟩

/-- What stands before an item: the items before it, with a comma if there are any. -/
theorem Pending.exists_front {α : Type} {good : List α → List TokenKind → Prop}
    {items : (accounting before start).Mark → List α → List α →
      (accounting before start).Mark → Prop}
    {l l' : List α} (h : (accounting before start).Pending items m l l' m')
    (hitems : ∀ m₁, items m l l' m₁ → l = l' ∧ ∃ kinds, m₁ = Stand.after m kinds ∧ good l kinds) :
    l = l' ∧ ∃ front, m' = Stand.after m front ∧ ∀ item : α → List TokenKind → Prop,
      (∀ kinds, good l kinds → Separated item l kinds) →
      ∀ a own, item a own → Separated item (l ++ [a]) (front ++ own) := by
  cases h with
  | first => exact ⟨rfl, [], (Stand.after_nil _).symm, fun _ _ _ _ ha => .single ha⟩
  | next hne hbefore hcomma =>
    obtain ⟨hsame, kinds, rfl, hkinds⟩ := hitems _ hbefore
    refine ⟨hsame, kinds ++ [.symbol .comma], ?_, fun item hitem a own ha => ?_⟩
    · rw [hcomma.eq_after, Stand.after_after]
    · rw [List.append_assoc]
      exact (hitem kinds hkinds).concat hne ha

theorem Label.exists_front {label : Option String}
    (h : (accounting before start).Label m label m') :
    ∃ front, m' = Stand.after m front ∧ ∀ (phrase : Node → List TokenKind → Prop) n kinds,
      phrase n kinds → Argument phrase ⟨label, n⟩ (front ++ kinds) := by
  cases h with
  | none => exact ⟨[], (Stand.after_nil _).symm, fun _ _ _ hn => .positional hn⟩
  | some mark hskips => exact ⟨_, hskips.eq_after, fun _ _ _ hn => .named mark hn⟩

theorem Found.sentence {s s' : Span} {n n' : Option Node}
    (h : (accounting before start).Found m s s' n n' m') :
    n = n' ∧ ∃ kinds, Stand.taken m' = Stand.taken m ++ kinds ∧
      Sentence (Stand.taken m) n kinds := by
  cases h with
  | empty hs => exact ⟨rfl, _, congrArg Stand.taken hs.2, .empty⟩
  | node hn =>
    obtain ⟨rfl, hn⟩ := hn
    exact ⟨rfl, hn⟩

end Marks

theorem accounting_expressions : (accounting before start).ExpressionLaws where
  tighten hn := by
    obtain ⟨hsame, kinds, hm, hn⟩ := hn
    exact ⟨hsame, kinds, hm, fun known h => .tighten (hn known h)⟩
  leaf hk hs := ⟨hs.1 ▸ rfl, _, hs.2, fun _ _ => .of_leaf? hk⟩
  parens hopen hn hclose := by
    obtain ⟨hsame, kinds, rfl, hn⟩ := hn
    obtain rfl := hopen.eq_after
    refine ⟨hsame, paren kinds, ?_, fun known h => .parens (hn known h)⟩
    rw [hclose.eq_after]
    simp [Stand.after_after, paren]
  call {callee _ _ _ _ _ _ _} hcalled hargs := by
    obtain ⟨rfl, hadmits⟩ := hcalled.eq_after
    obtain rfl := hcalled.place (R := Eq) And.left
    obtain ⟨hclose, _, ⟨hsame, kinds, rfl, hitems⟩, rfl⟩ := hargs.exists_items
    cases Prod.ext hsame hclose
    refine ⟨rfl, Surface.calleeKinds callee ++ paren kinds, by simp [Stand.after_after, paren], ?_⟩
    exact fun known h => .call (hadmits known h) (hitems known h)
  unary hs hn := by
    obtain ⟨rfl, rfl⟩ := hs
    obtain ⟨rfl, kinds, rfl, hn⟩ := hn
    exact ⟨rfl, _ :: kinds, Stand.after_after _ _ _, fun known h => .unary (hn known h)⟩
  chain hn hdot hu := by
    obtain ⟨rfl, kinds, rfl, hn⟩ := hn
    obtain rfl := hdot.eq_after
    obtain ⟨rfl, more, rfl, hu⟩ := hu
    refine ⟨rfl, kinds ++ .symbol .dot :: more, by simp [Stand.after_after], ?_⟩
    exact fun known h => .chain (hn known h) (hu known h)
  binary {op _ _ _ _ _ _ _ _} hn hop hu := by
    obtain ⟨rfl, kinds, rfl, hn⟩ := hn
    obtain rfl := hop.eq_after
    obtain ⟨rfl, more, rfl, hu⟩ := hu
    refine ⟨rfl, kinds ++ .symbol op.symbol :: more, by simp [Stand.after_after], ?_⟩
    exact fun known h => .binary (hn known h) (hu known h)
  ternary hn hquestion hu hpipe hv := by
    obtain ⟨rfl, kinds, rfl, hn⟩ := hn
    obtain rfl := hquestion.eq_after
    obtain ⟨rfl, first, rfl, hu⟩ := hu
    obtain rfl := hpipe.eq_after
    obtain ⟨rfl, second, rfl, hv⟩ := hv
    refine ⟨rfl, kinds ++ .symbol .question :: (first ++ .symbol .pipe :: second),
      by simp [Stand.after_after], ?_⟩
    exact fun known h => .ternary (hn known h) (hu known h) (hv known h)
  assign {op _ _ _ _ _ _ _ _} hn hop hu := by
    obtain ⟨rfl, kinds, rfl, hn⟩ := hn
    obtain rfl := hop.eq_after
    obtain ⟨rfl, more, rfl, hu⟩ := hu
    refine ⟨rfl, kinds ++ .symbol op.symbol :: more, by simp [Stand.after_after], ?_⟩
    exact fun known h => .assign (hn known h) (hu known h)
  args_nil := ⟨rfl, [], (Stand.after_nil _).symm, fun _ _ => .nil⟩
  argument hbefore hlabel hn _ := by
    obtain ⟨rfl, front, rfl, hitems⟩ := hbefore.exists_front fun _ h => h
    obtain ⟨mark, rfl, hargument⟩ := hlabel.exists_front
    obtain ⟨rfl, kinds, rfl, hn⟩ := hn
    refine ⟨rfl, front ++ (mark ++ kinds), by simp [Stand.after_after], fun known h => ?_⟩
    exact hitems _ (fun _ hkinds => hkinds known h) _ _ (hargument _ _ _ (hn known h))

theorem accounting_statements : (accounting before start).StatementLaws where
  mandatory hs hu := by
    obtain ⟨rfl, rfl⟩ := hs
    obtain ⟨rfl, rfl⟩ := hu
    exact ⟨rfl, _, Stand.after_after _ _ _, .mandatory _⟩
  opted hs hkind hu := by
    obtain ⟨rfl, rfl⟩ := hs
    obtain rfl := hkind.eq_after
    obtain ⟨rfl, rfl⟩ := hu
    refine ⟨rfl, _, ?_, .optional _⟩
    simp [Stand.after_after]
  params_nil := ⟨rfl, [], (Stand.after_nil _).symm, .nil⟩
  declared hbefore hp _ := by
    obtain ⟨rfl, front, rfl, hitems⟩ := hbefore.exists_front fun _ h => h
    obtain ⟨rfl, kinds, rfl, hp⟩ := hp
    exact ⟨rfl, front ++ kinds, Stand.after_after _ _ _, hitems _ (fun _ h => h) _ _ hp⟩
  expression hn hsemicolon := by
    obtain ⟨rfl, kinds, rfl, hn⟩ := hn
    obtain rfl := hsemicolon.eq_after
    exact ⟨rfl, _, List.append_assoc _ _ _, .expression (hn.phrase rfl)⟩
  sequence hs hbody hu := by
    obtain ⟨rfl, rfl⟩ := hs
    obtain ⟨rfl, kinds, htaken, hbody⟩ := hbody
    obtain ⟨rfl, rfl⟩ := hu
    refine ⟨rfl, _, _, kinds, rfl, ?_, hbody⟩
    simp [Stand.after, htaken, braced]
  block hn := by
    obtain ⟨rfl, s, body, kinds, rfl, htaken, hbody⟩ := hn
    exact ⟨rfl, braced kinds, htaken, .block hbody⟩
  branch hfound := by
    cases hfound with
    | empty hs => exact ⟨hs.1 ▸ rfl, none, _, _, rfl, congrArg Stand.taken hs.2, .empty⟩
    | node hn =>
      obtain ⟨rfl, kinds, htaken, hn⟩ := hn
      exact ⟨rfl, some _, .nowhere, kinds, rfl, htaken, hn⟩
  ifThen hs hopen hn hclose hu := by
    obtain ⟨rfl, rfl⟩ := hs
    obtain rfl := hopen.eq_after
    obtain ⟨rfl, kinds, rfl, hn⟩ := hn
    obtain rfl := hclose.eq_after
    obtain ⟨rfl, yes, place, first, rfl, htaken, hu⟩ := hu
    refine ⟨rfl, .keyword .ifKw :: paren kinds ++ first, ?_, .ifThen (hn.phrase rfl) ?_⟩
    · rw [htaken]
      simp [Stand.after, paren]
    · simpa [Stand.after, paren] using hu
  ifElse hs hopen hn hclose hu helse hv := by
    obtain ⟨rfl, rfl⟩ := hs
    obtain rfl := hopen.eq_after
    obtain ⟨rfl, kinds, rfl, hn⟩ := hn
    obtain rfl := hclose.eq_after
    obtain ⟨rfl, yes, place, first, rfl, htaken, hu⟩ := hu
    obtain rfl := helse.eq_after
    obtain ⟨rfl, no, place', second, rfl, htaken', hv⟩ := hv
    refine ⟨rfl, .keyword .ifKw :: paren kinds ++ first ++ .keyword .elseKw :: second, ?_,
      .ifElse (hn.phrase rfl) ?_ ?_⟩
    · rw [htaken']
      simp [Stand.after, htaken, paren]
    · simpa [Stand.after, paren] using hu
    · simpa [Stand.after, htaken, paren] using hv
  functionDef {name _ _ _ _ _ _ _ _ _ _ _} hs hname hparams hn := by
    obtain ⟨rfl, rfl⟩ := hs
    obtain rfl := hname.eq_after
    obtain ⟨hclose, _, ⟨hsame, kinds, rfl, hitems⟩, rfl⟩ := hparams.exists_items
    cases Prod.ext hsame hclose
    obtain ⟨rfl, place, body, inside, rfl, htaken, hbody⟩ := hn
    refine ⟨rfl, .keyword .functionKw :: .identifier name :: paren kinds ++ braced inside, ?_,
      .functionDef hitems ?_⟩
    · rw [htaken]
      simp [Stand.after, paren]
    · simpa [Stand.after, paren] using hbody
  defaultValue hs hopen hn hclose hu := by
    obtain ⟨rfl, rfl⟩ := hs
    obtain rfl := hopen.eq_after
    obtain ⟨rfl, kinds, rfl, hn⟩ := hn
    obtain rfl := hclose.eq_after
    obtain ⟨rfl, rfl⟩ := hu
    refine ⟨rfl, _, ?_, .defaultValue (hn.phrase rfl)⟩
    simp [Stand.after, paren]
  returnNothing hs hu := by
    obtain ⟨rfl, rfl⟩ := hs
    obtain ⟨rfl, rfl⟩ := hu
    exact ⟨rfl, _, List.append_assoc _ _ _, .returnNothing⟩
  returnValue hs hn hu := by
    obtain ⟨rfl, rfl⟩ := hs
    obtain ⟨rfl, kinds, rfl, hn⟩ := hn
    obtain ⟨rfl, rfl⟩ := hu
    refine ⟨rfl, _, ?_, .returnValue (hn.phrase rfl)⟩
    simp [Stand.after]
  importName {name m _ _ _ _ _ _ _ _ _} hs hname hu hc := by
    obtain ⟨rfl, rfl⟩ := hs
    obtain rfl := hname.eq_after
    obtain ⟨rfl, rfl⟩ := hu
    obtain ⟨rfl, himported, kinds, htaken, hcross⟩ := hc
    refine ⟨Stand.importing m name, ⟨rfl, _, rfl, .importName⟩, rfl,
      congrArg (name :: ·) himported, kinds, ?_, hcross.rest, hcross.ordinary⟩
    rw [← htaken]
    simp [Stand.importing, Stand.after]
  body_nil := ⟨rfl, [], (List.append_nil _).symm, .nil⟩
  body_cons hfound hl := by
    obtain ⟨rfl, more, htaken, hl⟩ := hl
    obtain ⟨rfl, kinds, htaken', hn⟩ := hfound.sentence
    rw [htaken'] at htaken hl
    exact ⟨rfl, kinds ++ more, htaken.trans (List.append_assoc _ _ _), .cons hn hl⟩

theorem lawful_accounting (before : List TokenKind) (start : Cursor) :
    (accounting before start).Lawful where
  toStepLaws := accounting_steps
  toComplaintLaws := accounting_complaints
  toExpressionLaws := accounting_expressions
  toStatementLaws := accounting_statements

theorem sameImports_accounting : (accounting before start).SameImports :=
  fun _ _ _ hc => congrArg _ hc.1

theorem walkExpressions_accounting : (accounting before start).WalkExpressions :=
  fun _ _ _ => (lawful_accounting before start).walks_expression sameImports_accounting

end Pairing

namespace Parser

variable {before : List TokenKind} {c c' : Cursor}

/-- What a run takes, behind tokens that import all names known where it starts. -/
theorem exists_mark_of_run {α : Type} {p : Parser α} {a : α}
    {good : α → α → Stand → Prop} (hknown : ∀ x ∈ c.imported, Imports before x)
    (h : (Pairing.accounting before c).Walks ⟨before, c.imported, hknown⟩ c c p p good)
    (hrun : p.run c = .ok (a, c')) :
    ∃ (m : Stand) (kinds : List TokenKind), good a a m ∧ m.taken = before ++ kinds ∧
      c.Crosses kinds c' ∧ c'.imported = m.known := by
  have hstart : (Pairing.accounting before c).cursor ⟨before, c.imported, hknown⟩ c c :=
    ⟨rfl, rfl, [], (List.append_nil _).symm, .refl c⟩
  obtain ⟨m, ha, ⟨-, himported, kinds, htaken, hcross⟩, -⟩ := h.of_both hstart hrun hrun
  exact ⟨m, kinds, ha, htaken, hcross, himported⟩

/-- A statement is derived from the tokens taken for it, which hold the imports it makes known. -/
theorem sentence_of_run_statement {first : Option Node}
    (hknown : ∀ x ∈ c.imported, Imports before x) (hrun : statement.run c = .ok (first, c')) :
    ∃ kinds, c.Crosses kinds c' ∧ (∀ x ∈ c'.imported, Imports (before ++ kinds) x) ∧
      Sentence before first kinds := by
  have hP := Pairing.lawful_accounting before c
  obtain ⟨m, kinds, hfound, htaken, hcross, himported⟩ := exists_mark_of_run hknown
    (hP.walks_statement Pairing.walkExpressions_accounting) hrun
  obtain ⟨-, kinds', htaken', hsentence⟩ := hfound.sentence
  obtain rfl : kinds' = kinds := List.append_cancel_left (htaken'.symm.trans htaken)
  refine ⟨kinds', hcross, fun x hx => ?_, hsentence⟩
  rw [himported] at hx
  exact htaken ▸ m.imports x hx

/-- Statements are taken up to the end of input, because each takes at least one token and there
are as many rounds as tokens. -/
theorem derived_of_run_statements {n : Nat} (before : List TokenKind) {c c' : Cursor}
    {body : List Node} (hknown : ∀ x ∈ c.imported, Imports before x) (hn : c.rest.length ≤ n)
    (hrun : (statements n).run c = .ok (body, c')) :
    ∃ kinds, c.Crosses kinds c' ∧ c'.head.kind = .eof ∧ Text before body kinds := by
  induction n generalizing before c body with
  | zero =>
    cases hrun
    have hrest : c'.rest = [] := List.eq_nil_of_length_eq_zero (by omega)
    exact ⟨[], .refl c', by rw [Cursor.head, hrest]; rfl, .nil⟩
  | succ n ih =>
    obtain ⟨done, d, hcheck, hrun⟩ := exists_of_run_bind hrun
    cases hcheck
    split at hrun
    · next hend =>
      cases hrun
      exact ⟨[], .refl c', eq_of_beq hend, .nil⟩
    · obtain ⟨first, c₁, hfirst, hrun⟩ := exists_of_run_bind hrun
      obtain ⟨rest, c₂, hrest, hrun⟩ := exists_of_run_bind hrun
      cases hrun
      obtain ⟨kinds, hcross, hknown₁, hsentence⟩ := sentence_of_run_statement hknown hfirst
      have hlt := hcross.length_lt hsentence.kinds_ne_nil
      obtain ⟨more, hcross', hend, htext⟩ := ih _ hknown₁ (by omega) hrest
      exact ⟨kinds ++ more, hcross.trans hcross', hend, .cons hsentence htext⟩

end Parser

theorem Program.exists_text {tokens : List Token} {program : Program}
    (h : Program.ofTokens tokens = .ok program) :
    ∃ kinds c', (Cursor.start tokens).Crosses kinds c' ∧ c'.head.kind = .eof ∧
      Text [] program.statements kinds := by
  obtain ⟨c', hrun⟩ := Parser.run_statements_of_ofTokens h
  have hstart : ∀ x ∈ (Cursor.start tokens).imported, Imports [] x := fun _ hx => nomatch hx
  obtain ⟨kinds, hcross, hend, htext⟩ :=
    Parser.derived_of_run_statements [] hstart (Nat.le_refl _) hrun
  exact ⟨kinds, c', hcross, hend, htext⟩

/-- Every token before the end of input is accounted for in the script that was read. -/
theorem Program.ofTokens_derived {tokens : List Token} {program : Program}
    (h : Program.ofTokens tokens = .ok program) :
    Text [] program.statements ((tokens.takeWhile (·.kind ≠ .eof)).map Token.kind) := by
  obtain ⟨kinds, c', hcross, hend, htext⟩ := Program.exists_text h
  have hkinds : (tokens.takeWhile (·.kind ≠ .eof)).map Token.kind = kinds :=
    hcross.map_takeWhile hend
  rw [hkinds]
  exact htext

def Grammar.pluginCall : List TokenKind :=
  [.keyword .importKw, .identifier "p", .symbol .semicolon, .symbol .semicolon, .identifier "p",
    .symbol .dot, .identifier "f", .symbol .leftParen, .symbol .leftParen, .identifier "x",
    .symbol .rightParen, .symbol .comma, .identifier "k", .symbol .equals, .identifier "y",
    .symbol .rightParen, .symbol .semicolon]

theorem Program.ofTokens_derived_pluginCall :
    ∃ program, Program.ofTokens ((pluginCall ++ [TokenKind.eof, .symbol .comma]).map
        (⟨·, .nowhere⟩)) = .ok program ∧ Text [] program.statements pluginCall := by
  have hread : (Program.ofTokens ((pluginCall ++ [TokenKind.eof, .symbol .comma]).map
      (⟨·, .nowhere⟩))).isOk := by decide +kernel
  cases hprogram : Program.ofTokens ((pluginCall ++ [TokenKind.eof, .symbol .comma]).map
      (⟨·, .nowhere⟩)) with
  | error e =>
    rw [hprogram] at hread
    cases hread
  | ok program => exact ⟨program, rfl, Program.ofTokens_derived hprogram⟩

end ClipScript
