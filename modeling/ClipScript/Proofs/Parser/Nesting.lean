/-
Scripts are read as trees whose spans nest.

A reading beside itself is a lawful pairing whose marks are bytes (`Pairing.nesting`).  None of the
tokens ahead begins before the byte at which a cursor is marked, and every part of the grammar lies
between the bytes of its two marks.  So what a node was read from is a list of spans, in turn.
-/
import ClipScript.Proofs.Lexer.Layout
import ClipScript.Proofs.Node.Nested
import ClipScript.Proofs.Parser.Forms

namespace ClipScript

/-- No token ahead begins before the byte `lower` or before the one ahead of it has ended, and only
an end of input is empty. -/
structure Cursor.Beyond (lower : Nat) (c : Cursor) : Prop where
  lower_le : ∀ t ∈ c.rest, lower ≤ t.span.start
  start_lt : ∀ t ∈ c.rest, t.kind ≠ .eof → t.span.start < t.span.stop
  ordered : c.rest.Pairwise (·.span.stop ≤ ·.span.start)

namespace Cursor.Beyond

variable {lower : Nat} {c : Cursor}

theorem step (h : c.Beyond lower) (hne : c.head.kind ≠ .eof) :
    c.head.span.Within lower c.head.span.stop ∧
      { c with rest := c.rest.tail }.Beyond c.head.span.stop := by
  have hrest := rest_eq_cons hne
  have hmem : c.head ∈ c.rest := by
    rw [hrest]
    exact List.mem_cons_self
  have hordered := h.ordered
  rw [hrest, List.pairwise_cons] at hordered
  refine ⟨⟨h.lower_le _ hmem, h.start_lt _ hmem hne, Nat.le_refl _⟩, hordered.1, ?_, hordered.2⟩
  exact fun t ht => h.start_lt t (List.mem_of_mem_tail ht)

/-- Unless it is the end of input, no token ahead begins before the next one. -/
theorem head (h : c.Beyond lower) (hne : c.head.kind ≠ .eof) : c.Beyond c.head.span.start := by
  obtain ⟨hhead, htail⟩ := h.step hne
  refine ⟨?_, h.start_lt, h.ordered⟩
  rw [rest_eq_cons hne]
  refine List.forall_mem_cons.mpr ⟨Nat.le_refl _, fun t ht => ?_⟩
  have := hhead.start_lt
  have := htail.lower_le t ht
  omega

end Cursor.Beyond

namespace Pairing

open ClipScript.Span (InTurn)

abbrev nesting : Pairing where
  Mark := Nat
  cursor m c c' := c = c' ∧ c.Beyond m
  token _ m s s' m' := s = s' ∧ s.Within m m'
  error _ _ := True
  loose := False
  expr _ m n n' m' := n = n' ∧ n.Laid m m'
  args m l l' m' := l = l' ∧ Node.LaidAll m (l.map (·.content)) m'
  param m p p' m' := p = p' ∧ p.span.Within m m'
  params m l l' m' := l = l' ∧ InTurn m (l.map Param.span) m'
  stmt m n n' m' := n = n' ∧ n.Laid m m'
  branch m n n' m' := n = n' ∧ n.Laid m m'
  block m n n' m' := n = n' ∧ n.Laid m m'
  body m l l' m' := l = l' ∧ Node.LaidAll m l m'

theorem nesting_steps : nesting.StepLaws where
  kinds hc := hc.1 ▸ rfl
  advance hc hne := by
    obtain ⟨rfl, hc⟩ := hc
    obtain ⟨hwithin, htail⟩ := hc.step hne
    exact ⟨_, ⟨rfl, hwithin⟩, rfl, htail⟩

theorem nesting_complaints : nesting.ComplaintLaws where
  unexpected _ _ := trivial
  invalidNumber _ _ _ := trivial
  argumentOrder _ := trivial
  parameterOrder _ _ := trivial
  labelled hl := hl.1 ▸ rfl
  optional hp := hp.1 ▸ rfl
  optionals hl := hl.1 ▸ rfl

section Marks

variable {m m' : nesting.Mark}

theorem Skips.le {kinds : List TokenKind} (h : nesting.Skips kinds m m') : (m : Nat) ≤ m' := by
  induction h with
  | nil => exact Nat.le_refl _
  | cons htoken _ ih => exact Nat.le_trans htoken.2.le ih

theorem Called.within {callee : Callee} {s s' : Span} (h : nesting.Called m callee s s' m') :
    s = s' ∧ s.Within m m' := by
  cases h with
  | named hs => exact hs
  | plugin hs _ _ hskips => exact ⟨hs.1, hs.2.mono (Nat.le_refl _) hskips.le⟩

theorem Label.le {label : Option String} (h : nesting.Label m label m') : (m : Nat) ≤ m' := by
  cases h with
  | none => exact Nat.le_refl _
  | some _ hskips => exact hskips.le

/-- Items lie in front of the comma behind them, too. -/
theorem Pending.items {α : Type} {items : nesting.Mark → List α → List α → nesting.Mark → Prop}
    {l l' : List α} (h : nesting.Pending items m l l' m') (hnil : items m [] [] m)
    (hmono : ∀ {m₁ m₂ : Nat}, items m l l' m₁ → m₁ ≤ m₂ → items m l l' m₂) : items m l l' m' := by
  cases h with
  | first => exact hnil
  | next _ hitems hcomma => exact hmono hitems hcomma.le

end Marks

theorem nesting_expressions : nesting.ExpressionLaws where
  tighten hn := hn
  leaf _ hs := ⟨hs.1 ▸ rfl, Node.laid_of_parts_nil rfl rfl hs.2⟩
  parens hopen hn hclose := ⟨hn.1, hn.2.mono hopen.le hclose.le⟩
  call hcalled hargs := by
    obtain ⟨rfl, hs⟩ := hcalled.within
    obtain ⟨_, _, hopen, ⟨hsame, hitems⟩, hclose, hfinish⟩ := hargs
    cases Prod.ext hsame hclose
    exact ⟨rfl, Node.laid_between hs (hitems.mono hopen.le (Nat.le_refl _)) hfinish rfl rfl⟩
  unary hs hn := by
    refine ⟨hs.1 ▸ hn.1 ▸ rfl, ?_⟩
    exact Node.laid_from [] hs.2 rfl (.singleton hn.2.place) rfl
      (List.forall_mem_singleton.mpr hn.2.nested)
  chain hn hdot hu := by
    have hu' := hu.2.mono hdot.le (Nat.le_refl _)
    exact ⟨hn.1 ▸ hu.1 ▸ rfl, Node.laid_of_parts [] (.cons hn.2 (.singleton hu')) rfl rfl rfl⟩
  binary hn hop hu := by
    have hu' := hu.2.mono hop.le (Nat.le_refl _)
    exact ⟨hn.1 ▸ hu.1 ▸ rfl, Node.laid_of_parts [] (.cons hn.2 (.singleton hu')) rfl rfl rfl⟩
  ternary {_ _ _ _ _ _ _ _ u _ _ _} hn hquestion hu hpipe hv := by
    have hu' := hu.2.mono hquestion.le (Nat.le_refl _)
    have hv' := hv.2.mono hpipe.le (Nat.le_refl _)
    refine ⟨hn.1 ▸ hu.1 ▸ hv.1 ▸ rfl, ?_⟩
    exact Node.laid_of_parts [u] (.cons hn.2 (.cons hu' (.singleton hv'))) rfl rfl rfl
  assign hn hop hu := by
    have hu' := hu.2.mono hop.le (Nat.le_refl _)
    exact ⟨hn.1 ▸ hu.1 ▸ rfl, Node.laid_of_parts [] (.cons hn.2 (.singleton hu')) rfl rfl rfl⟩
  args_nil := ⟨rfl, .nil (Nat.le_refl _)⟩
  argument hbefore hlabel hn _ := by
    obtain ⟨hsame, hl⟩ := hbefore.items ⟨rfl, .nil (Nat.le_refl _)⟩
      fun h hle => ⟨h.1, h.2.mono (Nat.le_refl _) hle⟩
    refine ⟨hsame ▸ hn.1 ▸ rfl, ?_⟩
    rw [List.map_append]
    exact hl.append (.singleton (hn.2.mono hlabel.le (Nat.le_refl _)))

theorem nesting_statements : nesting.StatementLaws where
  mandatory hs hu := ⟨hs.1 ▸ hu.1 ▸ rfl, hs.2.merge hu.2⟩
  opted hs hkind hu := ⟨hs.1 ▸ hu.1 ▸ rfl, hs.2.merge (hu.2.mono hkind.le (Nat.le_refl _))⟩
  params_nil := ⟨rfl, Nat.le_refl _⟩
  declared hbefore hp _ := by
    obtain ⟨hsame, hl⟩ := hbefore.items ⟨rfl, Nat.le_refl _⟩
      fun h hle => ⟨h.1, h.2.mono (Nat.le_refl _) hle⟩
    refine ⟨hsame ▸ hp.1 ▸ rfl, ?_⟩
    rw [List.map_append]
    exact hl.append (.singleton hp.2)
  expression hn hsemicolon := ⟨hn.1, hn.2.mono (Nat.le_refl _) hsemicolon.le⟩
  sequence hs hbody hu :=
    ⟨hs.1 ▸ hbody.1 ▸ hu.1 ▸ rfl, Node.laid_between hs.2 hbody.2 hu.2 rfl rfl⟩
  block hn := hn
  branch hfound := by
    cases hfound with
    | empty hs => exact ⟨hs.1 ▸ rfl, Node.laid_of_parts_nil rfl rfl hs.2⟩
    | node hn => exact hn
  ifThen {_ _ _ _ _ _ _ _ n _ _ _} hs hopen hn hclose hu := by
    have hparts : Node.LaidAll _ [n, _] _ :=
      .cons (hn.2.mono hopen.le hclose.le) (.singleton hu.2)
    refine ⟨hs.1 ▸ hn.1 ▸ hu.1 ▸ rfl, ?_⟩
    exact Node.laid_from [_] hs.2 rfl hparts.places rfl hparts.nested
  ifElse {_ _ _ _ _ _ _ _ _ _ n _ u _ _ _} hs hopen hn hclose hu helse hv := by
    have hparts : Node.LaidAll _ [n, u, _] _ := .cons (hn.2.mono hopen.le hclose.le)
      (.cons hu.2 (.singleton (hv.2.mono helse.le (Nat.le_refl _))))
    refine ⟨hs.1 ▸ hn.1 ▸ hu.1 ▸ hv.1 ▸ rfl, ?_⟩
    exact Node.laid_from [_, _] hs.2 rfl hparts.places rfl hparts.nested
  functionDef hs hname hparams hn := by
    obtain ⟨_, _, hopen, ⟨hsame, hitems⟩, hclose, hfinish⟩ := hparams
    cases Prod.ext hsame hclose
    have hparams := hitems.mono (Nat.le_trans hname.le hopen.le) hfinish.le
    refine ⟨hs.1 ▸ hn.1 ▸ rfl, ?_⟩
    exact Node.laid_from _ hs.2 rfl (hparams.append (.singleton hn.2.place)) rfl
      (List.forall_mem_singleton.mpr hn.2.nested)
  defaultValue hs hopen hn hclose hu := by
    have hvalue := Node.LaidAll.singleton (hn.2.mono hopen.le hclose.le)
    exact ⟨hs.1 ▸ hn.1 ▸ hu.1 ▸ rfl, Node.laid_between hs.2 hvalue hu.2 rfl rfl⟩
  returnNothing hs hu :=
    ⟨hs.1 ▸ hu.1 ▸ rfl, Node.laid_between hs.2 (.nil (Nat.le_refl _)) hu.2 rfl rfl⟩
  returnValue hs hn hu :=
    ⟨hs.1 ▸ hn.1 ▸ hu.1 ▸ rfl, Node.laid_between hs.2 (.singleton hn.2) hu.2 rfl rfl⟩
  importName hs hname hu hc := by
    obtain ⟨rfl, hc⟩ := hc
    refine ⟨_, ⟨hs.1 ▸ hu.1 ▸ rfl, ?_⟩, rfl, hc.lower_le, hc.start_lt, hc.ordered⟩
    exact Node.laid_between hs.2 (.nil hname.le) hu.2 rfl rfl
  body_nil := ⟨rfl, .nil (Nat.le_refl _)⟩
  body_cons hfound hl := by
    cases hfound with
    | empty hs => exact ⟨hl.1, hl.2.mono hs.2.le (Nat.le_refl _)⟩
    | node hn => exact ⟨hn.1 ▸ hl.1 ▸ rfl, .cons hn.2 hl.2⟩

theorem lawful_nesting : nesting.Lawful where
  toStepLaws := nesting_steps
  toComplaintLaws := nesting_complaints
  toExpressionLaws := nesting_expressions
  toStatementLaws := nesting_statements

theorem walkExpressions_nesting : nesting.WalkExpressions :=
  fun _ _ _ => lawful_nesting.walks_expression fun _ _ _ hc => congrArg _ hc.1

end Pairing

/-- The span of a script begins at its first token and ends with its last statement. -/
theorem Program.nested_of_ofTokens {tokens : List Token} {program : Program}
    (htokens : (Cursor.start tokens).Beyond 0) (h : Program.ofTokens tokens = .ok program) :
    program.span.Surrounds (program.statements.map Node.span) ∧
      ∀ statement ∈ program.statements, statement.Nested := by
  obtain ⟨_, hrun⟩ := Parser.exists_of_run' h
  generalize Cursor.start tokens = c at htokens hrun
  obtain ⟨_, _, hpeek, hrun⟩ := Parser.exists_of_run_bind hrun
  cases hpeek
  obtain ⟨_, _, hremaining, hrun⟩ := Parser.exists_of_run_bind hrun
  cases hremaining
  obtain ⟨body, c', hbody, hrun⟩ := Parser.exists_of_run_bind hrun
  cases hrun
  rcases List.eq_nil_or_concat' body with rfl | ⟨before, last, rfl⟩
  · exact ⟨.nil, List.forall_mem_nil _⟩
  · have hne : c.head.kind ≠ .eof := by
      intro hend
      rw [Parser.run_statements_eof hend] at hbody
      simp at hbody
    have hstart : Pairing.nesting.cursor c.head.span.start c c := ⟨rfl, htokens.head hne⟩
    obtain ⟨upper, ⟨-, hlaid⟩, -, -⟩ := Pairing.Walks.of_both
      (Pairing.lawful_nesting.walks_statements Pairing.walkExpressions_nesting _) hstart hbody hbody
    have hplaces := hlaid.places
    refine ⟨?_, hlaid.nested⟩
    rw [List.getLast?_concat]
    dsimp only
    rw [List.map_append] at hplaces ⊢
    exact hplaces.surrounds_merge

/-- The tokens of a text lie one behind the other. -/
theorem Lexer.beyond_of_lex {source : String} {tokens : List Token}
    (h : Lexer.lex source = .ok tokens) : (Cursor.start tokens).Beyond 0 := by
  obtain ⟨mark, text, words, -, hsource, hwords, rfl⟩ := Lexer.exists_layout h
  have hstop : ∀ t ∈ words, t.span.stop ≤ (Text.Position.start.after source.toList).offset := by
    intro t ht
    obtain ⟨before, word, rest, hsplit, -, -, -, hstop⟩ := hwords.exists_of_mem_source hsource ht
    rw [hstop, Text.Position.after_start, hsplit, String.utf8Len_append, String.utf8Len_append]
    exact Nat.le_add_right _ _
  refine ⟨fun _ _ => Nat.zero_le _, fun t ht hne => ?_, ?_⟩
  · rcases List.mem_append.mp ht with ht | ht
    · obtain ⟨before, word, rest, -, hword, -, hstart, hstop⟩ :=
        hwords.exists_of_mem_source hsource ht
      have := hword.utf8Len_pos
      omega
    · rw [List.mem_singleton.mp ht] at hne
      exact absurd rfl hne
  · refine List.pairwise_append.mpr ⟨hwords.pairwise, List.pairwise_singleton _ _, ?_⟩
    intro t ht e he
    rw [List.mem_singleton.mp he]
    exact hstop t ht

/-- The spans of a script nest.  Its own span has its statements in it, and the span of each tree in
these has in it what the tree is made of, one after the other in the order of the text. -/
theorem Program.spans_nest {source : String} {program : Program}
    (h : Program.ofSource source = .ok program) :
    program.span.Surrounds (program.statements.map Node.span) ∧
      ∀ statement ∈ program.statements, ∀ n ∈ statement.subtrees,
        n.span.Surrounds n.partSpans := by
  unfold Program.ofSource at h
  split at h
  · cases h
  · next tokens htokens =>
    split at h
    · cases h
    · next found hfound =>
      cases h
      obtain ⟨hspan, hnested⟩ := Program.nested_of_ofTokens (Lexer.beyond_of_lex htokens) hfound
      exact ⟨hspan, fun statement hstatement n hn => (hnested statement hstatement n hn).surrounds⟩

/-- A parenthesis that no span shows, an empty branch and a function with a parameter. -/
theorem Program.spans_nest_function :
    ∃ program, Program.ofSource "function f(opt num x)\x7bif((x));else x=-f();\x7d" = .ok program ∧
      program.span.Surrounds (program.statements.map Node.span) ∧
      ∀ statement ∈ program.statements, ∀ n ∈ statement.subtrees,
        n.span.Surrounds n.partSpans := by
  have hread : (Program.ofSource
      "function f(opt num x)\x7bif((x));else x=-f();\x7d").toOption.any fun _ => true := by
    decide +kernel
  obtain ⟨program, hprogram, -⟩ := Program.exists_of_any hread
  exact ⟨program, hprogram, Program.spans_nest hprogram⟩

end ClipScript
