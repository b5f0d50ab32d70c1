/-
Scripts are read as trees in good form.

Expressions are read as operands and statements as statements, and the two checks of the grammar, on
arguments and on parameters, put these in order.  A reading beside itself is a lawful pairing that
says so (`Pairing.forming`), and so every script is in good form (`Program.formed_of_ofSource`).
Its tokens stay among those that it started with, so a number without a value that it complains of
is one of these (`Program.exists_number_of_ofTokens`).
-/
import ClipScript.Proofs.Node.Formed
import ClipScript.Proofs.Parser.Walk
import ClipScript.Script

namespace ClipScript

abbrev Node.IsOperand (n : Node) : Prop := n.Formed (fun _ => True) .operand

abbrev Node.IsStatement (n : Node) : Prop := n.Formed (fun _ => True) .statement

def Labelled.AreArguments (args : List (Labelled Node)) : Prop :=
  Labelled.Ordered args ∧ ∀ a ∈ args, a.content.IsOperand

/-- An argument that passes the check is in order behind those before it. -/
theorem Labelled.AreArguments.concat {args : List (Labelled Node)} (h : AreArguments args)
    {label : Option String} {n : Node} (hn : n.IsOperand)
    (hfine : (label.isNone && args.any (·.label.isSome)) = false) :
    AreArguments (args ++ [⟨label, n⟩]) := by
  refine ⟨h.1.concat fun b hb hlabel => ?_, ?_⟩
  · -- were it unnamed, the check would have found `b`
    cases label with
    | some name => rfl
    | none =>
      have hany : args.any (·.label.isSome) = true := List.any_eq_true.mpr ⟨b, hb, hlabel⟩
      rw [hany] at hfine
      cases hfine
  · intro b hb
    rcases List.mem_append.mp hb with hb | hb
    · exact h.2 b hb
    · rw [List.mem_singleton.mp hb]
      exact hn

theorem Param.Ordered.concat_of_check {params : List Param} (h : Ordered params) {p : Param}
    (hfine : (!p.optional && params.any (·.optional)) = false) : Ordered (params ++ [p]) := by
  refine h.concat fun q hq hoptional => ?_
  cases hp : p.optional with
  | true => rfl
  | false =>
    have hany : params.any (·.optional) = true := List.any_eq_true.mpr ⟨q, hq, hoptional⟩
    rw [hp, hany] at hfine
    cases hfine

namespace Pairing

variable {tokens : List Token}

/-- A reading of these tokens beside itself, whose trees are in good form. -/
def forming (tokens : List Token) : Pairing where
  Mark := Unit
  cursor _ c c' := c = c' ∧ c.rest ⊆ tokens
  token _ _ s s' _ := s = s'
  error e e' := e = e' ∧ ∀ digits, e.fault = .invalidNumber digits →
    Decimal.read? digits = none ∧ ∃ t ∈ tokens, t.kind = .number digits
  loose := False
  expr _ _ n n' _ := n = n' ∧ n.IsOperand
  args _ l l' _ := l = l' ∧ Labelled.AreArguments l
  param _ p p' _ := p = p'
  params _ l l' _ := l = l' ∧ Param.Ordered l
  stmt _ n n' _ := n = n' ∧ n.IsStatement
  branch _ n n' _ := n = n' ∧ n.IsStatement
  block _ n n' _ := n = n' ∧ n.IsStatement
  body _ l l' _ := l = l' ∧ ∀ n ∈ l, n.IsStatement

theorem forming_steps : (forming tokens).StepLaws where
  kinds hc := hc.1 ▸ rfl
  advance hc _ := by
    obtain ⟨rfl, hrest⟩ := hc
    exact ⟨⟨⟩, rfl, rfl, fun _ ht => hrest (List.mem_of_mem_tail ht)⟩

theorem forming_complaints : (forming tokens).ComplaintLaws where
  unexpected _ hc := ⟨hc.1 ▸ rfl, nofun⟩
  invalidNumber {_ c _ _} hc hkind hnone := by
    obtain ⟨rfl, hrest⟩ := hc
    have hmem : c.head ∈ c.rest := by
      rw [Cursor.rest_eq_cons (by rw [hkind]; nofun)]
      exact List.mem_cons_self
    refine ⟨rfl, fun digits hdigits => ?_⟩
    cases hdigits
    exact ⟨hnone, c.head, hrest hmem, hkind⟩
  argumentOrder hn := ⟨hn.1 ▸ rfl, nofun⟩
  parameterOrder _ hp := ⟨hp ▸ rfl, nofun⟩
  labelled hl := hl.1 ▸ rfl
  optional hp := hp ▸ rfl
  optionals hl := hl.1 ▸ rfl

theorem forming_expressions : (forming tokens).ExpressionLaws where
  tighten hn := hn
  leaf _ hs := ⟨hs ▸ rfl, .leaf⟩
  parens _ hn _ := hn
  call hcalled hargs := by
    obtain rfl := hcalled.place (R := Eq) id
    obtain ⟨_, _, _, ⟨hsame, hordered, hoperands⟩, hclose⟩ := hargs
    cases Prod.ext hsame hclose
    exact ⟨rfl, .call hordered hoperands⟩
  unary hs hn := ⟨hs ▸ hn.1 ▸ rfl, .unary hn.2⟩
  chain hn _ hu := ⟨hn.1 ▸ hu.1 ▸ rfl, .chain hn.2 hu.2⟩
  binary hn _ hu := ⟨hn.1 ▸ hu.1 ▸ rfl, .binary hn.2 hu.2⟩
  ternary hn _ hu _ hv := ⟨hn.1 ▸ hu.1 ▸ hv.1 ▸ rfl, .ternary hn.2 hu.2 hv.2⟩
  assign hn _ hu := ⟨hn.1 ▸ hu.1 ▸ rfl, .assign hn.2 hu.2⟩
  args_nil := ⟨rfl, .nil, List.forall_mem_nil _⟩
  argument hbefore _ hn hfine := by
    obtain ⟨_, hsame, hl⟩ := hbefore.exists_items ⟨rfl, .nil, List.forall_mem_nil _⟩
    exact ⟨hsame ▸ hn.1 ▸ rfl, hl.concat hn.2 hfine⟩

theorem forming_statements : (forming tokens).StatementLaws where
  mandatory hs hu := hs ▸ hu ▸ rfl
  opted hs _ hu := hs ▸ hu ▸ rfl
  params_nil := ⟨rfl, .nil⟩
  declared hbefore hp hfine := by
    obtain ⟨_, hsame, hl⟩ := hbefore.exists_items ⟨rfl, .nil⟩
    exact ⟨hsame ▸ hp ▸ rfl, hl.concat_of_check hfine⟩
  expression hn _ := ⟨hn.1, .alone hn.2⟩
  sequence hs hbody hu := ⟨hs ▸ hbody.1 ▸ hu ▸ rfl, .sequence hbody.2⟩
  block hn := hn
  branch hfound := by
    cases hfound with
    | empty hs => exact ⟨hs ▸ rfl, .sequence (List.forall_mem_nil _)⟩
    | node hn => exact hn
  ifThen hs _ hn _ hu :=
    ⟨hs ▸ hn.1 ▸ hu.1 ▸ rfl, .ifElse hn.2 hu.2 fun _ h => absurd h (Option.not_mem_none _)⟩
  ifElse hs _ hn _ hu _ hv := by
    refine ⟨hs ▸ hn.1 ▸ hu.1 ▸ hv.1 ▸ rfl, .ifElse hn.2 hu.2 fun n hn => ?_⟩
    rw [← Option.mem_some.mp hn]
    exact hv.2
  functionDef hs _ hparams hn := by
    obtain ⟨_, _, _, ⟨hsame, hordered⟩, hclose⟩ := hparams
    cases Prod.ext hsame hclose
    exact ⟨hs ▸ hn.1 ▸ rfl, .functionDef hordered hn.2⟩
  defaultValue hs _ hn _ hu := ⟨hs ▸ hn.1 ▸ hu ▸ rfl, .defaultValue hn.2⟩
  returnNothing hs hu :=
    ⟨hs ▸ hu ▸ rfl, .returnValue fun _ h => absurd h (Option.not_mem_none _)⟩
  returnValue hs hn hu := by
    refine ⟨hs ▸ hn.1 ▸ hu ▸ rfl, .returnValue fun n hmem => ?_⟩
    rw [← Option.mem_some.mp hmem]
    exact hn.2
  importName hs _ hu hc := ⟨⟨⟩, ⟨hs ▸ hu ▸ rfl, .importName trivial⟩, hc.1 ▸ rfl, hc.2⟩
  body_nil := ⟨rfl, List.forall_mem_nil _⟩
  body_cons hfound hl := by
    cases hfound with
    | empty _ => exact hl
    | node hn => exact ⟨hn.1 ▸ hl.1 ▸ rfl, List.forall_mem_cons.mpr ⟨hn.2, hl.2⟩⟩

theorem lawful_forming : (forming tokens).Lawful where
  toStepLaws := forming_steps
  toComplaintLaws := forming_complaints
  toExpressionLaws := forming_expressions
  toStatementLaws := forming_statements

theorem walks_program_forming (tokens : List Token) :
    (forming tokens).Walks ⟨⟩ (.start tokens) (.start tokens) Parser.program Parser.program
      fun p p' m' => (forming tokens).body m' p.statements p'.statements m' :=
  lawful_forming.walks_program fun _ _ _ =>
    lawful_forming.walks_expression fun _ _ _ hc => congrArg _ hc.1

end Pairing

theorem Program.formed_of_ofTokens {tokens : List Token} {program : Program}
    (h : Program.ofTokens tokens = .ok program) :
    ∀ n ∈ program.statements, n.Formed (fun _ => True) .statement := by
  obtain ⟨_, hrun⟩ := Parser.exists_of_run' h
  obtain ⟨_, hbody, -, -⟩ := (Pairing.walks_program_forming tokens).of_both
    ⟨rfl, List.Subset.refl _⟩ hrun hrun
  exact hbody.2

/-- A complaint about a number is about one of the tokens, which has no value. -/
theorem Program.exists_number_of_ofTokens {tokens : List Token} {e : ParseError} {digits : String}
    (h : ofTokens tokens = .error e) (hfault : e.fault = .invalidNumber digits) :
    Decimal.read? digits = none ∧ ∃ t ∈ tokens, t.kind = .number digits := by
  have hrun := Parser.run'_eq_error_iff.mp h
  have herror := (Pairing.walks_program_forming tokens).of_errors id ⟨rfl, List.Subset.refl _⟩
    hrun hrun
  exact herror.2 digits hfault

/-- A script is read as statements in good form. -/
theorem Program.formed_of_ofSource {source : String} {program : Program}
    (h : Program.ofSource source = .ok program) :
    ∀ n ∈ program.statements, n.Formed (fun _ => True) .statement := by
  unfold Program.ofSource at h
  split at h
  · cases h
  · split at h
    · cases h
    · next found hfound =>
      cases h
      exact Program.formed_of_ofTokens hfound

/-- What is known of the program that a text spells is known because there is one. -/
theorem Program.exists_of_any {r : Except RuntimeError Program} {check : Program → Bool}
    (h : r.toOption.any check) : ∃ program, r = .ok program ∧ check program := by
  cases r with
  | error e => cases h
  | ok program => exact ⟨program, rfl, h⟩

end ClipScript
