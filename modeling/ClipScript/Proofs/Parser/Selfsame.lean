/-
One reading beside itself.

Parsers that come back to others do the same as long as those do: what is the same on both sides is
a lawful pairing (`Pairing.selfsame`).
-/
import ClipScript.Proofs.Parser.Walk

namespace ClipScript
namespace Pairing

def selfsame : Pairing where
  Mark := Unit
  cursor _ c c' := c = c'
  token _ _ s s' _ := s = s'
  error e e' := e = e'
  loose := False
  expr _ _ n n' _ := n = n'
  args _ l l' _ := l = l'
  param _ p p' _ := p = p'
  params _ l l' _ := l = l'
  stmt _ n n' _ := n = n'
  branch _ n n' _ := n = n'
  block _ n n' _ := n = n'
  body _ l l' _ := l = l'

theorem selfsame_steps : selfsame.StepLaws where
  kinds hc := hc ▸ rfl
  advance hc _ := ⟨⟨⟩, hc ▸ rfl, hc ▸ rfl⟩

theorem selfsame_complaints : selfsame.ComplaintLaws where
  unexpected _ hc := hc ▸ rfl
  invalidNumber hc _ _ := hc ▸ rfl
  argumentOrder hn := hn ▸ rfl
  parameterOrder _ hp := hp ▸ rfl
  labelled hl := hl ▸ rfl
  optional hp := hp ▸ rfl
  optionals hl := hl ▸ rfl

/-- Items that are the same stay so, whatever stands between them. -/
theorem Pending.same {α : Type} {P : Pairing} {m m' : P.Mark} {l l' : List α}
    {items : P.Mark → List α → List α → P.Mark → Prop} (h : P.Pending items m l l' m')
    (hsame : ∀ {m₁}, items m l l' m₁ → l = l') : l = l' := by
  cases h with
  | first => rfl
  | next _ hitems _ => exact hsame hitems

theorem selfsame_expressions : selfsame.ExpressionLaws where
  tighten hn := hn
  leaf _ hs := hs ▸ rfl
  parens _ hn _ := hn
  call hcalled hargs := by
    obtain rfl := hcalled.place (R := Eq) id
    obtain ⟨_, _, _, hargs, hclose⟩ := hargs
    cases Prod.ext hargs hclose
    rfl
  unary hs hn := hs ▸ hn ▸ rfl
  chain hn _ hu := hn ▸ hu ▸ rfl
  binary hn _ hu := hn ▸ hu ▸ rfl
  ternary hn _ hu _ hv := hn ▸ hu ▸ hv ▸ rfl
  assign hn _ hu := hn ▸ hu ▸ rfl
  args_nil := rfl
  argument hbefore _ hn _ := by
    obtain rfl := hbefore.same id
    cases hn
    rfl

theorem Found.same {m m' : selfsame.Mark} {s s' : Span} {n n' : Option Node}
    (h : selfsame.Found m s s' n n' m') : n = n' := by
  cases h with
  | empty _ => rfl
  | node hn => exact congrArg some hn

theorem found_selfsame {m m' : selfsame.Mark} {s s' : Span} {n n' : Option Node} (hs : s = s')
    (hn : n = n') : selfsame.Found m s s' n n' m' := by
  subst hn
  cases n with
  | none => exact .empty hs
  | some n => exact .node rfl

theorem selfsame_statements : selfsame.StatementLaws where
  mandatory hs hu := hs ▸ hu ▸ rfl
  opted hs _ hu := hs ▸ hu ▸ rfl
  params_nil := rfl
  declared hbefore hp _ := by
    obtain rfl := hbefore.same id
    cases hp
    rfl
  expression hn _ := hn
  sequence hs hbody hu := hs ▸ hbody ▸ hu ▸ rfl
  block hn := hn
  branch hfound := by
    cases hfound with
    | empty hs => exact congrArg (Node.sequence · []) hs
    | node hn => exact hn
  ifThen hs _ hn _ hu := hs ▸ hn ▸ hu ▸ rfl
  ifElse hs _ hn _ hu _ hv := hs ▸ hn ▸ hu ▸ hv ▸ rfl
  functionDef hs _ hparams hn := by
    obtain ⟨_, _, _, hparams, hclose⟩ := hparams
    cases Prod.ext hparams hclose
    cases hs
    cases hn
    rfl
  defaultValue hs _ hn _ hu := hs ▸ hn ▸ hu ▸ rfl
  returnNothing hs hu := hs ▸ hu ▸ rfl
  returnValue hs hn hu := hs ▸ hn ▸ hu ▸ rfl
  importName hs _ hu hc := ⟨⟨⟩, hs ▸ hu ▸ rfl, hc ▸ rfl⟩
  body_nil := rfl
  body_cons hfound hl := hfound.same ▸ hl ▸ rfl

theorem lawful_selfsame : selfsame.Lawful where
  toStepLaws := selfsame_steps
  toComplaintLaws := selfsame_complaints
  toExpressionLaws := selfsame_expressions
  toStatementLaws := selfsame_statements

theorem sameImports_selfsame : selfsame.SameImports := fun _ _ _ hc => congrArg _ hc

theorem walkExpressions_selfsame : selfsame.WalkExpressions :=
  fun _ _ _ => lawful_selfsame.walks_expression sameImports_selfsame

end Pairing
end ClipScript
