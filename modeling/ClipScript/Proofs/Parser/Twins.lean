/-
Two readings of the same kinds of tokens.

Parsers look at the kinds of tokens and only pass their spans on.  So on two lists of tokens that
have the same kinds, with their spans related one by one, every parser does the same: it gives
twins, or it complains about the same thing at related places.  Twins are a lawful pairing, if
related spans merge to related spans (`Pairing.twinning`).
-/
import ClipScript.Proofs.Node.Twins
import ClipScript.Proofs.Parser.Walk

namespace ClipScript

/-- A token of the same kind, at a related place. -/
structure Token.Twin (rel : Span → Span → Prop) (t t' : Token) : Prop where
  kind : t.kind = t'.kind
  place : rel t.span t'.span

structure Cursor.Twin (rel : Span → Span → Prop) (c c' : Cursor) : Prop where
  rest : List.Forall₂ (Token.Twin rel) c.rest c'.rest
  finish : rel c.finish c'.finish
  imported : c.imported = c'.imported

structure ParseError.Twin (rel : Span → Span → Prop) (e e' : ParseError) : Prop where
  fault : e.fault = e'.fault
  place : rel e.span e'.span

variable {rel : Span → Span → Prop}

namespace Cursor.Twin

variable {c c' : Cursor}

theorem head (h : c.Twin rel c') : c.head.Twin rel c'.head := by
  have hrest := h.rest
  rw [Cursor.head, Cursor.head]
  cases hc : c.rest with
  | nil =>
    rw [hc, List.forall₂_nil_left_iff] at hrest
    rw [hrest]
    exact ⟨rfl, h.finish⟩
  | cons t ts =>
    rw [hc] at hrest
    obtain ⟨t', ts', ht, -, hc'⟩ := List.forall₂_cons_left_iff.mp hrest
    rw [hc']
    exact ht

theorem drop (h : c.Twin rel c') (n : Nat) :
    Cursor.Twin rel { c with rest := c.rest.drop n } { c' with rest := c'.rest.drop n } :=
  ⟨List.forall₂_drop n h.rest, h.finish, h.imported⟩

theorem tail (h : c.Twin rel c') :
    Cursor.Twin rel { c with rest := c.rest.tail } { c' with rest := c'.rest.tail } := by
  have hdrop := h.drop 1
  rwa [List.drop_one, List.drop_one] at hdrop

theorem kinds (h : c.Twin rel c') : c.rest.map Token.kind = c'.rest.map Token.kind := by
  have hrest := h.rest
  revert hrest
  generalize c.rest = ts
  generalize c'.rest = ts'
  intro hrest
  induction hrest with
  | nil => rfl
  | cons ht _ ih => rw [List.map_cons, List.map_cons, ht.kind, ih]

theorem imports (h : c.Twin rel c') (name : String) :
    Cursor.Twin rel { c with imported := name :: c.imported }
      { c' with imported := name :: c'.imported } :=
  ⟨h.rest, h.finish, congrArg (name :: ·) h.imported⟩

end Cursor.Twin

namespace Pairing

/-- Readings of the same kinds of tokens at related places. -/
def twinning (rel : Span → Span → Prop) : Pairing where
  Mark := Unit
  cursor _ c c' := c.Twin rel c'
  token _ _ s s' _ := rel s s'
  error e e' := e.Twin rel e'
  loose := False
  expr _ _ n n' _ := n.Twin rel n'
  args _ l l' _ := List.Forall₂ (Node.ArgTwin rel) l l'
  param _ p p' _ := p.Twin rel p'
  params _ l l' _ := List.Forall₂ (Param.Twin rel) l l'
  stmt _ n n' _ := n.Twin rel n'
  branch _ n n' _ := n.Twin rel n'
  block _ n n' _ := n.Twin rel n'
  body _ l l' _ := List.Forall₂ (Node.Twin rel) l l'

theorem twinning_steps : (twinning rel).StepLaws where
  kinds hc := Cursor.Twin.kinds hc
  advance hc _ := ⟨⟨⟩, (Cursor.Twin.head hc).place, Cursor.Twin.tail hc⟩

theorem any_isSome_label {args args' : List (Labelled Node)}
    (h : List.Forall₂ (Node.ArgTwin rel) args args') :
    args.any (·.label.isSome) = args'.any (·.label.isSome) := by
  induction h with
  | nil => rfl
  | cons harg _ ih => rw [List.any_cons, List.any_cons, harg.label, ih]

theorem any_optional {params params' : List Param}
    (h : List.Forall₂ (Param.Twin rel) params params') :
    params.any (·.optional) = params'.any (·.optional) := by
  induction h with
  | nil => rfl
  | cons hparam _ ih => rw [List.any_cons, List.any_cons, ih, hparam.optional]

theorem twinning_complaints : (twinning rel).ComplaintLaws where
  unexpected expected hc :=
    ⟨by rw [(Cursor.Twin.head hc).kind], (Cursor.Twin.head hc).place⟩
  invalidNumber hc _ _ := ⟨rfl, (Cursor.Twin.head hc).place⟩
  argumentOrder hn := ⟨rfl, Node.Twin.span hn⟩
  parameterOrder _ hp := ⟨rfl, Param.Twin.place hp⟩
  labelled := any_isSome_label
  optional := Param.Twin.optional
  optionals := any_optional

theorem twinning_expressions (hmerge : Merging rel) : (twinning rel).ExpressionLaws where
  tighten hn := hn
  leaf _ hs := .leaf hs _
  parens _ hn _ := hn
  call hcalled hargs := by
    obtain ⟨_, _, _, hargs, hclose⟩ := hargs
    exact .call (hmerge (hcalled.place id) hclose) _ hargs
  unary hs hn := .unary (hmerge hs (Node.Twin.span hn)) _ hn
  chain hn _ hu := .chain (hmerge (Node.Twin.span hn) (Node.Twin.span hu)) hn hu
  binary hn _ hu := .binary (hmerge (Node.Twin.span hn) (Node.Twin.span hu)) _ hn hu
  ternary hn _ hu _ hv := .ternary (hmerge (Node.Twin.span hn) (Node.Twin.span hv)) hn hu hv
  assign hn _ hu := .assign (hmerge (Node.Twin.span hn) (Node.Twin.span hu)) hn _ hu
  args_nil := .nil
  argument hbefore _ hn _ := by
    obtain ⟨_, hl⟩ := hbefore.exists_items .nil
    exact List.rel_append hl (.cons ⟨rfl, hn⟩ .nil)

theorem forall₂_toList {α : Type} {good : α → α → Prop} {x x' : Option α}
    (h : Option.Rel good x x') : List.Forall₂ good x.toList x'.toList := by
  cases h with
  | none => exact .nil
  | some ha => exact .cons ha .nil

theorem twinning_statements (hmerge : Merging rel) : (twinning rel).StatementLaws where
  mandatory hs hu := ⟨rfl, hmerge hs hu⟩
  opted hs _ hu := ⟨rfl, hmerge hs hu⟩
  params_nil := .nil
  declared hbefore hp _ := by
    obtain ⟨_, hl⟩ := hbefore.exists_items .nil
    exact List.rel_append hl (.cons hp .nil)
  expression hn _ := hn
  sequence hs hbody hu := .sequence (hmerge hs hu) hbody
  block hn := hn
  branch hfound := by
    cases hfound with
    | empty hs => exact .sequence hs .nil
    | node hn => exact hn
  ifThen hs _ hn _ hu := .ifElse (hmerge hs (Node.Twin.span hu)) hn hu .none
  ifElse hs _ hn _ hu _ hv := .ifElse (hmerge hs (Node.Twin.span hv)) hn hu (.some hv)
  functionDef hs _ hparams hn := by
    obtain ⟨_, _, _, hparams, _⟩ := hparams
    exact .functionDef (hmerge hs (Node.Twin.span hn)) _ hparams hn
  defaultValue hs _ hn _ hu := .defaultValue (hmerge hs hu) _ hn
  returnNothing hs hu := .returnValue (hmerge hs hu) .none
  returnValue hs hn hu := .returnValue (hmerge hs hu) (.some hn)
  importName hs _ hu hc :=
    ⟨⟨⟩, .importName (hmerge hs hu) _, Cursor.Twin.imports hc _⟩
  body_nil := .nil
  body_cons hfound hl := List.rel_append (forall₂_toList (hfound.rel id)) hl

theorem lawful_twinning (hmerge : Merging rel) : (twinning rel).Lawful where
  toStepLaws := twinning_steps
  toComplaintLaws := twinning_complaints
  toExpressionLaws := twinning_expressions hmerge
  toStatementLaws := twinning_statements hmerge

theorem sameImports_twinning : (twinning rel).SameImports :=
  fun _ _ _ hc => Cursor.Twin.imported hc

end Pairing

namespace Parser

variable {α : Type}

/-- What two readings come to: related results with twins left to read, or the same complaint. -/
inductive TwinResults (rel : Span → Span → Prop) (good : α → α → Prop) :
    Except ParseError (α × Cursor) → Except ParseError (α × Cursor) → Prop where
  | ok {a a' : α} {c c' : Cursor} : good a a' → c.Twin rel c' →
      TwinResults rel good (.ok (a, c)) (.ok (a', c'))
  | error {e e' : ParseError} : e.Twin rel e' → TwinResults rel good (.error e) (.error e')

/-- On twins the one parser does what the other does. -/
def Twins (rel : Span → Span → Prop) (good : α → α → Prop) (p p' : Parser α) : Prop :=
  ∀ c c' : Cursor, c.Twin rel c' → TwinResults rel good (p.run c) (p'.run c')

theorem Twins.of_walks {p p' : Parser α} {good : α → α → Prop}
    (h : ∀ c c', (Pairing.twinning rel).Walks ⟨⟩ c c' p p' fun a a' _ => good a a') :
    Twins rel good p p' := by
  intro c c' hc
  have hends := h c c' hc
  generalize p.run c = r at hends ⊢
  generalize p'.run c' = r' at hends ⊢
  cases hends with
  | ok ha hd _ => exact .ok ha hd
  | error he => exact .error he
  | loose_left hloose | loose_right hloose => exact absurd hloose id

theorem Twins.of_ok {p p' : Parser α} {good : α → α → Prop} {c c' d d' : Cursor} {a a' : α}
    (h : Twins rel good p p') (hc : c.Twin rel c') (hrun : p.run c = .ok (a, d))
    (hrun' : p'.run c' = .ok (a', d')) : good a a' ∧ d.Twin rel d' := by
  have hresults := h c c' hc
  rw [hrun, hrun'] at hresults
  cases hresults with
  | ok ha hd => exact ⟨ha, hd⟩

theorem twins_expressionAt (hmerge : Merging rel) (n : Nat) (level : Level) :
    Twins rel (Node.Twin rel) (expressionAt n level) (expressionAt n level) :=
  .of_walks fun _ _ =>
    (Pairing.lawful_twinning hmerge).walks_expressionAt Pairing.sameImports_twinning n level

theorem twins_statements (hmerge : Merging rel) (n : Nat) :
    Twins rel (List.Forall₂ (Node.Twin rel)) (statements n) (statements n) :=
  .of_walks fun _ _ => (Pairing.lawful_twinning hmerge).walks_statements
    (fun _ _ _ => (Pairing.lawful_twinning hmerge).walks_expression Pairing.sameImports_twinning) n

theorem rel_getLast? {α : Type} {good : α → α → Prop} {l l' : List α} (h : List.Forall₂ good l l') :
    Option.Rel good l.getLast? l'.getLast? := by
  have hreverse := List.forall₂_reverse_iff.mpr h
  rw [List.getLast?_eq_head?_reverse, List.getLast?_eq_head?_reverse]
  revert hreverse
  generalize l.reverse = r
  generalize l'.reverse = r'
  intro hreverse
  cases hreverse with
  | nil => exact .none
  | cons ha _ => exact .some ha

theorem twins_program (hmerge : Merging rel) : Twins rel (Program.Twin rel) program program := by
  have hP := Pairing.lawful_twinning hmerge
  have hexpression : (Pairing.twinning rel).WalkExpressions :=
    fun _ _ _ => hP.walks_expression Pairing.sameImports_twinning
  refine .of_walks fun c c' hc => Pairing.Walks.peek_bind hP (fun {k s s'} hs hs' => ?_) hc
  have hplace := (Cursor.Twin.head hc).place
  rw [hs, hs'] at hplace
  refine .remaining_bind hP fun n => ?_
  refine (hP.walks_statements hexpression n).bind fun body body' hbody _ => .pure ?_
  obtain ⟨hshape, hplaces⟩ := Node.twin_all hbody
  have hlast := rel_getLast? hbody
  -- the script reaches from its first token to its last statement, if it has one
  refine ⟨by rw [Program.unplaced, Program.unplaced, hshape], .cons ?_ hplaces⟩
  dsimp only
  generalize body.getLast? = last at hlast
  generalize body'.getLast? = last' at hlast
  cases hlast with
  | none => exact hplace
  | some hlast => exact hmerge hplace hlast.span

end Parser

/-- What two lists of tokens come to: twins, or the same complaint at related places. -/
inductive Program.TwinResults (rel : Span → Span → Prop) :
    Except ParseError Program → Except ParseError Program → Prop where
  | ok {p p' : Program} : p.Twin rel p' → TwinResults rel (.ok p) (.ok p')
  | error {e e' : ParseError} : e.Twin rel e' → TwinResults rel (.error e) (.error e')

/-- Tokens of the same kinds spell the same script, or none for the same reason.  Without tokens the
end of input is nowhere, which is then a place that the relation has to cover. -/
theorem Program.ofTokens_twins (hmerge : Merging rel) {tokens tokens' : List Token}
    (htokens : List.Forall₂ (Token.Twin rel) tokens tokens')
    (hnowhere : tokens = [] → rel .nowhere .nowhere) :
    TwinResults rel (ofTokens tokens) (ofTokens tokens') := by
  have hstart : Cursor.Twin rel (.start tokens) (.start tokens') := by
    refine ⟨htokens, ?_, rfl⟩
    have hlast := Parser.rel_getLast? htokens
    show rel ((tokens.getLast?.map _).getD _) ((tokens'.getLast?.map _).getD _)
    generalize hfound : tokens.getLast? = last at hlast
    generalize tokens'.getLast? = last' at hlast
    cases hlast with
    | none => exact hnowhere (List.getLast?_eq_none_iff.mp hfound)
    | some ht => exact ht.place
  have hresults := Parser.twins_program hmerge _ _ hstart
  show TwinResults rel (Except.map Prod.fst (Parser.program.run (.start tokens)))
    (Except.map Prod.fst (Parser.program.run (.start tokens')))
  generalize Parser.program.run (.start tokens) = r at hresults
  generalize Parser.program.run (.start tokens') = r' at hresults
  cases hresults with
  | ok hp _ => exact .ok hp
  | error he => exact .error he

theorem Token.twins_of_kinds {tokens tokens' : List Token}
    (h : tokens.map Token.kind = tokens'.map Token.kind) :
    List.Forall₂ (Token.Twin fun _ _ => True) tokens tokens' := by
  have hmap : List.Forall₂ (· = ·) (tokens.map Token.kind) (tokens'.map Token.kind) := by
    rw [List.forall₂_eq_eq_eq]
    exact h
  rw [List.forall₂_map_left_iff, List.forall₂_map_right_iff] at hmap
  exact hmap.imp fun t t' hkind => ⟨hkind, trivial⟩

theorem Program.ofTokens_unplaced {tokens tokens' : List Token}
    (h : tokens.map Token.kind = tokens'.map Token.kind) :
    ((ofTokens tokens).map Program.unplaced).mapError ParseError.fault
      = ((ofTokens tokens').map Program.unplaced).mapError ParseError.fault := by
  have hresults := ofTokens_twins (fun _ _ _ _ _ _ => trivial) (Token.twins_of_kinds h)
    fun _ => trivial
  generalize ofTokens tokens = r at hresults ⊢
  generalize ofTokens tokens' = r' at hresults ⊢
  cases hresults with
  | ok htwin => exact congrArg Except.ok htwin.shape
  | error htwin => exact congrArg Except.error htwin.fault

end ClipScript
