/-
Two parsers side by side.

Much of what is said about parsers compares two readings: of the same tokens at other places, of the
same tokens with other names known, of one parser with itself.  A `Pairing` says what the two have
to do with each other, part by part: where they stand, the tokens they take, the trees they give and
their complaints.  Every part lies between two marks, so that a tree can also be tied to the tokens
that it was read from.

`Pairing.Lawful` lists what a pairing has to keep, with one law for each production of the grammar.
From these laws it follows that the parsers of the grammar go alike, which is proved once for all
pairings.
-/
import ClipScript.Proofs.Parser.Ahead
import ClipScript.Proofs.Parser.Crossing
import ClipScript.Proofs.Surface

namespace ClipScript

/-- What two readings have to do with each other.  Between two marks lie a token of some kind, put
at two places, or a part of the grammar with the two trees that were read. -/
structure Pairing where
  Mark : Type
  cursor : Mark → Cursor → Cursor → Prop
  token : TokenKind → Mark → Span → Span → Mark → Prop
  error : ParseError → ParseError → Prop
  /-- Whether nothing is said where one of the two complains. -/
  loose : Prop
  expr : Level → Mark → Node → Node → Mark → Prop
  args : Mark → List (Labelled Node) → List (Labelled Node) → Mark → Prop
  param : Mark → Param → Param → Mark → Prop
  params : Mark → List Param → List Param → Mark → Prop
  stmt : Mark → Node → Node → Mark → Prop
  branch : Mark → Node → Node → Mark → Prop
  block : Mark → Node → Node → Mark → Prop
  body : Mark → List Node → List Node → Mark → Prop

/-- What a token is the leaf of. -/
def TokenKind.leaf? : TokenKind → Option Value
  | .number digits => (Decimal.read? digits).map .number
  | .string s => some (.string s)
  | .keyword .trueKw => some (.boolean true)
  | .keyword .falseKw => some (.boolean false)
  | .identifier name => some (.identifier name)
  | _ => none

namespace Pairing

open Surface (ParamKind)

variable (P : Pairing) {α β : Type}

/-- Tokens of which nothing but their kinds matters. -/
inductive Skips : List TokenKind → P.Mark → P.Mark → Prop where
  | nil {m : P.Mark} : Skips [] m m
  | cons {k : TokenKind} {ks : List TokenKind} {m m₁ m₂ : P.Mark} {s s' : Span} :
      P.token k m s s' m₁ → Skips ks m₁ m₂ → Skips (k :: ks) m m₂

/-- The items before another one: none, or some with a comma behind them. -/
inductive Pending (items : P.Mark → List α → List α → P.Mark → Prop) (m : P.Mark) :
    List α → List α → P.Mark → Prop where
  | first : Pending items m [] [] m
  | next {l l' : List α} {m₁ m₂ : P.Mark} : l ≠ [] → items m l l' m₁ →
      P.Skips [.symbol .comma] m₁ m₂ → Pending items m l l' m₂

/-- Items in parentheses, with the places of the closing one. -/
def Enclosed (items : P.Mark → List α → List α → P.Mark → Prop) (m : P.Mark)
    (x x' : List α × Span) (m' : P.Mark) : Prop :=
  ∃ m₁ m₂, P.Skips [.symbol .leftParen] m m₁ ∧ items m₁ x.1 x'.1 m₂ ∧
    P.token (.symbol .rightParen) m₂ x.2 x'.2 m'

/-- The label of an argument. -/
inductive Label (m : P.Mark) : Option String → P.Mark → Prop where
  | none : Label m none m
  | some {name : String} {m' : P.Mark} (mark : Surface.Mark) :
      P.Skips [.identifier name, .symbol mark.symbol] m m' → Label m (some name) m'

/-- What is called, with the places of its first token. -/
inductive Called (m : P.Mark) : Callee → Span → Span → P.Mark → Prop where
  | named {name : String} {s s' : Span} {m' : P.Mark} :
      P.token (.identifier name) m s s' m' → Called m (.named name) s s' m'
  | plugin {owner function : String} {s s' : Span} {m₁ m₂ : P.Mark} {c c' : Cursor} :
      P.token (.identifier owner) m s s' m₁ → P.cursor m₁ c c' → owner ∈ c.imported →
      P.Skips [.symbol .dot, .identifier function] m₁ m₂ →
      Called m (.plugin owner function) s s' m₂

inductive Found (m : P.Mark) (s s' : Span) : Option Node → Option Node → P.Mark → Prop where
  | empty {m' : P.Mark} : P.token (.symbol .semicolon) m s s' m' → Found m s s' none none m'
  | node {n n' : Node} {m' : P.Mark} : P.stmt m n n' m' → Found m s s' (some n) (some n') m'

/-- Both readings see tokens of the same kinds and take them one by one. -/
structure StepLaws : Prop where
  kinds {m : P.Mark} {c c' : Cursor} :
    P.cursor m c c' → c.rest.map Token.kind = c'.rest.map Token.kind
  advance {m : P.Mark} {c c' : Cursor} : P.cursor m c c' → c.head.kind ≠ .eof →
    ∃ m', P.token c.head.kind m c.head.span c'.head.span m' ∧
      P.cursor m' { c with rest := c.rest.tail } { c' with rest := c'.rest.tail }

/-- Both readings complain about the same things. -/
structure ComplaintLaws : Prop where
  unexpected {m : P.Mark} {c c' : Cursor} (expected : Expectation) : P.cursor m c c' →
    P.error ⟨.unexpectedToken expected c.head.kind, c.head.span⟩
      ⟨.unexpectedToken expected c'.head.kind, c'.head.span⟩
  invalidNumber {m : P.Mark} {c c' : Cursor} {digits : String} : P.cursor m c c' →
    c.head.kind = .number digits → Decimal.read? digits = none →
    P.error ⟨.invalidNumber digits, c.head.span⟩ ⟨.invalidNumber digits, c'.head.span⟩
  argumentOrder {m m' : P.Mark} {n n' : Node} : P.expr .assignment m n n' m' →
    P.error ⟨.argumentOrder, n.span⟩ ⟨.argumentOrder, n'.span⟩
  parameterOrder {m m' : P.Mark} {p p' : Param} (function : String) : P.param m p p' m' →
    P.error ⟨.parameterOrder function, p.span⟩ ⟨.parameterOrder function, p'.span⟩
  labelled {m m' : P.Mark} {l l' : List (Labelled Node)} : P.args m l l' m' →
    l.any (·.label.isSome) = l'.any (·.label.isSome)
  optional {m m' : P.Mark} {p p' : Param} : P.param m p p' m' → p.optional = p'.optional
  optionals {m m' : P.Mark} {l l' : List Param} : P.params m l l' m' →
    l.any (·.optional) = l'.any (·.optional)

/-- Expressions that are put together out of parts that go together do so too. -/
structure ExpressionLaws : Prop where
  tighten {level : Level} {m m' : P.Mark} {n n' : Node} : P.expr level.tighter m n n' m' →
    P.expr level m n n' m'
  leaf {k : TokenKind} {v : Value} {m m' : P.Mark} {s s' : Span} : k.leaf? = some v →
    P.token k m s s' m' → P.expr .primary m (.leaf s v) (.leaf s' v) m'
  parens {m m₁ m₂ m' : P.Mark} {n n' : Node} : P.Skips [.symbol .leftParen] m m₁ →
    P.expr .assignment m₁ n n' m₂ → P.Skips [.symbol .rightParen] m₂ m' →
    P.expr .primary m n n' m'
  call {callee : Callee} {m m₁ m' : P.Mark} {s s' : Span} {x x' : List (Labelled Node) × Span} :
    P.Called m callee s s' m₁ → P.Enclosed P.args m₁ x x' m' →
    P.expr .primary m (.call (s.merge x.2) callee x.1) (.call (s'.merge x'.2) callee x'.1) m'
  unary {op : UnaryOp} {m m₁ m' : P.Mark} {s s' : Span} {n n' : Node} :
    P.token (.symbol op.symbol) m s s' m₁ → P.expr .unary m₁ n n' m' →
    P.expr .unary m (.unary (s.merge n.span) op n) (.unary (s'.merge n'.span) op n') m'
  chain {m m₁ m₂ m' : P.Mark} {n n' u u' : Node} : P.expr .unary m n n' m₁ →
    P.Skips [.symbol .dot] m₁ m₂ → P.expr .chain m₂ u u' m' →
    P.expr .chain m (.chain (n.span.merge u.span) n u) (.chain (n'.span.merge u'.span) n' u') m'
  binary {op : BinaryOp} {m m₁ m₂ m' : P.Mark} {n n' u u' : Node} :
    P.expr op.leftLevel m n n' m₁ → P.Skips [.symbol op.symbol] m₁ m₂ →
    P.expr op.rightLevel m₂ u u' m' → P.expr op.level m (.ofBinary op n u) (.ofBinary op n' u') m'
  ternary {m m₁ m₂ m₃ m₄ m' : P.Mark} {n n' u u' v v' : Node} :
    P.expr .disjunction m n n' m₁ → P.Skips [.symbol .question] m₁ m₂ →
    P.expr .disjunction m₂ u u' m₃ → P.Skips [.symbol .pipe] m₃ m₄ → P.expr .ternary m₄ v v' m' →
    P.expr .ternary m (.ternary (n.span.merge v.span) n u v)
      (.ternary (n'.span.merge v'.span) n' u' v') m'
  assign {op : AssignOp} {m m₁ m₂ m' : P.Mark} {n n' u u' : Node} : P.expr .ternary m n n' m₁ →
    P.Skips [.symbol op.symbol] m₁ m₂ → P.expr .assignment m₂ u u' m' →
    P.expr .assignment m (.assign (n.span.merge u.span) n op u)
      (.assign (n'.span.merge u'.span) n' op u') m'
  args_nil {m : P.Mark} : P.args m [] [] m
  argument {m m₁ m₂ m' : P.Mark} {l l' : List (Labelled Node)} {label : Option String}
    {n n' : Node} : P.Pending P.args m l l' m₁ → P.Label m₁ label m₂ →
    P.expr .assignment m₂ n n' m' → (label.isNone && l.any (·.label.isSome)) = false →
    P.args m (l ++ [⟨label, n⟩]) (l' ++ [⟨label, n'⟩]) m'

/-- So do parameters and statements. -/
structure StatementLaws : Prop where
  mandatory {kind : ParamKind} {name : String} {m m₁ m' : P.Mark} {s s' u u' : Span} :
    P.token (.keyword kind.keyword) m s s' m₁ → P.token (.identifier name) m₁ u u' m' →
    P.param m ⟨name, kind.toValueKind, false, s.merge u⟩
      ⟨name, kind.toValueKind, false, s'.merge u'⟩ m'
  opted {kind : ParamKind} {name : String} {m m₁ m₂ m' : P.Mark} {s s' u u' : Span} :
    P.token (.keyword .optKw) m s s' m₁ → P.Skips [.keyword kind.keyword] m₁ m₂ →
    P.token (.identifier name) m₂ u u' m' →
    P.param m ⟨name, kind.toValueKind, true, s.merge u⟩
      ⟨name, kind.toValueKind, true, s'.merge u'⟩ m'
  params_nil {m : P.Mark} : P.params m [] [] m
  declared {m m₁ m' : P.Mark} {l l' : List Param} {p p' : Param} : P.Pending P.params m l l' m₁ →
    P.param m₁ p p' m' → (!p.optional && l.any (·.optional)) = false →
    P.params m (l ++ [p]) (l' ++ [p']) m'
  expression {m m₁ m' : P.Mark} {n n' : Node} : P.expr .assignment m n n' m₁ →
    P.Skips [.symbol .semicolon] m₁ m' → P.stmt m n n' m'
  sequence {m m₁ m₂ m' : P.Mark} {s s' u u' : Span} {l l' : List Node} :
    P.token (.symbol .leftBrace) m s s' m₁ → P.body m₁ l l' m₂ →
    P.token (.symbol .rightBrace) m₂ u u' m' →
    P.block m (.sequence (s.merge u) l) (.sequence (s'.merge u') l') m'
  block {m m' : P.Mark} {n n' : Node} : P.block m n n' m' → P.stmt m n n' m'
  branch {m m' : P.Mark} {s s' : Span} {n n' : Option Node} : P.Found m s s' n n' m' →
    P.branch m (n.getD (.sequence s [])) (n'.getD (.sequence s' [])) m'
  ifThen {m m₁ m₂ m₃ m₄ m' : P.Mark} {s s' : Span} {n n' u u' : Node} :
    P.token (.keyword .ifKw) m s s' m₁ → P.Skips [.symbol .leftParen] m₁ m₂ →
    P.expr .assignment m₂ n n' m₃ → P.Skips [.symbol .rightParen] m₃ m₄ → P.branch m₄ u u' m' →
    P.stmt m (.ifElse (s.merge u.span) n u none) (.ifElse (s'.merge u'.span) n' u' none) m'
  ifElse {m m₁ m₂ m₃ m₄ m₅ m₆ m' : P.Mark} {s s' : Span} {n n' u u' v v' : Node} :
    P.token (.keyword .ifKw) m s s' m₁ → P.Skips [.symbol .leftParen] m₁ m₂ →
    P.expr .assignment m₂ n n' m₃ → P.Skips [.symbol .rightParen] m₃ m₄ → P.branch m₄ u u' m₅ →
    P.Skips [.keyword .elseKw] m₅ m₆ → P.branch m₆ v v' m' →
    P.stmt m (.ifElse (s.merge v.span) n u (some v)) (.ifElse (s'.merge v'.span) n' u' (some v')) m'
  functionDef {name : String} {m m₁ m₂ m₃ m' : P.Mark} {s s' : Span} {x x' : List Param × Span}
    {n n' : Node} : P.token (.keyword .functionKw) m s s' m₁ → P.Skips [.identifier name] m₁ m₂ →
    P.Enclosed P.params m₂ x x' m₃ → P.block m₃ n n' m' →
    P.stmt m (.functionDef (s.merge n.span) name x.1 n)
      (.functionDef (s'.merge n'.span) name x'.1 n') m'
  defaultValue {name : String} {m m₁ m₂ m₃ m₄ m' : P.Mark} {s s' u u' : Span} {n n' : Node} :
    P.token (.keyword .defaultKw) m s s' m₁ →
    P.Skips [.symbol .leftParen, .identifier name, .symbol .comma] m₁ m₂ →
    P.expr .assignment m₂ n n' m₃ → P.Skips [.symbol .rightParen] m₃ m₄ →
    P.token (.symbol .semicolon) m₄ u u' m' →
    P.stmt m (.defaultValue (s.merge u) name n) (.defaultValue (s'.merge u') name n') m'
  returnNothing {m m₁ m' : P.Mark} {s s' u u' : Span} : P.token (.keyword .returnKw) m s s' m₁ →
    P.token (.symbol .semicolon) m₁ u u' m' →
    P.stmt m (.returnValue (s.merge u) none) (.returnValue (s'.merge u') none) m'
  returnValue {m m₁ m₂ m' : P.Mark} {s s' u u' : Span} {n n' : Node} :
    P.token (.keyword .returnKw) m s s' m₁ → P.expr .assignment m₁ n n' m₂ →
    P.token (.symbol .semicolon) m₂ u u' m' →
    P.stmt m (.returnValue (s.merge u) (some n)) (.returnValue (s'.merge u') (some n')) m'
  -- what is imported is known from there on
  importName {name : String} {m m₁ m₂ m₃ : P.Mark} {s s' u u' : Span} {c c' : Cursor} :
    P.token (.keyword .importKw) m s s' m₁ → P.Skips [.identifier name] m₁ m₂ →
    P.token (.symbol .semicolon) m₂ u u' m₃ → P.cursor m₃ c c' →
    ∃ m', P.stmt m (.importName (s.merge u) name) (.importName (s'.merge u') name) m' ∧
      P.cursor m' { c with imported := name :: c.imported }
        { c' with imported := name :: c'.imported }
  body_nil {m : P.Mark} : P.body m [] [] m
  body_cons {m m₁ m' : P.Mark} {s s' : Span} {n n' : Option Node} {l l' : List Node} :
    P.Found m s s' n n' m₁ → P.body m₁ l l' m' →
    P.body m (n.toList ++ l) (n'.toList ++ l') m'

structure Lawful : Prop extends P.StepLaws, P.ComplaintLaws, P.ExpressionLaws, P.StatementLaws

variable {P} {m : P.Mark} {c c' : Cursor}

theorem Pending.exists_items {items : P.Mark → List α → List α → P.Mark → Prop} {l l' : List α}
    {m' : P.Mark} (h : P.Pending items m l l' m') (hnil : items m [] [] m) :
    ∃ m₁, items m l l' m₁ := by
  cases h with
  | first => exact ⟨m, hnil⟩
  | next _ hitems _ => exact ⟨_, hitems⟩

theorem Called.place {R : Span → Span → Prop} {callee : Callee} {s s' : Span} {m' : P.Mark}
    (h : P.Called m callee s s' m')
    (htoken : ∀ {k m m' s s'}, P.token k m s s' m' → R s s') : R s s' := by
  cases h with
  | named hs => exact htoken hs
  | plugin hs _ _ _ => exact htoken hs

theorem Found.rel {R : Node → Node → Prop} {s s' : Span} {n n' : Option Node} {m' : P.Mark}
    (h : P.Found m s s' n n' m') (hstmt : ∀ {m m' n n'}, P.stmt m n n' m' → R n n') :
    Option.Rel R n n' := by
  cases h with
  | empty _ => exact .none
  | node hn => exact .some (hstmt hn)

theorem Skips.single {k : TokenKind} {m' : P.Mark} {s s' : Span} (h : P.token k m s s' m') :
    P.Skips [k] m m' :=
  .cons h .nil

theorem StepLaws.head_kind (hP : P.StepLaws) (hc : P.cursor m c c') :
    c'.head.kind = c.head.kind := by
  have hkinds := hP.kinds hc
  rw [Cursor.head, Cursor.head]
  cases hrest : c.rest <;> cases hrest' : c'.rest <;> simp_all

theorem StepLaws.length_eq (hP : P.StepLaws) (hc : P.cursor m c c') :
    c'.rest.length = c.rest.length := by
  simpa using (congrArg List.length (hP.kinds hc)).symm

end Pairing
end ClipScript
