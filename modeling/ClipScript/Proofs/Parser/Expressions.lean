/-
Expressions are read back as they were written.

The proof follows the expression.  Operands that stand first are read by the parser of the level
itself, and all others through `expressionAt`, whose bound on tokens is large enough because at
least one token was read before (`Legible`).
-/
import ClipScript.Proofs.Parser.Levels

namespace ClipScript
namespace Parser

open Reads Surface

variable {imported : List String} {again : Level → Parser Node} {kinds : List TokenKind}
  {node : Node}

/-- An expression that is read by coming back to a level. -/
def ReadsAgain (imported : List String) (again : Level → Parser Node) (level : Level)
    (kinds : List TokenKind) (node : Node) : Prop :=
  Reads imported imported (again level) kinds level.EndsBefore fun n => n.unplaced = node

/-! ## Single tokens and parentheses -/

theorem readsAt_number (n : Numeral) :
    ReadsAt imported again .primary [.number n.digits] (.leaf .nowhere (.number n.value)) := by
  refine cons (Reads.advance (.number n.digits)) fun t ht => ?_
  have hread : Decimal.read? n.digits = some n.value := (Option.some_get n.readable).symm
  rw [ht]
  dsimp only
  rw [hread]
  exact pure rfl

theorem readsAt_string (s : String) :
    ReadsAt imported again .primary [.string s] (.leaf .nowhere (.string s)) := by
  refine cons (Reads.advance (.string s)) fun t ht => ?_
  rw [ht]
  exact pure rfl

theorem readsAt_boolean (b : Bool) :
    ReadsAt imported again .primary [.keyword (if b then .trueKw else .falseKw)]
      (.leaf .nowhere (.boolean b)) := by
  refine cons (Reads.advance _) fun t ht => ?_
  rw [ht]
  cases b <;> exact pure rfl

theorem readsAt_paren (h : ReadsAgain imported again .assignment kinds node) :
    ReadsAt imported again .primary (paren kinds) node := by
  refine cons (Reads.advance (.symbol .leftParen)) fun t ht => ?_
  rw [ht]
  refine bind h (fun found hfound => ?_) fun _ _ => Level.endsBefore_of_isCloser rfl _
  exact cons (Reads.expect .rightParen).discard fun _ _ => pure hfound

/-! ## Names -/

/-- A name is just a name if no parenthesis follows, and neither does a call of a plugin. -/
theorem named_run_name {c : Cursor} {x : String} {s : Span}
    (hparen : c.head.kind ≠ .symbol .leftParen)
    (hplugin : c.imported.contains x = false ∨ c.head.kind ≠ .symbol .dot) :
    (named again x s).run c = .ok (.identifier s x, c) := by
  rw [named, run_bind_ok (run_get _)]
  split
  · next hrest =>
    rw [Cursor.head, hrest] at hparen
    exact absurd rfl hparen
  · next hrest =>
    rw [Cursor.head, hrest] at hplugin
    rw [hplugin.resolve_right fun h => h rfl]
    rfl
  · rfl

theorem reads_primary_name {x : String} {stop : TokenKind → Prop}
    (hparen : ∀ k, stop k → k ≠ .symbol .leftParen)
    (hplugin : imported.contains x = false ∨ ∀ k, stop k → k ≠ .symbol .dot) :
    Reads imported imported (primary again) [.identifier x] stop
      fun n => n.unplaced = .leaf .nowhere (.identifier x) := by
  refine finish (Reads.advance (.identifier x)) (fun t ht => ?_) fun _ _ => trivial
  rw [ht]
  intro ts rest finish hts hnext
  rw [List.map_eq_nil_iff] at hts
  subst hts
  exact ⟨_, named_run_name (hparen _ hnext) (hplugin.imp_right fun h => h _ hnext), rfl⟩

theorem readsAt_name {x : String} (h : imported.contains x = false) :
    ReadsAt imported again .primary [.identifier x] (.leaf .nowhere (.identifier x)) :=
  reads_primary_name (fun _ hk => ne_of_beq_false hk.here) (.inl h)

/-- A name that is known as a plugin is just a name where no chain follows. -/
theorem readsAt_chain_name (x : String) :
    ReadsAt imported again .chain [.identifier x] (.leaf .nowhere (.identifier x)) := by
  have hprimary : Reads imported imported (primary again) [.identifier x] Level.chain.EndsBefore
      fun n => n.unplaced = .leaf .nowhere (.identifier x) :=
    reads_primary_name (fun _ hk => ne_of_beq_false (hk .primary (by decide)))
      (.inr fun _ hk => ne_of_beq_false hk.here)
  have hunary : Reads imported imported (unary again) [.identifier x] Level.chain.EndsBefore
      fun n => n.unplaced = .leaf .nowhere (.identifier x) := by
    refine peek_bind_cons fun t ht => ?_
    rw [ht]
    exact hprimary
  refine finish hunary (fun found hfound => ?_) fun _ hk => hk
  refine look (accept_false _) (fun b hb => ?_) fun k hk => ne_of_beq_false hk.here
  subst hb
  exact pure hfound

/-! ## Calls -/

def bareArgument (a : Labelled Node) : Labelled Node := ⟨a.label, a.content.unplaced⟩

/-- Positional arguments come after positional ones only. -/
def mayFollow (a b : Labelled Node) : Prop := b.label = none → a.label = none

theorem closer_of_atItemEnd {k : TokenKind} (h : atItemEnd k) (level : Level) :
    level.EndsBefore k := by
  rcases h with rfl | rfl
  · exact Level.endsBefore_of_isCloser rfl level
  · exact Level.endsBefore_of_isCloser rfl level

theorem reads_namedArgument (h : ReadsAgain imported again .assignment kinds node) (mark : Mark)
    (label : String) (earlier : List (Labelled Node)) :
    Reads imported imported (argument again earlier)
      (.identifier label :: .symbol mark.symbol :: kinds) atItemEnd
      fun a => bareArgument a = ⟨some label, node⟩ := by
  intro ts rest finish hts hnext
  obtain ⟨⟨k, s⟩, ts, rfl, hk, hts⟩ := List.map_eq_cons_iff.mp hts
  obtain ⟨⟨k', s'⟩, ts, rfl, hk', hts⟩ := List.map_eq_cons_iff.mp hts
  obtain ⟨found, hrun, hfound⟩ := h ts rest finish hts (closer_of_atItemEnd hnext _)
  refine ⟨⟨some label, found⟩, ?_, by rw [← hfound]; rfl⟩
  cases hk
  cases hk'
  rw [argument, run_bind_ok (run_get _)]
  cases mark with
  | colon =>
    dsimp only [Mark.symbol, List.cons_append]
    rw [run_bind_ok (run_set _ _), run_bind_ok hrun]
    rfl
  | equals =>
    dsimp only [Mark.symbol, List.cons_append]
    rw [run_bind_ok (run_set _ _), run_bind_ok hrun]
    rfl

/-- An argument that does not look like a named one is read as a positional one, if there is no
named one before it. -/
theorem reads_positionalArgument (h : ReadsAgain imported again .assignment kinds node)
    (hlooks : ∀ k more, atItemEnd k → Expr.looksNamed (kinds ++ k :: more) = false)
    {earlier : List (Labelled Node)} (hearlier : ∀ a ∈ earlier, a.label = none) :
    Reads imported imported (argument again earlier) kinds atItemEnd
      fun a => bareArgument a = ⟨none, node⟩ := by
  intro ts rest finish hts hnext
  obtain ⟨found, hrun, hfound⟩ := h ts rest finish hts (closer_of_atItemEnd hnext _)
  refine ⟨⟨none, found⟩, ?_, by rw [← hfound]; rfl⟩
  have hlooks' : Expr.looksNamed ((ts ++ rest).map Token.kind) = false := by
    cases rest with
    | nil => rcases hnext with hnext | hnext <;> cases hnext
    | cons t rest =>
      rw [List.map_append, hts, List.map_cons]
      exact hlooks t.kind _ hnext
  have hnone : earlier.any (fun a => a.label.isSome) = false := by
    rw [List.any_eq_false]
    intro a ha
    rw [hearlier a ha]
    nofun
  rw [argument, run_bind_ok (run_get _)]
  dsimp only
  split
  · next hrest =>
    rw [hrest] at hlooks'
    cases hlooks'
  · next hrest =>
    rw [hrest] at hlooks'
    cases hlooks'
  · rw [run_bind_ok hrun, hnone]
    rfl

section Calls

variable {items : List (List TokenKind × Labelled Node)}
  (hitem : ∀ x ∈ items, ∀ earlier : List (Labelled Node),
    (∀ a ∈ earlier, mayFollow (bareArgument a) x.2) →
    Reads imported imported (argument again earlier) x.1 atItemEnd fun a => bareArgument a = x.2)
  (hfollows : items.Pairwise fun x y => mayFollow x.2 y.2)
  (hbegin : ∀ x ∈ items, Expr.Begins x.1)
include hitem hfollows hbegin

theorem reads_callTo (callee : Callee) (start : Span) :
    Reads imported imported (callTo again callee start) (paren (commas (items.map Prod.fst)))
      anything fun n => n.unplaced = .call .nowhere callee (items.map Prod.snd) := by
  have hbegin' : ∀ x ∈ items, ∀ k, x.1.headD k ≠ .symbol .rightParen := by
    intro x hx k
    obtain ⟨k', rest, hkinds, hk'⟩ := hbegin x hx
    rw [hkinds, List.headD_cons]
    rintro rfl
    cases hk'
  refine finish (Reads.parenthesised hitem hfollows hbegin') (fun found hfound => ?_)
    fun _ _ => trivial
  refine pure ?_
  rw [Node.unplaced, Node.unplacedArgs_eq_map, ← hfound]
  rfl

theorem readsAt_call (callee : Callee)
    (hcallee : ∀ owner function, callee = .plugin owner function → imported.contains owner) :
    ReadsAt imported again .primary (calleeKinds callee ++ paren (commas (items.map Prod.fst)))
      (.call .nowhere callee (items.map Prod.snd)) := by
  have hcall := reads_callTo hitem hfollows hbegin callee
  cases callee with
  | named name =>
    refine cons (Reads.advance (.identifier name)) fun t ht => ?_
    rw [ht]
    intro ts rest finish hts _
    obtain ⟨found, hrun, hfound⟩ := hcall t.span ts rest finish hts trivial
    refine ⟨found, ?_, hfound⟩
    obtain ⟨⟨k, s⟩, ts, rfl, hk, hts⟩ := List.map_eq_cons_iff.mp hts
    cases hk
    exact hrun
  | plugin owner function =>
    refine cons (Reads.advance (.identifier owner)) fun t ht => ?_
    rw [ht]
    intro ts rest finish hts _
    obtain ⟨⟨k, s⟩, ts, rfl, hk, hts⟩ := List.map_eq_cons_iff.mp hts
    obtain ⟨⟨k', s'⟩, ts, rfl, hk', hts⟩ := List.map_eq_cons_iff.mp hts
    obtain ⟨found, hrun, hfound⟩ := hcall t.span ts rest finish hts trivial
    refine ⟨found, ?_, hfound⟩
    obtain ⟨⟨k'', s''⟩, ts, rfl, hk'', hts⟩ := List.map_eq_cons_iff.mp hts
    cases hk
    cases hk'
    cases hk''
    dsimp only [named, List.cons_append]
    rw [run_bind_ok (run_get _)]
    dsimp only
    rw [if_pos (hcallee owner function rfl), run_bind_ok (run_set _ _)]
    exact hrun

end Calls

/-! ## Whole expressions -/

/-- An expression is read back at its own level, with a bound that its own tokens do not exceed by
more than one. -/
def Legible (mark : Mark) (imported : List String) (e : Expr) : Prop :=
  ∀ n, (e.kinds mark imported).length ≤ n + 1 →
    ReadsAt imported (expressionAt n) e.level (e.kinds mark imported) e.toNode ∧
    (e.level.isLeft →
      ReadsLeft imported (expressionAt n) e.level (e.kinds mark imported) e.toNode)

namespace Legible

variable {mark : Mark} {e : Expr} {level : Level} {n : Nat}

theorem readsAgain (h : Legible mark imported e) (hlevel : level.rank ≤ e.level.rank)
    (hn : (e.kinds mark imported).length ≤ n) :
    ReadsAgain imported (expressionAt n) level (e.kinds mark imported) e.toNode := by
  obtain ⟨k, rest, hkinds, -⟩ := e.begins mark imported
  have hlength : (e.kinds mark imported).length = rest.length + 1 := by
    rw [hkinds, List.length_cons]
  obtain ⟨m, rfl⟩ : ∃ m, n = m + 1 := ⟨n - 1, by omega⟩
  exact (h m hn).1.loosen hlevel

/-- In parentheses, if need be, an expression is read back at any level. -/
theorem operand (h : Legible mark imported e)
    (hn : (Surface.operand level e.level (e.kinds mark imported)).length ≤ n + 1) :
    ReadsAt imported (expressionAt n) level
      (Surface.operand level e.level (e.kinds mark imported)) e.toNode := by
  by_cases hwrap : e.level.rank < level.rank
  · rw [Surface.operand, if_pos hwrap] at hn ⊢
    have hlength : (e.kinds mark imported).length ≤ n := by
      rw [paren, List.length_append, List.length_cons, List.length_singleton] at hn
      omega
    exact (readsAt_paren (h.readsAgain (Nat.zero_le _) hlength)).loosen level.rank_le_primary
  · rw [Surface.operand, if_neg hwrap] at hn ⊢
    exact (h n hn).1.loosen (Nat.le_of_not_lt hwrap)

theorem operandAgain (h : Legible mark imported e)
    (hn : (Surface.operand level e.level (e.kinds mark imported)).length ≤ n) :
    ReadsAgain imported (expressionAt n) level
      (Surface.operand level e.level (e.kinds mark imported)) e.toNode := by
  obtain ⟨k, rest, hkinds, -⟩ := (e.begins mark imported).operand level e.level
  have hlength :
      (Surface.operand level e.level (e.kinds mark imported)).length = rest.length + 1 := by
    rw [hkinds, List.length_cons]
  obtain ⟨m, rfl⟩ : ∃ m, n = m + 1 := ⟨n - 1, by omega⟩
  exact h.operand hn

/-- The first operand of a level that groups to the left can be an expression of the same level,
whose rounds are then gone on with. -/
theorem operandLeft (h : Legible mark imported e) (hleft : level.isLeft)
    (hn : (Surface.operand level e.level (e.kinds mark imported)).length ≤ n + 1) :
    ReadsLeft imported (expressionAt n) level
      (Surface.operand level e.level (e.kinds mark imported)) e.toNode := by
  by_cases hsame : e.level = level
  · subst hsame
    rw [Surface.operand, if_neg (Nat.lt_irrefl _)] at hn ⊢
    exact (h n hn).2 hleft
  · -- the next tighter level asks for parentheses in the same cases
    have hprimary : level ≠ .primary := by
      rintro rfl
      cases hleft
    have hrank : e.level.rank ≠ level.rank := fun hrank => hsame (Level.eq_of_rank_eq hrank)
    have hoperand : Surface.operand level e.level (e.kinds mark imported)
        = Surface.operand level.tighter e.level (e.kinds mark imported) := by
      rw [Surface.operand, Surface.operand, Level.rank_tighter hprimary]
      by_cases hlt : e.level.rank < level.rank
      · rw [if_pos hlt, if_pos (by omega)]
      · rw [if_neg hlt, if_neg (by omega)]
    rw [hoperand] at hn ⊢
    exact (h.operand hn).left hleft

/-- An argument is read back at the loosest level, in parentheses or not. -/
theorem argument (h : Legible mark imported e)
    (hn : (e.argumentKinds mark imported).length ≤ n) :
    ReadsAgain imported (expressionAt n) .assignment (e.argumentKinds mark imported)
      e.toNode := by
  rw [Expr.argumentKinds] at hn ⊢
  by_cases hnamed : e.isNamedLike
  · rw [if_pos hnamed] at hn ⊢
    rw [paren, List.length_append, List.length_cons, List.length_singleton] at hn
    obtain ⟨m, rfl⟩ : ∃ m, n = m + 1 := ⟨n - 1, by omega⟩
    exact (readsAt_paren (h.readsAgain (Nat.zero_le _) (by omega))).loosen (Nat.zero_le _)
  · rw [if_neg hnamed] at hn ⊢
    exact h.readsAgain (Nat.zero_le _) hn

end Legible

section Cases

variable {mark : Mark}

/-- Away from the levels that group to the left, there is one thing to show. -/
theorem legible_of_readsAt {e : Expr} (hleft : e.level.isLeft = false)
    (h : ∀ n, (e.kinds mark imported).length ≤ n + 1 →
      ReadsAt imported (expressionAt n) e.level (e.kinds mark imported) e.toNode) :
    Legible mark imported e := by
  intro n hn
  refine ⟨h n hn, fun hleft' => ?_⟩
  rw [hleft] at hleft'
  cases hleft'

theorem legible_assign {target value : Expr} (op : AssignOp)
    (htarget : Legible mark imported target) (hvalue : Legible mark imported value) :
    Legible mark imported (.assign target op value) := by
  refine legible_of_readsAt rfl fun n hn => ?_
  rw [Expr.kinds] at hn ⊢
  rw [List.length_append, List.length_cons] at hn
  have hfirst : ReadsAt imported (expressionAt n) .ternary _ _ := htarget.operand (by omega)
  refine bind hfirst (fun found hfound => ?_) fun _ _ => Level.endsBefore_assign op
  refine peek_bind_cons fun t ht => ?_
  rw [ht, AssignOp.ofToken?_symbol]
  refine cons (Reads.advance (.symbol op.symbol)).discard fun _ _ => ?_
  have hsecond : ReadsAgain imported (expressionAt n) .assignment _ _ :=
    hvalue.readsAgain (Nat.zero_le _) (by omega)
  refine finish hsecond (fun found' hfound' => pure ?_) fun _ hk => hk
  rw [Node.unplaced, hfound, hfound']
  rfl

theorem legible_power {lhs rhs : Expr} (hlhs : Legible mark imported lhs)
    (hrhs : Legible mark imported rhs) :
    Legible mark imported (.binary (.arithmetic .pow) lhs rhs) := by
  refine legible_of_readsAt rfl fun n hn => ?_
  have hlevel : (BinaryOp.arithmetic .pow).leftLevel = .concat := rfl
  have hlevel' : (BinaryOp.arithmetic .pow).rightLevel = .power := rfl
  rw [Expr.kinds, hlevel, hlevel'] at hn ⊢
  rw [List.length_append, List.length_cons] at hn
  have hfirst : ReadsAt imported (expressionAt n) .concat _ _ := hlhs.operand (by omega)
  have hsecond : ReadsAgain imported (expressionAt n) .power _ _ := hrhs.operandAgain (by omega)
  refine bind hfirst (fun found hfound => ?_) fun _ _ =>
    Level.endsBefore_binary (.arithmetic .pow)
  refine peek_bind_cons fun t ht => ?_
  rw [ht]
  refine cons (Reads.advance (.symbol .caret)).discard fun _ _ => ?_
  refine finish hsecond (fun found' hfound' => pure ?_) fun _ hk => hk
  rw [Node.ofBinary, Node.unplaced, hfound, hfound']
  rfl

theorem legible_binary {lhs rhs : Expr} (op : BinaryOp) (hlhs : Legible mark imported lhs)
    (hrhs : Legible mark imported rhs) : Legible mark imported (.binary op lhs rhs) := by
  by_cases hpower : op.level = .power
  · obtain rfl : op = .arithmetic .pow := by
      rcases op with op | _ | op <;>
        first | cases hpower | (cases op <;> first | rfl | cases hpower)
    exact legible_power hlhs hrhs
  · have hleft : op.level.isLeft := by
      rcases op with op | _ | op <;>
        first | rfl | (cases op <;> first | rfl | exact absurd rfl hpower)
    intro n hn
    rw [Expr.kinds, BinaryOp.leftLevel, BinaryOp.rightLevel, if_neg hpower, if_neg hpower] at hn ⊢
    rw [List.length_append, List.length_cons] at hn
    have hfirst := hlhs.operandLeft (n := n) hleft (by omega)
    have hsecond : ReadsAt imported (expressionAt n) op.level.tighter _ _ :=
      hrhs.operand (by omega)
    have hboth := hfirst.round hsecond (Level.endsBefore_binary op)
    exact ⟨hboth.readsAt hleft, fun _ => hboth⟩

theorem legible_unary {e : Expr} (op : UnaryOp) (h : Legible mark imported e) :
    Legible mark imported (.unary op e) := by
  refine legible_of_readsAt rfl fun n hn => ?_
  rw [Expr.kinds] at hn ⊢
  rw [List.length_cons] at hn
  have hsymbol : UnaryOp.ofToken? (.symbol op.symbol) = some op := by cases op <;> rfl
  refine peek_bind_cons fun t ht => ?_
  rw [ht, hsymbol]
  refine cons (Reads.advance (.symbol op.symbol)) fun start _ => ?_
  have hoperand : ReadsAgain imported (expressionAt n) .unary _ _ := h.operandAgain (by omega)
  refine finish hoperand (fun found hfound => pure ?_) fun _ hk => hk
  rw [Node.unplaced, hfound]
  rfl

theorem legible_ternary {condition yes no : Expr} (hcondition : Legible mark imported condition)
    (hyes : Legible mark imported yes) (hno : Legible mark imported no) :
    Legible mark imported (.ternary condition yes no) := by
  refine legible_of_readsAt rfl fun n hn => ?_
  rw [Expr.kinds] at hn ⊢
  rw [List.length_append, List.length_cons, List.length_append, List.length_cons] at hn
  have hfirst : ReadsAt imported (expressionAt n) .disjunction _ _ := hcondition.operand (by omega)
  have hsecond : ReadsAgain imported (expressionAt n) .disjunction _ _ :=
    hyes.operandAgain (by omega)
  have hthird : ReadsAgain imported (expressionAt n) .ternary _ _ := hno.operandAgain (by omega)
  refine bind hfirst (fun found hfound => ?_) fun _ _ => Level.endsBefore_question
  refine cons (Reads.accept_true (.symbol .question)) fun b hb => ?_
  subst hb
  refine bind hsecond (fun found' hfound' => ?_) fun _ _ => Level.endsBefore_of_isCloser rfl _
  refine cons (Reads.expect .pipe).discard fun _ _ => ?_
  refine finish hthird (fun found'' hfound'' => pure ?_) fun _ hk => hk
  rw [Node.unplaced, hfound, hfound', hfound'']
  rfl

theorem legible_chain {value link : Expr} (hvalue : Legible mark imported value)
    (hlink : Legible mark imported link) : Legible mark imported (.chain value link) := by
  refine legible_of_readsAt rfl fun n hn => ?_
  rw [Expr.kinds] at hn ⊢
  rw [List.length_append, List.length_cons] at hn
  have hfirst : ReadsAt imported (expressionAt n) .unary _ _ := hvalue.operand (by omega)
  have hsecond : ReadsAgain imported (expressionAt n) .chain _ _ := hlink.operandAgain (by omega)
  refine bind hfirst (fun found hfound => ?_) fun _ _ => Level.endsBefore_dot
  refine cons (Reads.accept_true (.symbol .dot)) fun b hb => ?_
  subst hb
  refine finish hsecond (fun found' hfound' => pure ?_) fun _ hk => hk
  rw [Node.unplaced, hfound, hfound']
  rfl

theorem legible_call {callee : Callee} {positional : List Expr} {named : List (String × Expr)}
    (hcallee : ∀ owner function, callee = .plugin owner function → imported.contains owner)
    (hpositional : ∀ e ∈ positional, Legible mark imported e)
    (hnamed : ∀ x ∈ named, Legible mark imported x.2) :
    Legible mark imported (.call callee positional named) := by
  refine legible_of_readsAt rfl fun n hn => ?_
  rw [Expr.kinds, ← Expr.argumentItems_fst] at hn ⊢
  show ReadsAt imported (expressionAt n) .primary _
    (.call .nowhere callee (Expr.positionalNodes positional ++ Expr.namedNodes named))
  rw [← Expr.argumentItems_snd mark imported]
  have hlength : ∀ x ∈ Expr.argumentItems mark imported positional named, x.1.length ≤ n := by
    intro x hx
    have hle := length_le_commas (List.mem_map_of_mem (f := Prod.fst) hx)
    rw [List.length_append, paren, List.length_append, List.length_cons] at hn
    omega
  refine readsAt_call ?_ ?_ ?_ callee hcallee
  · intro x hx earlier hearlier
    have hx' := hlength x hx
    rw [Expr.argumentItems, List.mem_append, List.mem_map, List.mem_map] at hx
    rcases hx with ⟨e, he, rfl⟩ | ⟨y, hy, rfl⟩
    · refine reads_positionalArgument ((hpositional e he).argument hx') ?_ fun a ha => ?_
      · intro k more hk
        rcases hk with rfl | rfl <;>
          exact e.not_looksNamed_argumentKinds mark imported more (by decide) (by decide)
      · exact hearlier a ha rfl
    · rw [List.length_cons, List.length_cons] at hx'
      exact reads_namedArgument ((hnamed y hy).readsAgain (Nat.zero_le _) (by omega)) mark y.1
        earlier
  · rw [Expr.argumentItems, List.pairwise_append, List.pairwise_map, List.pairwise_map]
    refine ⟨List.pairwise_of_forall fun _ _ _ => rfl, List.pairwise_of_forall fun _ _ h => ?_, ?_⟩
    · exact absurd h (Option.some_ne_none _)
    · intro x _ y hy hnone
      obtain ⟨z, -, rfl⟩ := List.mem_map.mp hy
      exact absurd hnone (Option.some_ne_none z.1)
  · intro x hx
    rw [Expr.argumentItems, List.mem_append, List.mem_map, List.mem_map] at hx
    rcases hx with ⟨e, _, rfl⟩ | ⟨y, _, rfl⟩
    · exact e.begins_argumentKinds mark imported
    · exact ⟨_, _, rfl, rfl⟩

end Cases

/-- Every expression that refers to imported plugins only is read back. -/
theorem legible {mark : Mark} {e : Expr} (h : e.admitted imported) : Legible mark imported e := by
  induction e using Expr.induct with
  | number n => exact legible_of_readsAt rfl fun _ _ => readsAt_number n
  | string s => exact legible_of_readsAt rfl fun _ _ => readsAt_string s
  | boolean b => exact legible_of_readsAt rfl fun _ _ => readsAt_boolean b
  | name x =>
    refine legible_of_readsAt rfl fun n hn => ?_
    rw [Expr.kinds] at hn ⊢
    by_cases hx : imported.contains x
    · rw [if_pos hx] at hn ⊢
      rw [paren, List.length_append, List.length_cons, List.length_singleton] at hn
      obtain ⟨m, rfl⟩ : ∃ m, n = m + 1 := ⟨n - 1, by simp at hn; omega⟩
      -- a closing parenthesis follows, and no dot that would make the name that of a plugin
      have hinner : ReadsAgain imported (expressionAt (m + 1)) .assignment [.identifier x] _ :=
        (readsAt_chain_name x).loosen (Nat.zero_le _)
      exact readsAt_paren hinner
    · rw [if_neg hx]
      exact readsAt_name (by simpa using hx)
  | assign target op value ihtarget ihvalue =>
    rw [Expr.admitted, Bool.and_eq_true] at h
    exact legible_assign op (ihtarget h.1) (ihvalue h.2)
  | binary op lhs rhs ihlhs ihrhs =>
    rw [Expr.admitted, Bool.and_eq_true] at h
    exact legible_binary op (ihlhs h.1) (ihrhs h.2)
  | unary op e ih =>
    rw [Expr.admitted] at h
    exact legible_unary op (ih h)
  | ternary condition yes no ihcondition ihyes ihno =>
    rw [Expr.admitted, Bool.and_eq_true, Bool.and_eq_true] at h
    exact legible_ternary (ihcondition h.1.1) (ihyes h.1.2) (ihno h.2)
  | call callee positional named ihpositional ihnamed =>
    simp only [Expr.admitted, Expr.positionalAdmitted_eq, Expr.namedAdmitted_eq, Bool.and_eq_true,
      List.all_eq_true] at h
    refine legible_call ?_ (fun e he => ihpositional e he (h.1.2 e he))
      fun x hx => ihnamed x hx (h.2 x hx)
    rintro owner function rfl
    exact h.1.1
  | chain value link ihvalue ihlink =>
    rw [Expr.admitted, Bool.and_eq_true] at h
    exact legible_chain (ihvalue h.1) (ihlink h.2)

end Parser
end ClipScript
