/-
Levels of precedence, one on top of the other.

The parser of a level first reads an operand at the next tighter level and then looks whether an
operator of its own follows.  So whatever is read at a level is read at every looser one too, if no
operator of the levels in between follows (`ReadsAt.loosen`).

The levels that group to the left go on in rounds.  To read `a - b - c` the level has to be able to
stop after `a - b` and to go on, which `ReadsLeft` says: it takes what remains to be read after some
operands as given.
-/
import ClipScript.Proofs.Node.Unplaced
import ClipScript.Proofs.Surface

namespace ClipScript
namespace Level

theorem rank_tighter {level : Level} (h : level ≠ .primary) :
    level.tighter.rank = level.rank + 1 := by
  cases level <;> first | rfl | exact absurd rfl h

theorem eq_of_rank_eq {level other : Level} (h : level.rank = other.rank) : level = other := by
  cases level <;> cases other <;> first | rfl | cases h

theorem rank_le_primary (level : Level) : level.rank ≤ Level.primary.rank := by
  cases level <;> decide

/-- Whether the parser of a level goes on at a token after its first operand.  A single name is
taken for the callee of a call if a parenthesis follows. -/
def goesOn : Level → TokenKind → Bool
  | .assignment, k => (AssignOp.ofToken? k).isSome
  | .ternary, k => k == .symbol .question
  | .chain, k => k == .symbol .dot
  | .unary, _ => false
  | .primary, k => k == .symbol .leftParen
  | level, k => (level.operator? k).isSome

/-- An expression of the level ends before the token: no parser from this level up goes on. -/
def EndsBefore (level : Level) (k : TokenKind) : Prop :=
  ∀ other : Level, level.rank ≤ other.rank → other.goesOn k = false

def all : List Level :=
  [assignment, ternary, disjunction, conjunction, equality, comparison, sum, product, power, concat,
    chain, unary, primary]

theorem mem_all (level : Level) : level ∈ all := by cases level <;> decide

instance (level : Level) (k : TokenKind) : Decidable (level.EndsBefore k) :=
  decidable_of_iff (∀ other ∈ all, level.rank ≤ other.rank → other.goesOn k = false)
    ⟨fun h other => h other (mem_all other), fun h other _ => h other⟩

theorem EndsBefore.mono {level other : Level} {k : TokenKind} (h : level.EndsBefore k)
    (hle : level.rank ≤ other.rank) : other.EndsBefore k :=
  fun l hl => h l (Nat.le_trans hle hl)

theorem EndsBefore.tighter {level : Level} {k : TokenKind} (h : level.EndsBefore k) :
    level.tighter.EndsBefore k := by
  refine h.mono ?_
  by_cases hprimary : level = .primary
  · rw [hprimary]
    exact Nat.le_refl _
  · rw [rank_tighter hprimary]
    omega

theorem EndsBefore.here {level : Level} {k : TokenKind} (h : level.EndsBefore k) :
    level.goesOn k = false :=
  h level (Nat.le_refl _)

/-- The levels whose operators group to the left. -/
def isLeft : Level → Bool
  | .disjunction | .conjunction | .equality | .comparison | .sum | .product | .concat => true
  | _ => false

theorem operator?_eq_none {level : Level} (hleft : level.isLeft ∨ level = .power) {k : TokenKind}
    (h : level.goesOn k = false) : level.operator? k = none := by
  have hnone : ∀ o : Option BinaryOp, o.isSome = false → o = none :=
    fun o ho => Option.isNone_iff_eq_none.mp (Option.isSome_eq_false_iff.mp ho)
  cases level <;> first | exact hnone _ h | simp [isLeft] at hleft

theorem ofToken?_eq_none {k : TokenKind} (h : Level.assignment.goesOn k = false) :
    AssignOp.ofToken? k = none :=
  Option.isNone_iff_eq_none.mp (Option.isSome_eq_false_iff.mp h)

theorem endsBefore_assign (op : AssignOp) : Level.ternary.EndsBefore (.symbol op.symbol) := by
  rcases op with _ | op | _ <;> first | decide | (cases op <;> decide)

theorem endsBefore_binary (op : BinaryOp) : op.level.tighter.EndsBefore (.symbol op.symbol) := by
  rcases op with op | _ | op <;> first | decide | (cases op <;> decide)

theorem endsBefore_question : Level.disjunction.EndsBefore (.symbol .question) := by decide

theorem endsBefore_dot : Level.unary.EndsBefore (.symbol .dot) := by decide

/-- Tokens that carry no expression on. -/
def isCloser : TokenKind → Bool
  | .symbol .comma | .symbol .rightParen | .symbol .semicolon | .symbol .pipe => true
  | _ => false

theorem endsBefore_of_isCloser {k : TokenKind} (h : isCloser k) (level : Level) :
    level.EndsBefore k := by
  unfold isCloser at h
  split at h
  · cases level <;> decide
  · cases level <;> decide
  · cases level <;> decide
  · cases level <;> decide
  · cases h

end Level

theorem Level.operator?_eq_some {level : Level} {k : TokenKind} {op : BinaryOp}
    (h : level.operator? k = some op) : op.level = level ∧ k = .symbol op.symbol := by
  unfold Level.operator? at h
  split at h <;> cases h <;> exact ⟨rfl, rfl⟩

theorem AssignOp.ofToken?_eq_some {k : TokenKind} {op : AssignOp} (h : ofToken? k = some op) :
    k = .symbol op.symbol := by
  unfold ofToken? at h
  split at h <;> cases h <;> rfl

theorem UnaryOp.ofToken?_eq_some {k : TokenKind} {op : UnaryOp} (h : ofToken? k = some op) :
    k = .symbol op.symbol := by
  unfold ofToken? at h
  split at h <;> cases h <;> rfl

theorem BinaryOp.leftLevel_of_isLeft {op : BinaryOp} (h : op.level.isLeft) :
    op.leftLevel = op.level := by
  refine if_neg fun hpower => ?_
  rw [hpower] at h
  cases h

theorem BinaryOp.rightLevel_of_isLeft {op : BinaryOp} (h : op.level.isLeft) :
    op.rightLevel = op.level.tighter := by
  refine if_neg fun hpower => ?_
  rw [hpower] at h
  cases h

namespace Parser

open Reads

/-- An expression of a level, as a parser for it reads one. -/
def ReadsAt (imported : List String) (again : Level → Parser Node) (level : Level)
    (kinds : List TokenKind) (node : Node) : Prop :=
  Reads imported imported (atLevel again level) kinds level.EndsBefore fun n => n.unplaced = node

/-- Operands of a level that groups to the left, where more rounds of the level may follow. -/
def ReadsLeft (imported : List String) (again : Level → Parser Node) (level : Level)
    (kinds : List TokenKind) (node : Node) : Prop :=
  ∀ (more : List TokenKind) (stop : TokenKind → Prop) (good : Node → Prop),
    (∀ found n, found.unplaced = node → more.length ≤ n →
      Reads imported imported (leftRounds level (atLevel again level.tighter) n found) more stop
        good) →
    (∀ k, stop k → level.tighter.EndsBefore (more.headD k)) →
    Reads imported imported (atLevel again level) (kinds ++ more) stop good

variable {imported : List String} {again : Level → Parser Node} {level : Level}
  {kinds : List TokenKind} {node : Node}

theorem atLevel_left (hleft : level.isLeft) :
    atLevel again level = leftLevel level (atLevel again level.tighter) := by
  cases level <;> first | rfl | cases hleft

/-- The levels are stacked.  What is kept by the steps from one level to the next looser one holds
at every level, also of two parsers that come back to different ones. -/
theorem atLevel_stacked (again again' : Level → Parser Node)
    (P : Level → Parser Node → Parser Node → Prop)
    (hprimary : P .primary (primary again) (primary again'))
    (hunary : P .unary (unary again) (unary again'))
    (hchain : P .chain (chain again) (chain again'))
    (hpower : P .power (power again) (power again'))
    (hleft : ∀ (level : Level) {p p' : Parser Node}, level.isLeft → P level.tighter p p' →
      P level (leftLevel level p) (leftLevel level p'))
    (hternary : P .disjunction (disjunction again) (disjunction again') →
      P .ternary (ternary again) (ternary again'))
    (hassignment : P .ternary (ternary again) (ternary again') →
      P .assignment (assignment again) (assignment again')) (level : Level) :
    P level (atLevel again level) (atLevel again' level) := by
  have hproduct := hleft .product rfl hpower
  have hsum := hleft .sum rfl hproduct
  have hcomparison := hleft .comparison rfl hsum
  have hequality := hleft .equality rfl hcomparison
  have hconjunction := hleft .conjunction rfl hequality
  have hdisjunction := hleft .disjunction rfl hconjunction
  cases level with
  | assignment => exact hassignment (hternary hdisjunction)
  | ternary => exact hternary hdisjunction
  | disjunction => exact hdisjunction
  | conjunction => exact hconjunction
  | equality => exact hequality
  | comparison => exact hcomparison
  | sum => exact hsum
  | product => exact hproduct
  | power => exact hpower
  | concat => exact hleft .concat rfl hchain
  | chain => exact hchain
  | unary => exact hunary
  | primary => exact hprimary

/-- One operand begins the rounds. -/
theorem ReadsAt.left (h : ReadsAt imported again level.tighter kinds node) (hleft : level.isLeft) :
    ReadsLeft imported again level kinds node := by
  intro more stop good hmore hstop
  rw [atLevel_left hleft]
  refine bind h (fun found hfound => ?_) hstop
  exact remaining_bind fun n hn => hmore found n hfound hn

theorem ReadsLeft.round {op : BinaryOp} {rhsKinds : List TokenKind} {rhs : Node}
    (h : ReadsLeft imported again op.level kinds node)
    (hrhs : ReadsAt imported again op.level.tighter rhsKinds rhs)
    (hends : op.level.tighter.EndsBefore (.symbol op.symbol)) :
    ReadsLeft imported again op.level (kinds ++ .symbol op.symbol :: rhsKinds)
      (.binary .nowhere op node rhs) := by
  intro more stop good hmore hstop
  rw [List.append_assoc, List.cons_append]
  refine h _ stop good (fun found n hfound hn => ?_) fun _ _ => hends
  rw [List.length_cons, List.length_append] at hn
  obtain ⟨m, rfl⟩ : ∃ m, n = m + 1 := ⟨n - 1, by omega⟩
  refine peek_bind_cons fun t ht => ?_
  rw [ht, Level.operator?_symbol]
  refine cons (Reads.advance (.symbol op.symbol)).discard fun _ _ => ?_
  refine bind hrhs (fun found' hfound' => ?_) hstop
  refine hmore _ m ?_ (by omega)
  rw [Node.ofBinary, Node.unplaced, hfound, hfound']

theorem ReadsLeft.readsAt (h : ReadsLeft imported again level kinds node) (hleft : level.isLeft) :
    ReadsAt imported again level kinds node := by
  rw [ReadsAt, ← List.append_nil kinds]
  refine h [] level.EndsBefore _ (fun found n hfound _ => ?_) fun k hk => hk.tighter
  cases n with
  | zero => exact pure hfound
  | succ n =>
    refine peek_bind_nil fun t ht => ?_
    rw [Level.operator?_eq_none (.inl hleft) ht.here]
    exact pure hfound

theorem primary_fails_of_unary (again : Level → Parser Node) {c : Cursor} {op : UnaryOp}
    (h : UnaryOp.ofToken? c.head.kind = some op) : ∃ e, (primary again).run c = .error e := by
  have hkind : c.head.kind = .symbol .minus ∨ c.head.kind = .symbol .bang := by
    unfold UnaryOp.ofToken? at h
    split at h
    · next hk => exact .inl hk
    · next hk => exact .inr hk
    · cases h
  have hadvance : advance.run c = .ok (c.head, { c with rest := c.rest.tail }) := rfl
  rw [primary, run_bind_ok hadvance]
  rcases hkind with hk | hk <;> rw [hk] <;> exact ⟨_, rfl⟩

/-- A sign is not the beginning of anything that is read at the level of single tokens. -/
theorem ReadsAt.loosen_primary (h : ReadsAt imported again .primary kinds node) :
    ReadsAt imported again .unary kinds node := by
  intro ts rest finish hts hnext
  obtain ⟨found, hrun, hfound⟩ := h ts rest finish hts hnext.tighter
  refine ⟨found, ?_, hfound⟩
  rw [← hrun]
  have hpeek : ∀ c : Cursor, peek.run c = .ok (c.head, c) := fun _ => rfl
  show (unary again).run _ = (primary again).run _
  rw [unary, run_bind_ok (hpeek _)]
  cases hop : UnaryOp.ofToken? (Cursor.mk (ts ++ rest) finish imported).head.kind with
  | none => rfl
  | some op =>
    obtain ⟨e, he⟩ := primary_fails_of_unary again hop
    rw [show atLevel again .primary = primary again from rfl, he] at hrun
    cases hrun

/-- What is read at a level is read at the next looser one. -/
theorem ReadsAt.loosen_one (h : ReadsAt imported again level.tighter kinds node) :
    ReadsAt imported again level kinds node := by
  have hleft : level.isLeft → ReadsAt imported again level kinds node :=
    fun hleft => (h.left hleft).readsAt hleft
  cases level with
  | assignment =>
    refine finish h (fun found hfound => ?_) fun _ hk => hk.tighter
    refine peek_bind_nil fun t ht => ?_
    rw [Level.ofToken?_eq_none ht.here]
    exact pure hfound
  | ternary =>
    refine finish h (fun found hfound => ?_) fun _ hk => hk.tighter
    refine look (accept_false _) (fun b hb => ?_) fun k hk => ne_of_beq_false hk.here
    subst hb
    exact pure hfound
  | power =>
    refine finish h (fun found hfound => ?_) fun _ hk => hk.tighter
    refine peek_bind_nil fun t ht => ?_
    rw [Level.operator?_eq_none (.inr rfl) ht.here]
    exact pure hfound
  | chain =>
    refine finish h (fun found hfound => ?_) fun _ hk => hk.tighter
    refine look (accept_false _) (fun b hb => ?_) fun k hk => ne_of_beq_false hk.here
    subst hb
    exact pure hfound
  | unary => exact h.loosen_primary
  | primary => exact h
  | _ => exact hleft rfl

theorem ReadsAt.loosen {tight : Level} (h : ReadsAt imported again tight kinds node)
    (hle : level.rank ≤ tight.rank) : ReadsAt imported again level kinds node := by
  obtain ⟨d, hd⟩ : ∃ d, tight.rank = level.rank + d := ⟨tight.rank - level.rank, by omega⟩
  induction d generalizing level with
  | zero =>
    rw [Level.eq_of_rank_eq hd] at h
    exact h
  | succ d ih =>
    have hprimary : level ≠ .primary := by
      rintro rfl
      have := tight.rank_le_primary
      omega
    have hrank := Level.rank_tighter hprimary
    exact (ih (by omega) (by omega)).loosen_one

end Parser
end ClipScript
