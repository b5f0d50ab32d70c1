/-
The loops and the knots of the grammar end by themselves.

They are written with a bound on their rounds, because Lean asks for one.  That the bound is never
what ends them does not follow from the definitions.  To say it, a recursion is unrolled some number
of times over anything at all (`EndsByItself`).  If it has more rounds than there are tokens before
the end of input, what was put below its last round makes no difference, so it was not reached.

A round only goes on after a token was taken.  So two rounds run alike from where they start if what
they go on with does where fewer tokens are left, by the walk through all parsers of the grammar.
-/
import ClipScript.Proofs.Parser.Progress
import ClipScript.Proofs.Parser.Selfsame
import Mathlib.Logic.Function.Iterate

namespace ClipScript
namespace Parser

variable {α β : Type}

/-- Both parsers run alike from here, and not back behind here. -/
def Agree (c : Cursor) (p p' : Parser α) : Prop :=
  Pairing.selfsame.Ends c (fun a a' _ => a = a') (p.run c) (p'.run c)

namespace Agree

variable {c : Cursor} {p p' : Parser α}

theorem run_eq (h : Agree c p p') : p.run c = p'.run c := by
  unfold Agree at h
  generalize p.run c = r at h ⊢
  generalize p'.run c = r' at h ⊢
  cases h with
  | ok ha hd _ => exact congrArg Except.ok (Prod.ext ha hd)
  | error he => exact congrArg Except.error he
  | loose_left hloose | loose_right hloose => exact absurd hloose id

theorem walks {m : Unit} {c' : Cursor} (h : Agree c p p') :
    Pairing.selfsame.Walks m c c' p p' fun a a' _ => a = a' := by
  rintro rfl
  exact h

theorem of_walks (h : Pairing.selfsame.Walks ⟨⟩ c c p p' fun a a' _ => a = a') : Agree c p p' :=
  h rfl

theorem of_ok {a : α} (h : p.run c = .ok (a, c)) (h' : p'.run c = .ok (a, c)) : Agree c p p' := by
  rw [Agree, h, h']
  exact .ok (P := Pairing.selfsame) (m := ⟨⟩) rfl rfl (Nat.le_refl _)

theorem of_error {e : ParseError} (h : p.run c = .error e) (h' : p'.run c = .error e) :
    Agree c p p' := by
  rw [Agree, h, h']
  exact .error rfl

theorem of_moves (h : Moves p) : Agree c p p := by
  unfold Agree
  cases hrun : p.run c with
  | error e => exact .error rfl
  | ok r => exact .ok (P := Pairing.selfsame) (m := ⟨⟩) rfl rfl (Nat.le_of_lt (h.unread_lt hrun))

end Agree

theorem run_primary_eof (again : Level → Parser Node) {c : Cursor} (hc : c.head.kind = .eof) :
    (primary again).run c = .error ⟨.unexpectedToken .expression .eof, c.head.span⟩ := by
  have hadvance : advance.run c = .ok (c.head, { c with rest := c.rest.tail }) := rfl
  rw [primary, run_bind_ok hadvance, hc]
  show Except.error (ParseError.mk (.unexpectedToken .expression c.head.kind) _) = _
  rw [hc]

theorem run_atLevel_eof (again : Level → Parser Node) {c : Cursor} (hc : c.head.kind = .eof)
    (level : Level) :
    (atLevel again level).run c = .error ⟨.unexpectedToken .expression .eof, c.head.span⟩ := by
  have hprimary := run_primary_eof again hc
  have hunary : (unary again).run c = .error ⟨.unexpectedToken .expression .eof, c.head.span⟩ := by
    rw [← hprimary, unary, run_bind_ok (run_peek c), hc]
    rfl
  have hchain : (chain again).run c = _ := run_bind_error hunary _
  refine atLevel_stacked again again
    (fun _ p _ => p.run c = .error ⟨.unexpectedToken .expression .eof, c.head.span⟩) hprimary hunary
    hchain ?_ ?_ ?_ ?_ level
  · exact run_bind_error (run_bind_error hchain _) _
  · exact fun _ _ _ _ hoperand => run_bind_error hoperand _
  · exact fun hdisjunction => run_bind_error hdisjunction _
  · exact fun hternary => run_bind_error hternary _

theorem run_expressionAt_eof {c : Cursor} (hc : c.head.kind = .eof) (n : Nat) (level : Level) :
    (expressionAt n level).run c = .error ⟨.unexpectedToken .expression .eof, c.head.span⟩ := by
  cases n with
  | zero =>
    rw [← hc]
    rfl
  | succ n => exact run_atLevel_eof _ hc level

section Rounds

variable {X ι : Type}

/-- `step` is one round of a recursion, told what to go on with, and `loop n` is the recursion with
its rounds bounded by `n`; `view` reads a parser off either.  Unrolled `k` times over anything at
all, the recursion runs like the bounded one wherever there are fewer than `k` tokens before the
next end of input.  So no run of it has a `k`th round.  The bound may be any number from that of
these tokens on. -/
def EndsByItself (step : X → X) (loop : Nat → X) (view : X → ι → Parser α) : Prop :=
  ∀ (bottom : X) (k n : Nat) (i : ι) (c : Cursor), c.unread < k → c.unread ≤ n →
    (view (loop n) i).run c = (view (step^[k] bottom) i).run c

/-- A recursion ends if it does not go on at the end of input, and elsewhere only goes on where
fewer tokens are left. -/
theorem ends_of_step {step : X → X} {loop : Nat → X} {view : X → ι → Parser α}
    (hend : ∀ next i c, c.head.kind = .eof → Agree c (view (loop 0) i) (view (step next) i))
    (hstep : ∀ n next i c,
      (∀ j d, d.unread < c.unread → Agree d (view (loop n) j) (view next j)) →
      Agree c (view (loop (n + 1)) i) (view (step next) i)) :
    EndsByItself step loop view := by
  intro bottom k
  have hagree : ∀ n i c, c.unread < k → c.unread ≤ n →
      Agree c (view (loop n) i) (view (step^[k] bottom) i) := by
    induction k with
    | zero => exact fun n i c hk => absurd hk (Nat.not_lt_zero _)
    | succ k ih =>
      intro n i c hk hn
      rw [Function.iterate_succ_apply']
      cases n with
      | zero => exact hend _ i c (Cursor.unread_eq_zero_iff.mp (by omega))
      | succ n => exact hstep n _ i c fun j d hd => ih n j d (by omega) (by omega)
  exact fun n i c hk hn => (hagree n i c hk hn).run_eq

theorem groups_selfsame (level : Level) : Pairing.selfsame.Groups level :=
  fun _ hn _ hu => hn ▸ hu ▸ rfl

theorem ends_leftRound (level : Level) {operand : Parser Node} (hoperand : Moves operand) :
    EndsByItself (leftRound level operand) (leftRounds level operand) fun next sofar =>
      next sofar := by
  refine ends_of_step (fun next sofar c hc => ?_) fun n next sofar c hnext => ?_
  · have hnone : level.operator? c.head.kind = none := by
      rw [hc]
      cases level <;> rfl
    refine .of_ok rfl ?_
    rw [leftRound, run_bind_ok (run_peek c), hnone]
    rfl
  · have hsofar : Pairing.selfsame.expr level ⟨⟩ sofar sofar ⟨⟩ := rfl
    refine .of_walks (Pairing.lawful_selfsame.walks_leftRound (groups_selfsame level)
      (fun _ _ _ _ => (Agree.of_moves hoperand).walks) (fun u u' hu hlt => ?_) hsofar)
    obtain rfl := hu
    exact (hnext u _ hlt).walks

theorem ends_separatedRound {item : List α → Parser α} (hitem : ∀ before, Moves (item before)) :
    EndsByItself (separatedRound item) (separated item) fun next before => next before := by
  refine ends_of_step (fun next before c hc => ?_) fun n next before c hnext => ?_
  · cases hrun : (item before).run c with
    | error e => exact .of_error (run_bind_error hrun _) (run_bind_error hrun _)
    | ok r => exact absurd hc ((hitem before).head_ne_eof hrun)
  · have hfirst : Pairing.selfsame.Walks ⟨⟩ c c (item before) (item before) fun a a' _ =>
        before ++ [a] = before ++ [a'] :=
      (Agree.of_moves (hitem before)).walks.imp fun a a' _ ha => ha ▸ rfl
    refine .of_walks (Pairing.lawful_selfsame.walks_separatedRound (R := fun _ l l' _ => l = l')
      ⟨⟩ hfirst fun l l' hl hlt => ?_)
    obtain rfl := hl.same id
    exact (hnext l _ hlt).walks

theorem ends_blockRound {again : Parser (Option Node)} (hagain : Moves again) :
    EndsByItself (blockRound again) (blockBody again) fun next (_ : Unit) => next := by
  refine ends_of_step (fun next _ c hc => ?_) fun n next i c hnext => ?_
  · refine .of_error (e := ⟨.unexpectedToken (.symbol .rightBrace) .eof, c.head.span⟩) ?_ ?_
    · rw [← hc]
      rfl
    · rw [blockRound, run_bind_ok (run_peek c), hc]
      show Except.error (ParseError.mk (.unexpectedToken _ c.head.kind) _) = _
      rw [hc]
  · refine .of_walks (Pairing.lawful_selfsame.walks_blockRound ?_ fun first _ hrun => ?_)
    · exact (Agree.of_moves hagain).walks.imp fun _ _ _ => Pairing.found_selfsame rfl
    · exact (hnext i _ (hagain.unread_lt hrun)).walks

theorem ends_scriptRound : EndsByItself scriptRound statements fun next (_ : Unit) => next := by
  refine ends_of_step (fun next _ c hc => ?_) fun n next i c hnext => ?_
  · refine .of_ok rfl ?_
    show (if c.head.kind == .eof then _ else _ : Parser (List Node)).run c = _
    rw [hc]
    rfl
  · refine .of_walks (Pairing.lawful_selfsame.walks_scriptRound Pairing.walkExpressions_selfsame
      fun first _ hrun => ?_)
    exact (hnext i _ (moves_statement.unread_lt hrun)).walks

theorem ends_atLevel : EndsByItself atLevel expressionAt fun again level => again level := by
  refine ends_of_step (fun next level c hc => ?_) fun n next level c hnext => ?_
  · exact .of_error (run_expressionAt_eof hc 0 level) (run_atLevel_eof next hc level)
  · refine .of_walks (Pairing.lawful_selfsame.walks_atLevel Pairing.sameImports_selfsame
      (fun j _ d _ hd => ?_) level (Nat.le_refl c.unread))
    exact (hnext j d hd).walks

theorem ends_statementWith :
    EndsByItself statementWith statementAt fun again (_ : Unit) => again := by
  refine ends_of_step (fun next _ c hc => ?_) fun n next i c hnext => ?_
  · have hzero : (statementAt 0).run c
        = .error ⟨.unexpectedToken .expression .eof, c.head.span⟩ := by
      rw [← hc]
      rfl
    refine .of_error hzero ?_
    rw [statementWith, run_bind_ok (run_peek c), hc]
    have hexpression : expression.run c = _ := run_expressionAt_eof hc c.rest.length .assignment
    exact run_bind_error hexpression _
  · have hagain : Pairing.selfsame.WalkStatements c.unread (statementAt n) next := by
      rintro m d _ hd rfl
      have hwalks : Pairing.selfsame.Walks m d d (statementAt n) next fun x x' _ => x = x' :=
        (hnext i d hd).walks
      exact hwalks.imp (fun _ _ _ => Pairing.found_selfsame rfl) rfl
    have hwalks : Pairing.selfsame.Walks ⟨⟩ c c (statementWith (statementAt n))
        (statementWith next) _ := Pairing.lawful_selfsame.walks_statementWith
      Pairing.walkExpressions_selfsame hagain (Nat.le_refl c.unread)
    exact .of_walks (hwalks.imp fun _ _ _ => Pairing.Found.same)

end Rounds

structure AdvanceAndEnd : Prop where
  advances_expressionAt : ∀ n level, Advances (expressionAt n level)
  advances_expression : Advances expression
  advances_argument : ∀ n before, Advances (argument (expressionAt n) before)
  advances_param : Advances param
  advances_paramOf : ∀ function before, Advances (paramOf function before)
  advances_block : ∀ n, Advances (block (statementAt n))
  advances_statementAt : ∀ n, Advances (statementAt n)
  advances_statement : Advances statement
  -- the tokens that bound the rounds are those before the first end of input, or more
  unread_le : ∀ c : Cursor, c.unread ≤ c.rest.length
  left_ends : ∀ n level,
    EndsByItself (leftRound level (atLevel (expressionAt n) level.tighter))
      (leftRounds level (atLevel (expressionAt n) level.tighter)) fun next sofar => next sofar
  arguments_end : ∀ n, EndsByItself (separatedRound (argument (expressionAt n)))
    (separated (argument (expressionAt n))) fun next before => next before
  params_end : ∀ function, EndsByItself (separatedRound (paramOf function))
    (separated (paramOf function)) fun next before => next before
  block_ends : ∀ n, EndsByItself (blockRound (statementAt n)) (blockBody (statementAt n))
    fun next (_ : Unit) => next
  script_ends : EndsByItself scriptRound statements fun next (_ : Unit) => next
  levels_end : EndsByItself atLevel expressionAt fun again level => again level
  nesting_ends : EndsByItself statementWith statementAt fun again (_ : Unit) => again

/-- Every parser of the grammar moves on whenever it succeeds, and stays before the first end of
input.  So every loop of the grammar ends by itself: the operands of a level, the arguments of a
call, the parameters of a function, the statements of a block and those of a script.  So do the two
recursions, from a level back to any level and from a statement to those inside it. -/
theorem every_parser_advances_and_ends : AdvanceAndEnd where
  advances_expressionAt n level := (moves_expressionAt n level).advances
  advances_expression := moves_expression.advances
  advances_argument n before := (moves_argument n before).advances
  advances_param := moves_param.advances
  advances_paramOf function before := (moves_paramOf function before).advances
  advances_block n := (moves_block n).advances
  advances_statementAt n := (moves_statementAt n).advances
  advances_statement := moves_statement.advances
  unread_le := Cursor.unread_le
  left_ends n level := ends_leftRound level (moves_expressionAt (n + 1) level.tighter)
  arguments_end n := ends_separatedRound (moves_argument n)
  params_end function := ends_separatedRound (moves_paramOf function)
  block_ends n := ends_blockRound (moves_statementAt n)
  script_ends := ends_scriptRound
  levels_end := ends_atLevel
  nesting_ends := ends_statementWith

end Parser
end ClipScript
