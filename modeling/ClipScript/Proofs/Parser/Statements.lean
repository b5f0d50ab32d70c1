/-
Statements and scripts are read back as they were written.

A statement may end in an `if` that an `else` would be taken to belong to, so what may come after a
statement depends on the statement.  Imports change what is known as a plugin for everything after
them in the text, blocks and branches included, and the parser hands this on in the same order as
`Surface.Stmt.importedAfter`.
-/
import ClipScript.Proofs.Parser.Expressions

namespace ClipScript
namespace Parser

open Reads Surface

variable {imported : List String} {mark : Mark}

theorem reads_expression {e : Expr} (h : e.admitted imported) :
    Reads imported imported expression (e.kinds mark imported) Level.assignment.EndsBefore
      fun n => n.unplaced = e.toNode :=
  remaining_bind fun _ hn => (legible h).readsAgain (Nat.zero_le _) hn

/-! ## Parameters -/

/-- The keyword that says whether a parameter can be left out, if there is one. -/
theorem reads_accept_opt (optional : Bool) (kind : ParamKind) :
    Reads imported imported (accept (.keyword .optKw)) (if optional then [.keyword .optKw] else [])
      (fun k => k = .keyword kind.keyword) fun b => b = optional := by
  cases optional with
  | true => exact (accept_true _).stopping fun _ _ => trivial
  | false =>
    refine (accept_false _).stopping fun k hk => ?_
    rw [hk]
    cases kind <;> nofun

theorem reads_param (optional : Bool) (kind : ParamKind) (name : String) :
    Reads imported imported param
      ((if optional then [.keyword .optKw] else []) ++ [.keyword kind.keyword, .identifier name])
      anything fun p => p.unplaced = ⟨name, kind.toValueKind, optional, .nowhere⟩ := by
  refine peek_bind fun t _ => ?_
  refine bind (reads_accept_opt optional kind) (fun b hb => ?_) fun _ _ => rfl
  subst hb
  refine cons (Reads.advance (.keyword kind.keyword)) fun t ht => ?_
  rw [ht]
  cases kind <;>
    refine pure_bind (finish (Reads.expectName .parameterName name) (fun found hfound => ?_)
      fun _ _ => trivial) <;>
    refine pure ?_ <;>
    rw [← hfound] <;>
    rfl

def mayFollowParam (p q : Param) : Prop := q.optional = false → p.optional = false

theorem reads_paramOf (function : String) (optional : Bool) (kind : ParamKind) (name : String)
    {earlier : List Param} (hearlier : ∀ p ∈ earlier, optional = false → p.optional = false) :
    Reads imported imported (paramOf function earlier)
      ((if optional then [.keyword .optKw] else []) ++ [.keyword kind.keyword, .identifier name])
      atItemEnd fun p => p.unplaced = ⟨name, kind.toValueKind, optional, .nowhere⟩ := by
  refine finish (reads_param optional kind name) (fun found hfound => ?_) fun _ _ => trivial
  have hoptional : found.optional = optional := congrArg Param.optional hfound
  have horder : (!found.optional && earlier.any (·.optional)) = false := by
    rw [hoptional]
    cases optional with
    | true => rfl
    | false =>
      rw [Bool.not_false, Bool.true_and, List.any_eq_false]
      intro p hp
      rw [hearlier p hp rfl]
      nofun
  rw [horder]
  exact pure hfound

theorem reads_params (function : String) (params : Params) :
    Reads imported imported (Parser.parenthesised (paramOf function))
      (paren (commas (params.items.map Prod.fst))) anything
      fun found => found.1.map Param.unplaced = params.items.map Prod.snd := by
  have hitem : ∀ x ∈ params.items, ∀ earlier : List Param,
      (∀ p ∈ earlier, mayFollowParam p.unplaced x.2) →
      Reads imported imported (paramOf function earlier) x.1 atItemEnd
        fun p => p.unplaced = x.2 := by
    intro x hx earlier hearlier
    rw [Params.items, List.mem_append, List.mem_map, List.mem_map] at hx
    rcases hx with ⟨y, _, rfl⟩ | ⟨y, _, rfl⟩
    · exact reads_paramOf function false y.1 y.2 hearlier
    · exact reads_paramOf function true y.1 y.2 hearlier
  refine Reads.parenthesised hitem ?_ ?_
  · rw [Params.items, List.pairwise_append, List.pairwise_map, List.pairwise_map]
    refine ⟨List.pairwise_of_forall fun _ _ _ => rfl, List.pairwise_of_forall fun _ _ => nofun, ?_⟩
    intro x hx y hy hmandatory
    obtain ⟨z, _, rfl⟩ := List.mem_map.mp hy
    cases hmandatory
  · intro x hx k
    rw [Params.items, List.mem_append, List.mem_map, List.mem_map] at hx
    rcases hx with ⟨y, _, rfl⟩ | ⟨y, _, rfl⟩ <;> nofun

/-! ## Statements -/

/-- What may come after a statement: no `else` that would be taken to belong to it. -/
def mayEnd (s : Stmt) (k : TokenKind) : Prop := s.isOpen → k ≠ .keyword .elseKw

/-- A statement is read back, with a bound that its tokens do not exceed. -/
def LegibleStmt (mark : Mark) (s : Stmt) : Prop :=
  ∀ imported n, s.admitted imported → (s.kinds mark imported).length ≤ n →
    Reads imported (s.importedAfter imported) (statementAt n) (s.kinds mark imported) (mayEnd s)
      fun found => found.map Node.unplaced = some s.toNode

theorem reads_some {after : List String} {p : Parser Node} {kinds : List TokenKind}
    {stop : TokenKind → Prop} {node : Node}
    (h : Reads imported after p kinds stop fun n => n.unplaced = node) :
    Reads imported after (some <$> p) kinds stop fun found => found.map Node.unplaced = some node :=
  h.map fun _ hfound => congrArg some hfound

/-- It is enough to look at the form of the statement. -/
theorem legibleStmt_of_statementWith {s : Stmt}
    (h : ∀ imported n, s.admitted imported → (s.kinds mark imported).length ≤ n + 1 →
      Reads imported (s.importedAfter imported) (statementWith (statementAt n))
        (s.kinds mark imported) (mayEnd s) fun found => found.map Node.unplaced = some s.toNode) :
    LegibleStmt mark s := by
  intro imported n hs hn
  obtain ⟨k, rest, hkinds, -⟩ := s.begins mark imported
  obtain ⟨m, rfl⟩ : ∃ m, n = m + 1 := ⟨n - 1, by rw [hkinds, List.length_cons] at hn; omega⟩
  exact h imported m hs hn

theorem mayEnd_headD {s : Stmt} {body : List Stmt} {k : TokenKind} (hk : k ≠ .keyword .elseKw) :
    mayEnd s ((Stmt.kindsAll mark body imported).headD k) := by
  intro _
  cases body with
  | nil => exact hk
  | cons next body =>
    obtain ⟨k', rest, hkinds, hk'⟩ := next.begins mark imported
    rw [Stmt.kindsAll, hkinds]
    rintro rfl
    cases hk'

theorem reads_blockBody {body : List Stmt} {n : Nat} (hbody : ∀ s ∈ body, LegibleStmt mark s)
    (hadmitted : Stmt.admittedAll body imported)
    (hn : (Stmt.kindsAll mark body imported).length ≤ n) (rounds : Nat)
    (hrounds : (Stmt.kindsAll mark body imported).length < rounds) :
    Reads imported (Stmt.importedAfterAll body imported) (blockBody (statementAt n) rounds)
      (Stmt.kindsAll mark body imported) (fun k => k = .symbol .rightBrace)
      fun found => found.map Node.unplaced = Stmt.toNodes body := by
  obtain ⟨rounds, rfl⟩ : ∃ m, rounds = m + 1 := ⟨rounds - 1, by omega⟩
  induction body generalizing imported rounds with
  | nil =>
    refine peek_bind_nil fun t ht => ?_
    rw [ht]
    exact pure rfl
  | cons s rest ih =>
    rw [Stmt.admittedAll, Bool.and_eq_true] at hadmitted
    rw [List.forall_mem_cons] at hbody
    obtain ⟨k, more, hkinds, hk⟩ := s.begins mark imported
    have hlength : (s.kinds mark imported).length = more.length + 1 := by
      rw [hkinds, List.length_cons]
    rw [Stmt.kindsAll] at hn hrounds ⊢
    rw [List.length_append] at hn hrounds
    have hthis := hbody.1 imported n hadmitted.1 (by omega)
    obtain ⟨rounds, rfl⟩ : ∃ m, rounds = m + 1 := ⟨rounds - 1, by omega⟩
    have hrest := ih hbody.2 hadmitted.2 (by omega) rounds (by omega)
    refine peek_bind fun t ht => ?_
    have hkind : Stmt.isContinuation t.kind = false := by
      obtain ⟨_, _, ht⟩ := ht
      rw [ht, hkinds]
      exact hk
    split
    · next hbrace =>
      rw [hbrace] at hkind
      cases hkind
    · next heof =>
      rw [heof] at hkind
      cases hkind
    · refine bind hthis (fun found hfound => ?_) fun k hk => mayEnd_headD (by rw [hk]; nofun)
      refine finish hrest (fun others hothers => pure ?_) fun _ hk => hk
      rw [Option.map_eq_some_iff] at hfound
      obtain ⟨node, rfl, hnode⟩ := hfound
      rw [List.map_append, hothers, Stmt.toNodes, ← hnode]
      rfl

theorem reads_block {body : List Stmt} {n : Nat} (hbody : ∀ s ∈ body, LegibleStmt mark s)
    (hadmitted : Stmt.admittedAll body imported)
    (hn : (Stmt.kindsAll mark body imported).length ≤ n) :
    Reads imported (Stmt.importedAfterAll body imported) (block (statementAt n))
      (.symbol .leftBrace :: Stmt.kindsAll mark body imported ++ [.symbol .rightBrace]) anything
      fun found => found.unplaced = .sequence .nowhere (Stmt.toNodes body) := by
  rw [List.cons_append]
  refine cons (Reads.expect .leftBrace) fun start _ => ?_
  refine remaining_bind fun rounds hrounds => ?_
  rw [List.length_append, List.length_singleton] at hrounds
  refine bind (reads_blockBody hbody hadmitted hn rounds (by omega)) (fun found hfound => ?_)
    fun _ _ => rfl
  refine cons (Reads.advance _) fun t _ => pure ?_
  rw [Node.unplaced, Node.unplacedAll_eq_map, hfound]

theorem reads_branch {s : Stmt} {n : Nat} (h : LegibleStmt mark s) (hs : s.admitted imported)
    (hn : (s.kinds mark imported).length ≤ n) :
    Reads imported (s.importedAfter imported) (branch (statementAt n)) (s.kinds mark imported)
      (mayEnd s) fun found => found.unplaced = s.toNode := by
  refine peek_bind fun t _ => ?_
  refine finish (h imported n hs hn) (fun found hfound => pure ?_) fun _ hk => hk
  rw [Option.map_eq_some_iff] at hfound
  obtain ⟨node, rfl, hnode⟩ := hfound
  exact hnode

/-! ## Forms of statements -/

theorem legibleStmt_expr (e : Expr) : LegibleStmt mark (.expr e) := by
  refine legibleStmt_of_statementWith fun imported n hs _ => ?_
  rw [Stmt.admitted] at hs
  have hvalue : Reads imported imported
      (do
        let value ← expression
        discard <| Parser.expect .semicolon
        return some value)
      ((Stmt.expr e).kinds mark imported) (mayEnd (.expr e))
      fun found => found.map Node.unplaced = some (Stmt.expr e).toNode := by
    rw [Stmt.kinds]
    refine bind (reads_expression hs) (fun found hfound => ?_)
      fun _ _ => Level.endsBefore_of_isCloser rfl _
    refine cons (Reads.expect .semicolon).discard fun _ _ => pure ?_
    rw [Option.map_some, hfound]
    rfl
  obtain ⟨k, rest, hkinds, hk⟩ := e.begins mark imported
  refine peek_bind fun t ht => ?_
  have hkind : Expr.isBeginning t.kind := by
    obtain ⟨_, _, ht⟩ := ht
    rw [ht, Stmt.kinds, hkinds]
    exact hk
  -- no form of statement but this one begins like an expression
  generalize t.kind = k at hkind
  unfold Expr.isBeginning at hkind
  split at hkind <;> first | exact hvalue | cases hkind

theorem legibleStmt_block {body : List Stmt} (hbody : ∀ s ∈ body, LegibleStmt mark s) :
    LegibleStmt mark (.block body) := by
  refine legibleStmt_of_statementWith fun imported n hs hn => ?_
  rw [Stmt.admitted] at hs
  rw [Stmt.kinds] at hn ⊢
  rw [List.length_append, List.length_cons] at hn
  refine peek_bind_cons fun t ht => ?_
  rw [ht]
  exact (reads_some (reads_block hbody hs (by omega))).stopping fun _ _ => trivial

theorem reads_if {condition : Expr} {yes : Stmt} {n : Nat} {after : List String}
    {more : List TokenKind} {stop : TokenKind → Prop} {good : Node → Prop}
    (hcondition : condition.admitted imported) (hyes : LegibleStmt mark yes)
    (hadmitted : yes.admitted imported) (hn : (yes.kinds mark imported).length ≤ n)
    (hmore : ∀ (start : Span) (c y : Node), c.unplaced = condition.toNode →
      y.unplaced = yes.toNode →
      Reads (yes.importedAfter imported) after
        (do
          let no ← if ← accept (.keyword .elseKw) then some <$> branch (statementAt n)
            else pure none
          return Node.ifElse (start.merge (no.getD y).span) c y no) more stop good)
    (hmeet : ∀ k, stop k → mayEnd yes (more.headD k)) :
    Reads imported after (ifStatement (statementAt n))
      (.keyword .ifKw :: paren (condition.kinds mark imported) ++ (yes.kinds mark imported ++ more))
      stop good := by
  rw [paren, List.cons_append, List.cons_append, List.cons_append, List.append_assoc,
    List.cons_append, List.nil_append]
  refine cons (Reads.advance (.keyword .ifKw)) fun t _ => ?_
  refine cons (Reads.expect .leftParen).discard fun _ _ => ?_
  refine bind (reads_expression hcondition) (fun c hc => ?_)
    fun _ _ => Level.endsBefore_of_isCloser rfl _
  refine cons (Reads.expect .rightParen).discard fun _ _ => ?_
  exact bind (reads_branch hyes hadmitted hn) (fun y hy => hmore t.span c y hc hy) hmeet

theorem legibleStmt_ifThen (condition : Expr) {yes : Stmt} (hyes : LegibleStmt mark yes) :
    LegibleStmt mark (.ifThen condition yes) := by
  refine legibleStmt_of_statementWith fun imported n hs hn => ?_
  rw [Stmt.admitted, Bool.and_eq_true] at hs
  rw [Stmt.kinds] at hn ⊢
  rw [List.length_append, List.length_cons] at hn
  refine peek_bind_cons fun t ht => ?_
  rw [ht]
  have hif : Reads imported (yes.importedAfter imported) (ifStatement (statementAt n))
      (.keyword .ifKw :: paren (condition.kinds mark imported) ++ (yes.kinds mark imported ++ []))
      (mayEnd (.ifThen condition yes))
      fun found => found.unplaced = (Stmt.ifThen condition yes).toNode := by
    refine reads_if hs.1 hyes hs.2 (by omega) (fun start c y hc hy => ?_) fun _ hk _ => hk rfl
    refine look (accept_false _) (fun b hb => ?_) fun _ hk => hk rfl
    subst hb
    refine pure_bind (pure ?_)
    rw [Node.unplaced_ifElse, hc, hy]
    rfl
  rw [List.append_nil] at hif
  exact reads_some hif

theorem legibleStmt_ifElse (condition : Expr) {yes no : Stmt} (hyes : LegibleStmt mark yes)
    (hno : LegibleStmt mark no) : LegibleStmt mark (.ifElse condition yes no) := by
  refine legibleStmt_of_statementWith fun imported n hs hn => ?_
  rw [Stmt.admitted, Bool.and_eq_true, Bool.and_eq_true, Bool.and_eq_true] at hs
  obtain ⟨⟨⟨hcondition, hclosed⟩, hyes'⟩, hno'⟩ := hs
  rw [Stmt.kinds] at hn ⊢
  rw [List.length_append, List.length_cons, List.length_append, List.length_cons] at hn
  refine peek_bind_cons fun t ht => ?_
  rw [ht]
  have hif : Reads imported ((Stmt.ifElse condition yes no).importedAfter imported)
      (ifStatement (statementAt n))
      (.keyword .ifKw :: paren (condition.kinds mark imported) ++ (yes.kinds mark imported
        ++ .keyword .elseKw :: no.kinds mark (yes.importedAfter imported)))
      (mayEnd (.ifElse condition yes no))
      fun found => found.unplaced = (Stmt.ifElse condition yes no).toNode := by
    refine reads_if hcondition hyes hyes' (by omega) (fun start c y hc hy => ?_) fun _ _ hopen => ?_
    · refine cons (accept_true (.keyword .elseKw)) fun b hb => ?_
      subst hb
      have hbranch : Reads (yes.importedAfter imported)
          (no.importedAfter (yes.importedAfter imported)) (some <$> branch (statementAt n))
          (no.kinds mark (yes.importedAfter imported)) (mayEnd no)
          fun found => found.map Node.unplaced = some no.toNode :=
        reads_some (reads_branch hno hno' (by omega))
      refine finish hbranch (fun found hfound => pure ?_) fun _ hk => hk
      rw [Node.unplaced_ifElse, hc, hy, hfound]
      rfl
    · rw [hopen] at hclosed
      cases hclosed
  exact reads_some hif

theorem legibleStmt_functionDef (name : String) (params : Params) {body : List Stmt}
    (hbody : ∀ s ∈ body, LegibleStmt mark s) :
    LegibleStmt mark (.functionDef name params body) := by
  refine legibleStmt_of_statementWith fun imported n hs hn => ?_
  rw [Stmt.admitted] at hs
  rw [Stmt.kinds, List.append_assoc, List.cons_append, List.cons_append] at hn ⊢
  rw [List.length_cons, List.length_cons, List.length_append, List.length_append,
    List.length_cons] at hn
  refine peek_bind_cons fun t ht => ?_
  rw [ht]
  have hfunction : Reads imported (Stmt.importedAfterAll body imported)
      (functionStatement (statementAt n))
      (.keyword .functionKw :: .identifier name :: (paren (commas (params.items.map Prod.fst))
        ++ (.symbol .leftBrace :: Stmt.kindsAll mark body imported ++ [.symbol .rightBrace])))
      anything fun found => found.unplaced = (Stmt.functionDef name params body).toNode := by
    refine cons (Reads.advance (.keyword .functionKw)) fun t _ => ?_
    refine cons (Reads.expectName .functionName name) fun found hname => ?_
    obtain ⟨x, place⟩ := found
    obtain rfl : x = name := hname
    refine bind (reads_params x params) (fun found hparams => ?_) fun _ _ => trivial
    refine finish (reads_block hbody hs (by omega)) (fun block hblock => pure ?_) fun _ hk => hk
    rw [Node.unplaced, hparams, hblock]
    rfl
  exact (reads_some hfunction).stopping fun _ _ => trivial

theorem legibleStmt_defaultValue (name : String) (value : Expr) :
    LegibleStmt mark (.defaultValue name value) := by
  refine legibleStmt_of_statementWith fun imported n hs _ => ?_
  rw [Stmt.admitted] at hs
  rw [Stmt.kinds]
  refine peek_bind_cons fun t ht => ?_
  rw [ht]
  refine reads_some ?_
  refine cons (Reads.advance (.keyword .defaultKw)) fun t _ => ?_
  refine cons (Reads.expect .leftParen).discard fun _ _ => ?_
  refine cons (Reads.expectName .parameterName name) fun found hname => ?_
  obtain ⟨x, place⟩ := found
  obtain rfl : x = name := hname
  refine cons (Reads.expect .comma).discard fun _ _ => ?_
  refine bind (reads_expression hs) (fun v hv => ?_) fun _ _ => Level.endsBefore_of_isCloser rfl _
  refine cons (Reads.expect .rightParen).discard fun _ _ => ?_
  refine cons (Reads.expect .semicolon) fun finish _ => pure ?_
  rw [Node.unplaced, hv]
  rfl

theorem legibleStmt_returnValue (value : Option Expr) : LegibleStmt mark (.returnValue value) := by
  refine legibleStmt_of_statementWith fun imported n hs _ => ?_
  have hfinish : ∀ (start : Span) (v : Option Node),
      v.map Node.unplaced = value.map Expr.toNode →
      Reads imported imported
        (do
          let finish ← Parser.expect .semicolon
          return Node.returnValue (start.merge finish) v) [.symbol .semicolon]
        (mayEnd (.returnValue value))
        fun found => found.unplaced = (Stmt.returnValue value).toNode := by
    intro start v hv
    refine cons (Reads.expect .semicolon) fun finish _ => pure ?_
    rw [Node.unplaced_returnValue, hv]
    rfl
  cases value with
  | none =>
    rw [Stmt.kinds]
    refine peek_bind_cons fun t ht => ?_
    rw [ht]
    refine reads_some ?_
    refine cons (Reads.advance (.keyword .returnKw)) fun t _ => ?_
    refine look (check_true _) (fun b hb => ?_) fun _ _ => rfl
    subst hb
    exact pure_bind (hfinish t.span none rfl)
  | some value =>
    rw [Stmt.admitted] at hs
    rw [Stmt.kinds, List.cons_append]
    obtain ⟨k, rest, hkinds, hk⟩ := value.begins mark imported
    refine peek_bind_cons fun t ht => ?_
    rw [ht]
    refine reads_some ?_
    refine cons (Reads.advance (.keyword .returnKw)) fun t _ => ?_
    refine look (check_false (.symbol .semicolon)) (fun b hb => ?_) fun _ _ => ?_
    · subst hb
      have hvalue : Reads imported imported (some <$> expression) (value.kinds mark imported)
          Level.assignment.EndsBefore fun v => v.map Node.unplaced = some value.toNode :=
        reads_some (reads_expression hs)
      exact bind hvalue (fun v hv => hfinish t.span v hv)
        fun _ _ => Level.endsBefore_of_isCloser rfl _
    · rw [hkinds]
      rintro rfl
      cases hk

theorem reads_modify_imported (name : String) (stop : TokenKind → Prop) :
    Reads imported (name :: imported)
      (modify fun c : Cursor => { c with imported := name :: c.imported }) [] stop
      fun _ => True := by
  intro ts rest finish hts _
  rw [List.map_eq_nil_iff] at hts
  subst hts
  exact ⟨(), rfl, trivial⟩

theorem legibleStmt_importName (name : String) : LegibleStmt mark (.importName name) := by
  refine legibleStmt_of_statementWith fun imported n _ _ => ?_
  rw [Stmt.kinds]
  refine peek_bind_cons fun t ht => ?_
  rw [ht]
  refine reads_some ?_
  refine cons (Reads.advance (.keyword .importKw)) fun t _ => ?_
  refine cons (Reads.expectName .importName name) fun found hname => ?_
  obtain ⟨x, place⟩ := found
  obtain rfl : x = name := hname
  refine cons (Reads.expect .semicolon) fun finish _ => ?_
  exact look (reads_modify_imported x anything) (fun _ _ => pure rfl) fun _ _ => trivial

theorem legibleStmt (mark : Mark) (s : Stmt) : LegibleStmt mark s := by
  induction s using Stmt.induct with
  | expr e => exact legibleStmt_expr e
  | block body ih => exact legibleStmt_block ih
  | ifThen condition yes ih => exact legibleStmt_ifThen condition ih
  | ifElse condition yes no ihyes ihno => exact legibleStmt_ifElse condition ihyes ihno
  | functionDef name params body ih => exact legibleStmt_functionDef name params ih
  | defaultValue name value => exact legibleStmt_defaultValue name value
  | returnValue value => exact legibleStmt_returnValue value
  | importName name => exact legibleStmt_importName name

/-! ## Scripts -/

theorem reads_statements {body : List Stmt} (h : Stmt.admittedAll body imported) (n : Nat)
    (hn : (Stmt.kindsAll mark body imported).length ≤ n) :
    Reads imported (Stmt.importedAfterAll body imported) (statements n)
      (Stmt.kindsAll mark body imported) (fun k => k = .eof)
      fun found => found.map Node.unplaced = Stmt.toNodes body := by
  induction body generalizing imported n with
  | nil =>
    cases n with
    | zero => exact pure rfl
    | succ n =>
      refine look (check_true _) (fun b hb => ?_) fun _ hk => hk
      subst hb
      exact pure rfl
  | cons s rest ih =>
    rw [Stmt.admittedAll, Bool.and_eq_true] at h
    obtain ⟨k, more, hkinds, hk⟩ := s.begins mark imported
    have hlength : (s.kinds mark imported).length = more.length + 1 := by
      rw [hkinds, List.length_cons]
    rw [Stmt.kindsAll] at hn ⊢
    rw [List.length_append] at hn
    obtain ⟨n, rfl⟩ : ∃ m, n = m + 1 := ⟨n - 1, by omega⟩
    refine look (check_false .eof) (fun b hb => ?_) fun _ _ => ?_
    · subst hb
      have hfirst : Reads imported (s.importedAfter imported) statement (s.kinds mark imported)
          (mayEnd s) fun found => found.map Node.unplaced = some s.toNode :=
        remaining_bind fun m hm => legibleStmt mark s imported m h.1 hm
      refine bind hfirst (fun found hfound => ?_) fun k hk => mayEnd_headD (by rw [hk]; nofun)
      refine finish (ih h.2 n (by omega)) (fun others hothers => pure ?_) fun _ hk => hk
      rw [Option.map_eq_some_iff] at hfound
      obtain ⟨node, rfl, hnode⟩ := hfound
      rw [List.map_append, hothers, Stmt.toNodes, ← hnode]
      rfl
    · rw [hkinds]
      rintro rfl
      cases hk

theorem reads_program {body : List Stmt} (h : Stmt.admittedAll body imported) :
    Reads imported (Stmt.importedAfterAll body imported) program
      (Stmt.kindsAll mark body imported) (fun k => k = .eof)
      fun found => found.statements.map Node.unplaced = Stmt.toNodes body := by
  refine peek_bind fun t _ => ?_
  refine remaining_bind fun n hn => ?_
  exact finish (reads_statements h n hn) (fun found hfound => pure hfound) fun _ hk => hk

end Parser

/-- A program that is written down and read again comes back, whatever the places of its tokens
are. -/
theorem Program.ofTokens_kinds (mark : Surface.Mark) (body : List Surface.Stmt)
    (h : Surface.Stmt.admittedAll body []) (tokens : List Token)
    (htokens : tokens.map Token.kind = Surface.Stmt.kindsAll mark body [] ++ [.eof]) :
    ∃ program, Program.ofTokens tokens = .ok program ∧
      program.statements.map Node.unplaced = Surface.Stmt.toNodes body := by
  obtain ⟨ts, last, rfl, hts, hlast⟩ := List.map_eq_append_iff.mp htokens
  obtain ⟨t, last, rfl, ht, hnil⟩ := List.map_eq_cons_iff.mp hlast
  obtain rfl := List.map_eq_nil_iff.mp hnil
  obtain ⟨program, hrun, hprogram⟩ := Parser.reads_program h ts [t] _ hts ht
  refine ⟨program, ?_, hprogram⟩
  show Prod.fst <$> Parser.program.run (Cursor.start (ts ++ [t])) = _
  rw [Cursor.start, hrun]
  rfl

/-- The script `import p; f(((p) = a), n: (p).g(a - (b - c)));`, in which every kind of parentheses
is needed. -/
theorem Program.ofTokens_kinds_parentheses :
    let name (x : String) : Node := .leaf .nowhere (.identifier x)
    let minus (lhs rhs : Node) : Node := .binary .nowhere (.arithmetic .sub) lhs rhs
    let tokens : List Token :=
      [.keyword .importKw, .identifier "p", .symbol .semicolon,
        .identifier "f", .symbol .leftParen,
        .symbol .leftParen, .symbol .leftParen, .identifier "p", .symbol .rightParen,
        .symbol .equals, .identifier "a", .symbol .rightParen, .symbol .comma,
        .identifier "n", .symbol .colon,
        .symbol .leftParen, .identifier "p", .symbol .rightParen, .symbol .dot,
        .identifier "g", .symbol .leftParen, .identifier "a", .symbol .minus,
        .symbol .leftParen, .identifier "b", .symbol .minus, .identifier "c", .symbol .rightParen,
        .symbol .rightParen, .symbol .rightParen, .symbol .semicolon, .eof].map
        fun kind => ⟨kind, .nowhere⟩
    ∃ program, Program.ofTokens tokens = .ok program ∧
      program.statements.map Node.unplaced =
        [.importName .nowhere "p",
          .call .nowhere (.named "f")
            [⟨none, .assign .nowhere (name "p") .assign (name "a")⟩,
              ⟨some "n", .chain .nowhere (name "p") (.call .nowhere (.named "g")
                [⟨none, minus (name "a") (minus (name "b") (name "c"))⟩])⟩]] :=
  let difference : Surface.Expr := .binary (.arithmetic .sub) (.name "a")
    (.binary (.arithmetic .sub) (.name "b") (.name "c"))
  Program.ofTokens_kinds .colon
    [.importName "p",
      .expr (.call (.named "f") [.assign (.name "p") .assign (.name "a")]
        [("n", .chain (.name "p") (.call (.named "g") [difference] []))])]
    rfl _ rfl

end ClipScript
