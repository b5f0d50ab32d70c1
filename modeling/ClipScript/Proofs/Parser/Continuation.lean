/-
What comes behind a statement does not change how it is read.

The tokens of a statement settle how it is read, and all it looks for behind them is `else`
(`settles_statement`).  So let other tokens come in place of the end of input, and let the first of
them not be that word.  The statements before it are read as they were, and then those behind it, as
if they stood alone but for the names that are imported by then (`run_statements_append`).
-/
import ClipScript.Proofs.Grammar.Words
import ClipScript.Proofs.Parser.Derivation
import ClipScript.Proofs.Parser.Settled

namespace ClipScript

open Grammar (Imports)

namespace Parser

open Token

theorem run_statements_succ {n : Nat} {c c₁ c₂ : Cursor} {first : Option Node} {rest : List Node}
    (hc : c.head.kind ≠ .eof) (hfirst : statement.run c = .ok (first, c₁))
    (hrest : (statements n).run c₁ = .ok (rest, c₂)) :
    (statements (n + 1)).run c = .ok (first.toList ++ rest, c₂) := by
  have hcheck : (check .eof).run c = .ok (false, c) := by
    rw [← beq_false_of_ne hc]
    rfl
  have hfirst' : (statement >>= fun first => do
      let rest ← statements n
      return first.toList ++ rest).run c = .ok (first.toList ++ rest, c₂) := by
    rw [run_bind_ok hfirst, run_bind_ok hrest]
    rfl
  rw [statements, run_bind_ok hcheck]
  exact hfirst'

theorem exists_of_run_statements {n : Nat} {c c₂ : Cursor} {body : List Node}
    (h : (statements (n + 1)).run c = .ok (body, c₂)) :
    c.head.kind = .eof ∧ body = [] ∧ c₂ = c ∨
      c.head.kind ≠ .eof ∧ ∃ first c₁ rest, statement.run c = .ok (first, c₁) ∧
        (statements n).run c₁ = .ok (rest, c₂) ∧ body = first.toList ++ rest := by
  obtain ⟨done, d, hcheck, h⟩ := exists_of_run_bind h
  cases hcheck
  split at h
  · next hend =>
    cases h
    exact .inl ⟨eq_of_beq hend, rfl, rfl⟩
  · next hend =>
    obtain ⟨first, c₁, hfirst, h⟩ := exists_of_run_bind h
    obtain ⟨rest, c₂, hrest, h⟩ := exists_of_run_bind h
    cases h
    exact .inr ⟨fun heof => hend (beq_iff_eq.mpr heof), first, c₁, rest, hfirst, hrest, rfl⟩

/-- Tokens are taken for a statement, and they hold the imports that it makes known. -/
theorem exists_of_run_statement {before : List TokenKind} {c c' : Cursor} {first : Option Node}
    (hknown : ∀ x ∈ c.imported, Imports before x) (h : statement.run c = .ok (first, c')) :
    ∃ taken, taken ≠ [] ∧ c.rest = taken ++ c'.rest ∧ (∀ t ∈ taken, t.kind ≠ .eof) ∧
      ∀ x ∈ c'.imported, Imports (before ++ taken.map Token.kind) x := by
  obtain ⟨kinds, hcross, hknown', hsentence⟩ := sentence_of_run_statement hknown h
  obtain ⟨taken, rfl, hrest⟩ := hcross.rest
  refine ⟨taken, ?_, hrest, fun t ht hk => ?_, hknown'⟩
  · rintro rfl
    exact hsentence.kinds_ne_nil rfl
  · exact hcross.ordinary (List.mem_map.mpr ⟨t, ht, hk⟩)

/-- Tokens that stand before the end of input leave the others before it, and then it. -/
theorem exists_of_append_eq {ts taken rest : List Token} {last : Token} (hlast : last.kind = .eof)
    (htaken : ∀ t ∈ taken, t.kind ≠ .eof) (h : ts ++ [last] = taken ++ rest) :
    ∃ left, ts = taken ++ left ∧ rest = left ++ [last] := by
  rcases List.eq_nil_or_concat' rest with rfl | ⟨left, u, rfl⟩
  · rw [List.append_nil] at h
    exact absurd hlast (htaken last (h ▸ List.mem_append_right ts List.mem_cons_self))
  · rw [← List.append_assoc] at h
    obtain ⟨hts, hu⟩ := List.append_inj' h rfl
    cases hu
    exact ⟨left, hts, rfl⟩

/-- A statement that is read before the end of input is read before other tokens, if the first of
these is not `else`. -/
theorem run_statement_append (more : List Token) {before : List TokenKind} {ts : List Token}
    {last next : Token} {imported : List String} {finish : Span} {first : Option Node} {c : Cursor}
    (hlast : last.kind = .eof) (hnext : next.kind ≠ .keyword .elseKw)
    (hknown : ∀ x ∈ imported, Imports before x)
    (hrun : statement.run ⟨ts ++ [last], finish, imported⟩ = .ok (first, c)) :
    ∃ taken left imported', taken ≠ [] ∧ ts = taken ++ left ∧
      c = ⟨left ++ [last], finish, imported'⟩ ∧
      (∀ x ∈ imported', Imports (before ++ taken.map Token.kind) x) ∧
      ∀ finish', statement.run ⟨ts ++ next :: more, finish', imported⟩
        = .ok (first, ⟨left ++ next :: more, finish', imported'⟩) := by
  obtain ⟨taken', hne, htaken', hordinary, hknown'⟩ :=
    exists_of_run_statement (c := ⟨ts ++ [last], finish, imported⟩) hknown hrun
  have hsettles : Settles (ts ++ next :: more).length elses 1 0 imported (ts ++ [last]) statement
      statement := settles_statement
  obtain ⟨taken, rest, imported', hts, rfl, -, hsame⟩ := hsettles.ok hrun
  obtain rfl : taken = taken' := List.append_cancel_right (hts.symm.trans htaken')
  obtain ⟨left, rfl, rfl⟩ := exists_of_append_eq hlast hordinary hts
  refine ⟨taken, left, imported', hne, rfl, rfl, hknown', fun finish' => ?_⟩
  rw [List.append_assoc]
  refine hsame _ finish' (Nat.le_of_eq (by rw [List.append_assoc])) ?_
  cases left with
  | nil =>
    refine iff_of_false (fun helse => ?_) hnext
    cases hlast.symm.trans helse
  | cons u left => exact .rfl

/-- The statements before the end of input are read first, and then those that stand behind it. -/
theorem run_statements_append (before : List TokenKind) {n n' : Nat} {ts more : List Token}
    {last next : Token} {imported : List String} {finish : Span} {body : List Node} {c : Cursor}
    (hlast : last.kind = .eof) (hnext : next.kind ≠ .keyword .elseKw)
    (hts : ∀ t ∈ ts, t.kind ≠ .eof) (hknown : ∀ x ∈ imported, Imports before x)
    (hn : ts.length < n) (hn' : ts.length + more.length < n')
    (hrun : (statements n).run ⟨ts ++ [last], finish, imported⟩ = .ok (body, c)) :
    ∃ imported' m, (∀ x ∈ imported', Imports (before ++ ts.map Token.kind) x) ∧ more.length < m ∧
      ∀ finish' tail d, (statements m).run ⟨next :: more, finish', imported'⟩ = .ok (tail, d) →
        (statements n').run ⟨ts ++ next :: more, finish', imported⟩ = .ok (body ++ tail, d) := by
  induction n generalizing n' before ts imported body with
  | zero => omega
  | succ n ih =>
    cases ts with
    | nil =>
      rcases exists_of_run_statements hrun with ⟨-, rfl, -⟩ | ⟨hend, -⟩
      · exact ⟨imported, n', by simpa using hknown, by simpa using hn', fun _ _ _ htail => htail⟩
      · exact absurd hlast hend
    | cons t ts =>
      have ht := hts t List.mem_cons_self
      rcases exists_of_run_statements hrun with ⟨hend, -⟩ | ⟨-, first, c₁, rest, hfirst, hrest, rfl⟩
      · exact absurd hend ht
      obtain ⟨m', rfl⟩ : ∃ m', n' = m' + 1 := ⟨n' - 1, by omega⟩
      obtain ⟨taken, left, imported₁, hne, hsplit, rfl, hknown₁, hfirst'⟩ :=
        run_statement_append more hlast hnext hknown hfirst
      have hpos := List.length_pos_iff.mpr hne
      have hlength : (t :: ts).length = taken.length + left.length := by
        rw [hsplit, List.length_append]
      have hleft : ∀ u ∈ left, u.kind ≠ .eof :=
        fun u hu => hts u (hsplit ▸ List.mem_append_right taken hu)
      have hfewer : left.length + more.length < m' := by omega
      obtain ⟨imported', m, hknown', hm, htail⟩ :=
        ih _ hleft hknown₁ (by omega) hfewer hrest
      refine ⟨imported', m, ?_, hm, fun finish' tail d hd => ?_⟩
      · rw [hsplit, List.map_append, ← List.append_assoc]
        exact hknown'
      · rw [List.append_assoc]
        exact run_statements_succ ht (hfirst' finish') (htail finish' tail d hd)

theorem run_statements_of_le (before : List TokenKind) {n m : Nat} {c c' : Cursor}
    {body : List Node} (hknown : ∀ x ∈ c.imported, Imports before x) (hn : c.rest.length ≤ n)
    (hm : n ≤ m) (hrun : (statements n).run c = .ok (body, c')) :
    (statements m).run c = .ok (body, c') := by
  induction n generalizing m c body before with
  | zero =>
    have hrest : c.rest = [] := List.eq_nil_of_length_eq_zero (by omega)
    have hend : c.head.kind = .eof := by
      rw [Cursor.head, hrest]
      rfl
    cases hrun
    exact run_statements_eof hend m
  | succ n ih =>
    rcases exists_of_run_statements hrun with
      ⟨hend, rfl, rfl⟩ | ⟨hend, first, c₁, rest, hfirst, hrest, rfl⟩
    · exact run_statements_eof hend m
    · obtain ⟨m, rfl⟩ : ∃ k, m = k + 1 := ⟨m - 1, by omega⟩
      obtain ⟨taken, hne, htaken, -, hknown₁⟩ := exists_of_run_statement hknown hfirst
      have hpos := List.length_pos_iff.mpr hne
      rw [htaken, List.length_append] at hn
      exact run_statements_succ hend hfirst (ih _ hknown₁ (by omega) (by omega) hrest)

end Parser

namespace Program

variable {program : Program}

/-- The tokens of a script without an end of input among them, and then one. -/
theorem text_of_ofTokens {tokens : List Token} {last : Token}
    (h : ofTokens (tokens ++ [last]) = .ok program) (htokens : ∀ t ∈ tokens, t.kind ≠ .eof)
    (hlast : last.kind = .eof) : Grammar.Text [] program.statements (tokens.map Token.kind) := by
  obtain ⟨kinds, c', hcross, hend, htext⟩ := exists_text h
  have hkinds := hcross.map_takeWhile hend
  have htake : (tokens ++ [last]).takeWhile (·.kind ≠ .eof) = tokens := by
    rw [List.takeWhile_append_of_pos fun t ht => decide_eq_true (htokens t ht)]
    simp [hlast]
  rw [show (Cursor.start (tokens ++ [last])).rest = tokens ++ [last] from rfl, htake] at hkinds
  rw [hkinds]
  exact htext

theorem head_ne_else {t : Token} {more : List Token} (h : ofTokens (t :: more) = .ok program) :
    t.kind ≠ .keyword .elseKw := by
  obtain ⟨kinds, c', hcross, hend, htext⟩ := exists_text h
  have hhead := htext.head?_ne_else
  obtain ⟨taken, rfl, hrest⟩ := hcross.rest
  cases taken with
  | nil =>
    rw [Cursor.head, ← show t :: more = c'.rest from hrest] at hend
    rw [show t.kind = .eof from hend]
    decide
  | cons u taken =>
    cases show t :: more = u :: (taken ++ c'.rest) from hrest
    exact fun helse => hhead (congrArg some helse)

/-- Two scripts one behind the other are read as the statements of the one and then those of the
other, if the one makes nothing known to the other. -/
theorem ofTokens_append {tokens : List Token} {last next : Token} {more : List Token}
    {other : Program} (h : ofTokens (tokens ++ [last]) = .ok program)
    (htokens : ∀ t ∈ tokens, t.kind ≠ .eof) (hlast : last.kind = .eof)
    (himportless : ∀ n ∈ program.statements, n.Importless)
    (hother : ofTokens (next :: more) = .ok other) :
    ∃ joined, ofTokens (tokens ++ next :: more) = .ok joined ∧
      joined.statements = program.statements ++ other.statements := by
  have htext := text_of_ofTokens h htokens hlast
  obtain ⟨c, hrun⟩ := Parser.run_statements_of_ofTokens h
  obtain ⟨d, hrun'⟩ := Parser.run_statements_of_ofTokens hother
  have hstart : (Cursor.start (tokens ++ next :: more))
      = ⟨tokens ++ next :: more, (Cursor.start (next :: more)).finish, []⟩ := by
    rw [Cursor.start, List.getLast?_append_of_ne_nil tokens (List.cons_ne_nil next more)]
    rfl
  have hn : tokens.length < (tokens ++ [last]).length := by simp
  have hn' : tokens.length + more.length < (tokens ++ next :: more).length := by simp
  obtain ⟨imported, m, himported, hm, hjoin⟩ := Parser.run_statements_append [] hlast
    (head_ne_else hother) htokens (List.forall_mem_nil _) hn hn' hrun
  -- the first script imports nothing, so the second one starts as if it stood alone
  obtain rfl : imported = [] := by
    refine List.eq_nil_iff_forall_not_mem.mpr fun x hx => ?_
    have hword := (himported x hx).subset List.mem_cons_self
    exact htext.import_not_mem himportless hword
  have htail : (Parser.statements m).run (.start (next :: more)) = .ok (other.statements, d) :=
    Parser.run_statements_of_le (c := Cursor.start (next :: more)) [] (List.forall_mem_nil _)
      (Nat.le_refl _) hm hrun'
  have hjoined := hjoin (Cursor.start (next :: more)).finish other.statements d htail
  rw [← hstart] at hjoined
  exact Parser.ofTokens_of_run_statements hjoined

end Program
end ClipScript
