/-
Runs, and the tokens that they pass.

A run of two steps is a run of the one and a run of the other.  Between where a run starts and
where it stops lie the tokens it has taken, no end of input among them (`Cursor.Crosses`).  What is
left to read is measured by the tokens before the next end of input (`Cursor.unread`).
-/
import ClipScript.Proofs.Parser.Reading

namespace ClipScript

/-- Tokens of these kinds lie between two places in the input, and no end of input is among them. -/
structure Cursor.Crosses (c : Cursor) (kinds : List TokenKind) (c' : Cursor) : Prop where
  rest : ∃ ts : List Token, ts.map Token.kind = kinds ∧ c.rest = ts ++ c'.rest
  ordinary : .eof ∉ kinds

theorem Cursor.Crosses.refl (c : Cursor) : c.Crosses [] c := ⟨⟨[], rfl, rfl⟩, nofun⟩

theorem Cursor.Crosses.trans {c c' c'' : Cursor} {first second : List TokenKind}
    (h : c.Crosses first c') (h' : c'.Crosses second c'') : c.Crosses (first ++ second) c'' := by
  obtain ⟨ts, rfl, hrest⟩ := h.rest
  obtain ⟨ts', rfl, hrest'⟩ := h'.rest
  refine ⟨⟨ts ++ ts', List.map_append, ?_⟩, ?_⟩
  · rw [hrest, hrest', List.append_assoc]
  · rw [List.mem_append]
    exact fun hmem => hmem.elim h.ordinary h'.ordinary

theorem Cursor.rest_eq_cons {c : Cursor} (h : c.head.kind ≠ .eof) :
    c.rest = c.head :: c.rest.tail := by
  cases hrest : c.rest with
  | nil => exact absurd (by rw [Cursor.head, hrest]; rfl) h
  | cons t ts => rw [Cursor.head, hrest]; rfl

theorem Cursor.crosses_tail {c : Cursor} (h : c.head.kind ≠ .eof) :
    c.Crosses [c.head.kind] { c with rest := c.rest.tail } :=
  ⟨⟨[c.head], rfl, rest_eq_cons h⟩, fun hmem => h (List.mem_singleton.mp hmem).symm⟩

theorem Cursor.crosses_drop {c : Cursor} {k k' : TokenKind} {kinds : List TokenKind}
    (h : c.rest.map Token.kind = k :: k' :: kinds) (hk : k ≠ .eof) (hk' : k' ≠ .eof) :
    c.Crosses [k, k'] { c with rest := c.rest.drop 2 } := by
  obtain ⟨t, more, hrest, rfl, hmore⟩ := List.map_eq_cons_iff.mp h
  obtain ⟨u, rest, rfl, rfl, -⟩ := List.map_eq_cons_iff.mp hmore
  rw [hrest]
  exact ⟨⟨[t, u], rfl, hrest⟩, by simp [Ne.symm hk, Ne.symm hk']⟩

theorem Cursor.Crosses.length_lt {c c' : Cursor} {kinds : List TokenKind}
    (h : c.Crosses kinds c') (hne : kinds ≠ []) : c'.rest.length < c.rest.length := by
  obtain ⟨ts, rfl, hrest⟩ := h.rest
  have hpos : 0 < ts.length := List.length_pos_iff.mpr fun hnil => hne (by rw [hnil]; rfl)
  rw [hrest, List.length_append]
  omega

/-- Up to an end of input exactly the tokens before the first one lie. -/
theorem Cursor.Crosses.map_takeWhile {c c' : Cursor} {kinds : List TokenKind}
    (h : c.Crosses kinds c') (hend : c'.head.kind = .eof) :
    (c.rest.takeWhile (·.kind ≠ .eof)).map Token.kind = kinds := by
  obtain ⟨ts, rfl, hrest⟩ := h.rest
  have hts : ∀ t ∈ ts, decide (t.kind ≠ .eof) = true := by
    intro t ht
    refine decide_eq_true fun hk => h.ordinary ?_
    exact List.mem_map.mpr ⟨t, ht, hk⟩
  have hstop : c'.rest.takeWhile (·.kind ≠ .eof) = [] := by
    cases hc' : c'.rest with
    | nil => rfl
    | cons t rest =>
      rw [Cursor.head, hc'] at hend
      exact List.takeWhile_cons_of_neg (by simpa using hend)
  rw [hrest, List.takeWhile_append_of_pos hts, hstop, List.append_nil]

namespace Cursor

/-- How many tokens stand before the next end of input. -/
def unread (c : Cursor) : Nat := (c.rest.takeWhile (·.kind ≠ .eof)).length

theorem unread_le (c : Cursor) : c.unread ≤ c.rest.length :=
  (List.takeWhile_sublist _).length_le

theorem unread_eq_zero_iff {c : Cursor} : c.unread = 0 ↔ c.head.kind = .eof := by
  rw [unread, List.length_eq_zero_iff, head]
  cases c.rest with
  | nil => exact iff_of_true rfl rfl
  | cons t rest => by_cases hk : t.kind = .eof <;> simp [hk]

theorem Crosses.unread {c c' : Cursor} {kinds : List TokenKind} (h : c.Crosses kinds c') :
    c.unread = kinds.length + c'.unread := by
  obtain ⟨ts, rfl, hrest⟩ := h.rest
  have hts : ∀ t ∈ ts, decide (t.kind ≠ .eof) = true :=
    fun t ht => decide_eq_true fun hk => h.ordinary (List.mem_map.mpr ⟨t, ht, hk⟩)
  rw [Cursor.unread, Cursor.unread, hrest, List.takeWhile_append_of_pos hts, List.length_append,
    List.length_map]

theorem unread_tail {c : Cursor} (h : c.head.kind ≠ .eof) :
    Cursor.unread { c with rest := c.rest.tail } < c.unread := by
  rw [(crosses_tail h).unread, List.length_singleton]
  omega

end Cursor

namespace Parser

variable {α β : Type}

theorem run_bind_error {p : Parser α} {c : Cursor} {e : ParseError} (h : p.run c = .error e)
    (f : α → Parser β) : (p >>= f).run c = .error e := by
  show (do let (a, d) ← p.run c; (f a).run d) = _
  rw [h]
  rfl

/-- A run of two steps that succeeds is a run of the one and a run of the other. -/
theorem exists_of_run_bind {p : Parser α} {f : α → Parser β} {c c' : Cursor} {b : β}
    (h : (p >>= f).run c = .ok (b, c')) :
    ∃ a d, p.run c = .ok (a, d) ∧ (f a).run d = .ok (b, c') := by
  cases hp : p.run c with
  | error e =>
    rw [run_bind_error hp] at h
    cases h
  | ok r => exact ⟨r.1, r.2, rfl, by rw [← h, run_bind_ok hp]⟩

theorem error_of_run_bind {p : Parser α} {f : α → Parser β} {c : Cursor} {e : ParseError}
    (h : (p >>= f).run c = .error e) :
    p.run c = .error e ∨ ∃ a d, p.run c = .ok (a, d) ∧ (f a).run d = .error e := by
  cases hp : p.run c with
  | error e' =>
    rw [run_bind_error hp] at h
    cases h
    exact .inl rfl
  | ok r => exact .inr ⟨r.1, r.2, rfl, by rw [← h, run_bind_ok hp]⟩

theorem exists_of_run' {p : Parser α} {c : Cursor} {a : α} (h : p.run' c = .ok a) :
    ∃ c', p.run c = .ok (a, c') := by
  change Prod.fst <$> p.run c = .ok a at h
  cases hrun : p.run c with
  | error e =>
    rw [hrun] at h
    cases h
  | ok r =>
    rw [hrun] at h
    cases h
    exact ⟨r.2, rfl⟩

theorem run'_eq_error_iff {p : Parser α} {c : Cursor} {e : ParseError} :
    p.run' c = .error e ↔ p.run c = .error e := by
  show Prod.fst <$> p.run c = .error e ↔ _
  cases p.run c with
  | error e' =>
    constructor <;>
    · intro h
      cases h
      rfl
  | ok r => exact ⟨nofun, nofun⟩

theorem run_statements_eof {c : Cursor} (hc : c.head.kind = .eof) (n : Nat) :
    (statements n).run c = .ok ([], c) := by
  cases n with
  | zero => rfl
  | succ n =>
    have hcheck : (check .eof).run c = .ok (true, c) := by
      rw [← beq_iff_eq.mpr hc]
      rfl
    rw [statements, run_bind_ok hcheck]
    rfl

/-- A script is read statement by statement, with as many rounds as there are tokens. -/
theorem run_statements_of_ofTokens {tokens : List Token} {program : Program}
    (h : Program.ofTokens tokens = .ok program) :
    ∃ c, (statements tokens.length).run (.start tokens) = .ok (program.statements, c) := by
  obtain ⟨c, hrun⟩ := exists_of_run' h
  obtain ⟨_, _, hpeek, hrun⟩ := exists_of_run_bind hrun
  cases hpeek
  obtain ⟨_, _, hremaining, hrun⟩ := exists_of_run_bind hrun
  cases hremaining
  obtain ⟨body, _, hbody, hrun⟩ := exists_of_run_bind hrun
  cases hrun
  exact ⟨c, hbody⟩

theorem ofTokens_of_run_statements {tokens : List Token} {body : List Node} {c : Cursor}
    (h : (statements tokens.length).run (.start tokens) = .ok (body, c)) :
    ∃ program, Program.ofTokens tokens = .ok program ∧ program.statements = body := by
  have hpeek : peek.run (.start tokens) = .ok ((Cursor.start tokens).head, .start tokens) := rfl
  have hremaining : remaining.run (.start tokens) = .ok (tokens.length, .start tokens) := rfl
  obtain ⟨span, hspan⟩ : ∃ span, program.run (.start tokens) = .ok (⟨body, span⟩, c) := by
    rw [program, run_bind_ok hpeek, run_bind_ok hremaining, run_bind_ok h]
    exact ⟨_, rfl⟩
  refine ⟨⟨body, span⟩, ?_, rfl⟩
  show Prod.fst <$> program.run (.start tokens) = _
  rw [hspan]
  rfl

end Parser
end ClipScript
