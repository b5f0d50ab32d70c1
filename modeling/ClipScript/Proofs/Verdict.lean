/-
What tokens come to is decided by the tokens up to the verdict.

A script is decided by the tokens before the end of input, and a complaint about a token by the
tokens up to that one (`Program.verdict_local`).  Both come from `Parser.settles_statements`.

Which token a complaint is about cannot be told from its place, since several tokens may stand at
one.  But parsers only pass places on, so the tokens may be put elsewhere, and a complaint that goes
where a token goes is about this token (`Program.FailsAt`).  Putting every token at its own index is
enough to tell, by `Parser.twins_program`.
-/
import ClipScript.Proofs.Parser.Continuation
import Mathlib.Data.List.Nodup
import Mathlib.Tactic.IntervalCases

namespace ClipScript

open Token

/-- The place that stands for a number. -/
def Span.mark (i : Nat) : Span := { start := i, stop := i }

/-- Before `tokens`, with the token at index `i` put at `place i` and the end of input at the next
place. -/
def Cursor.placed (place : Nat → Span) (tokens : List Token) : Cursor :=
  { rest := tokens.mapIdx fun i t => ⟨t.kind, place i⟩, finish := place tokens.length }

/-- The complaint is about the token at index `k`, or about the end of input if there is none: that
is where it goes, wherever the tokens are put. -/
def Program.FailsAt (tokens : List Token) (k : Nat) (fault : GrammarFault) : Prop :=
  ∀ place : Nat → Span, Parser.program.run' (.placed place tokens) = .error ⟨fault, place k⟩

/-- Where the tokens are. -/
def Token.placeOf (tokens : List Token) (i : Nat) : Span :=
  (tokens[i]?.map Token.span).getD (Cursor.start tokens).finish

theorem Cursor.placed_placeOf (tokens : List Token) :
    Cursor.placed (placeOf tokens) tokens = .start tokens := by
  have hrest : (tokens.mapIdx fun i t => (⟨t.kind, placeOf tokens i⟩ : Token)) = tokens := by
    refine List.ext_getElem (by simp) fun i hi hi' => ?_
    simp [placeOf, List.getElem?_eq_getElem hi']
  have hfinish : placeOf tokens tokens.length = (Cursor.start tokens).finish := by
    simp [placeOf]
  rw [placed, hrest, hfinish]
  rfl

/-- A place that covers one number only is put where the token of this index is. -/
def Span.Marks (place : Nat → Span) (s s' : Span) : Prop :=
  s.start ≤ s.stop ∧ (s.start = s.stop → s' = place s.start)

theorem Span.marks_mark (place : Nat → Span) (i : Nat) : (mark i).Marks place (place i) :=
  ⟨Nat.le_refl i, fun _ => rfl⟩

theorem Span.merge_self (s : Span) : s.merge s = s := by
  simp [merge]

/-- Merging covers one number only if both places are that number. -/
theorem Span.merging_marks (place : Nat → Span) : Merging (Marks place) := by
  rintro a a' b b' ⟨ha, hmark⟩ ⟨hb, hmark'⟩
  rw [Marks, start_merge, stop_merge]
  refine ⟨by omega, fun heq => ?_⟩
  have hstart : b.start = a.start := by omega
  have hmin : min a.start b.start = a.start := by omega
  rw [hmin, hmark (by omega), hmark' (by omega), hstart, merge_self]

theorem Cursor.placed_twin (place : Nat → Span) (tokens : List Token) :
    (Cursor.placed .mark tokens).Twin (Span.Marks place) (.placed place tokens) := by
  refine ⟨?_, Span.marks_mark place _, rfl⟩
  refine List.forall₂_iff_get.mpr ⟨by simp [placed], fun i hi hi' => ⟨?_, ?_⟩⟩
  · simp [placed]
  · simpa [placed] using Span.marks_mark place i

theorem Cursor.distinct_placed (tokens : List Token) :
    Distinct (Cursor.placed .mark tokens).finish (Cursor.placed .mark tokens).rest := by
  have hspans : (Cursor.placed .mark tokens).rest.map Token.span
      = (List.range tokens.length).map Span.mark := by
    refine List.ext_getElem (by simp [placed]) fun i hi hi' => ?_
    simp [placed]
  have hinj : Function.Injective Span.mark := fun i j h => congrArg Span.start h
  rw [Distinct, hspans, List.nodup_cons]
  refine ⟨?_, List.nodup_range.map hinj⟩
  intro hmem
  obtain ⟨i, hi, hmark⟩ := List.mem_map.mp hmem
  rw [List.mem_range, hinj hmark] at hi
  exact Nat.lt_irrefl _ hi

namespace Parser

theorem run'_program_eq_error_iff {c : Cursor} {e : ParseError} :
    program.run' c = .error e ↔ (statements c.rest.length).run c = .error e := by
  have hpeek : peek.run c = .ok (c.head, c) := rfl
  have hremaining : remaining.run c = .ok (c.rest.length, c) := rfl
  rw [run'_eq_error_iff, program, run_bind_ok hpeek, run_bind_ok hremaining]
  constructor
  · intro h
    rcases error_of_run_bind h with h | ⟨body, d, -, hreturn⟩
    · exact h
    · cases hreturn
  · exact fun h => run_bind_error h _

end Parser

namespace Program

variable {tokens others : List Token} {fault : GrammarFault} {k : Nat}

/-- The marks tell where a complaint goes. -/
theorem failsAt_of_mark
    (h : Parser.program.run' (.placed .mark tokens) = .error ⟨fault, .mark k⟩) :
    FailsAt tokens k fault := by
  intro place
  rw [Parser.run'_eq_error_iff] at h ⊢
  have hresults := Parser.twins_program (Span.merging_marks place) _ _
    (Cursor.placed_twin place tokens)
  rw [h] at hresults
  generalize Parser.program.run (.placed place tokens) = result at hresults ⊢
  cases hresults with
  | @error _ e htwin =>
    have hspan : e.span = place k := htwin.place.2 rfl
    rw [← hspan, show fault = e.fault from htwin.fault]

theorem exists_marked {e : ParseError} (h : ofTokens tokens = .error e) :
    ∃ span, Parser.program.run' (.placed .mark tokens) = .error ⟨e.fault, span⟩ := by
  have hrun : Parser.program.run (.start tokens) = .error e := Parser.run'_eq_error_iff.mp h
  have htwin := Cursor.placed_twin (placeOf tokens) tokens
  rw [Cursor.placed_placeOf] at htwin
  have hresults := Parser.twins_program (Span.merging_marks _) _ _ htwin
  rw [hrun] at hresults
  generalize hmarked : Parser.program.run (.placed .mark tokens) = result at hresults
  cases hresults with
  | @error e' _ htwin =>
    refine ⟨e'.span, ?_⟩
    rw [Parser.run'_eq_error_iff, hmarked, ← htwin.fault]

theorem FailsAt.ofTokens (h : FailsAt tokens k fault) :
    ofTokens tokens = .error ⟨fault, placeOf tokens k⟩ := by
  have hplaced := h (placeOf tokens)
  rwa [Cursor.placed_placeOf] at hplaced

theorem marked_take (h : ∀ i ≤ k, others[i]? = tokens[i]?) :
    (Cursor.placed .mark others).rest.take (k + 1)
      = (Cursor.placed .mark tokens).rest.take (k + 1) := by
  refine List.ext_getElem? fun i => ?_
  by_cases hi : i < k + 1
  · rw [List.getElem?_take_of_lt hi, List.getElem?_take_of_lt hi, Cursor.placed, Cursor.placed,
      List.getElem?_mapIdx, List.getElem?_mapIdx, h i (Nat.le_of_lt_succ hi)]
  · rw [List.getElem?_take_eq_none (by omega), List.getElem?_take_eq_none (by omega)]

/-- A complaint about a marked token reports it, and is the same for all tokens that agree up to
there. -/
theorem exists_of_marked {span : Span}
    (h : Parser.program.run' (.placed .mark tokens) = .error ⟨fault, span⟩)
    (hfault : fault.isAboutToken) (others : List Token) :
    span = .mark tokens.length ∨
      ∃ k t, tokens[k]? = some t ∧ span = .mark k ∧
        ParseError.Reports ⟨t.kind, .mark k⟩ ⟨fault, span⟩ ∧
        ((∀ i ≤ k, others[i]? = tokens[i]?) →
          Parser.program.run' (.placed .mark others) = .error ⟨fault, span⟩) := by
  rw [Parser.run'_program_eq_error_iff] at h
  rcases (Parser.settles_statements (Nat.le_refl _) (Nat.le_refl others.length)).error
    (Cursor.distinct_placed tokens) h hfault with
    ⟨expected, he⟩ | ⟨taken, u, rest, hts, hreports, -, hsame⟩
  · left
    exact congrArg ParseError.span he
  · right
    have hu : (Cursor.placed .mark tokens).rest[taken.length]? = some u := by
      rw [hts, List.getElem?_append_right (Nat.le_refl _), Nat.sub_self]
      rfl
    rw [Cursor.placed, List.getElem?_mapIdx] at hu
    obtain ⟨t, ht, rfl⟩ := Option.map_eq_some_iff.mp hu
    refine ⟨taken.length, t, ht, hreports.span, hreports, fun hagree => ?_⟩
    have htake : (Cursor.placed .mark others).rest.take (taken.length + 1)
        = taken ++ [⟨t.kind, .mark taken.length⟩] := by
      rw [marked_take hagree, hts, List.take_length_add_append]
      rfl
    have hothers : (Cursor.placed .mark others).rest
        = taken ++ ⟨t.kind, .mark taken.length⟩
          :: (Cursor.placed .mark others).rest.drop (taken.length + 1) := by
      rw [List.append_cons, ← htake, List.take_append_drop]
    have hlength : (Cursor.placed .mark others).rest.length = others.length := List.length_mapIdx
    have hrun := hsame _ (.mark others.length) (by rw [← hothers, hlength])
    rw [← hothers] at hrun
    rw [Parser.run'_program_eq_error_iff, hlength]
    exact hrun

/-- A complaint about a token is about exactly one, or about the end of input. -/
theorem existsUnique_failsAt {e : ParseError} (h : ofTokens tokens = .error e)
    (hfault : e.fault.isAboutToken) : ∃! k, k ≤ tokens.length ∧ FailsAt tokens k e.fault := by
  obtain ⟨span, hmarked⟩ := exists_marked h
  obtain ⟨k, hk, rfl⟩ : ∃ k ≤ tokens.length, span = .mark k := by
    rcases exists_of_marked hmarked hfault tokens with hend | ⟨k, t, ht, hspan, -⟩
    · exact ⟨_, Nat.le_refl _, hend⟩
    · exact ⟨k, Nat.le_of_lt (List.getElem?_eq_some_iff.mp ht).1, hspan⟩
  refine ⟨k, ⟨hk, failsAt_of_mark hmarked⟩, ?_⟩
  rintro k' ⟨-, hfails⟩
  have hsame := (hfails .mark).symm.trans hmarked
  exact congrArg Span.start (congrArg ParseError.span (Except.error.inj hsame))

/-- The tokens up to the one that a complaint is about decide it. -/
theorem FailsAt.settled {t : Token} (h : FailsAt tokens k fault) (hfault : fault.isAboutToken)
    (ht : tokens[k]? = some t) :
    ParseError.Reports t ⟨fault, t.span⟩ ∧
      ∀ others, (∀ i ≤ k, others[i]? = tokens[i]?) → FailsAt others k fault := by
  have hk : k < tokens.length := (List.getElem?_eq_some_iff.mp ht).1
  have hcases := fun others => (exists_of_marked (h .mark) hfault others).resolve_left
    fun hend => Nat.ne_of_lt hk (congrArg Span.start hend)
  constructor
  · obtain ⟨k', t', ht', hspan, hreports, -⟩ := hcases tokens
    obtain rfl : k = k' := congrArg Span.start hspan
    cases ht.symm.trans ht'
    generalize he : (⟨fault, .mark k⟩ : ParseError) = e at hreports
    cases hreports with
    | unexpected expected =>
      cases he
      exact .unexpected expected
    | number hkind =>
      cases he
      exact .number hkind
  · intro others hagree
    obtain ⟨k', t', -, hspan, -, hothers⟩ := hcases others
    obtain rfl : k = k' := congrArg Span.start hspan
    exact failsAt_of_mark (hothers hagree)

/-- The statements of a script are read off the tokens before the end of input, whatever that end
of input is. -/
theorem exists_of_ofTokens {program : Program} (h : ofTokens tokens = .ok program)
    {rest : List Token} (hrest : nextKind rest = .eof) :
    ∃ other, ofTokens (tokens.takeWhile (·.kind ≠ .eof) ++ rest) = .ok other ∧
      other.statements = program.statements := by
  obtain ⟨c, hrun⟩ := Parser.run_statements_of_ofTokens h
  obtain ⟨kinds, hcross, hend, -⟩ :=
    Parser.derived_of_run_statements (c := .start tokens) [] (List.forall_mem_nil _)
      (Nat.le_refl tokens.length) hrun
  obtain ⟨taken, left, imported, htokens, rfl, -, hsame⟩ :=
    (Parser.settles_statements (Nat.le_refl tokens.length)
      (Nat.le_refl (tokens.takeWhile (·.kind ≠ .eof) ++ rest).length)).ok hrun
  -- as many tokens were taken as there are before the end of input
  have htaken : tokens.takeWhile (·.kind ≠ .eof) = taken := by
    have hlength : (tokens.takeWhile (·.kind ≠ .eof)).length = kinds.length := by
      rw [← hcross.map_takeWhile hend, List.length_map]
      rfl
    obtain ⟨ts, rfl, hts⟩ := hcross.rest
    obtain rfl : ts = taken := List.append_cancel_right (hts.symm.trans htokens)
    rw [List.length_map] at hlength
    rw [List.prefix_iff_eq_take.mp (List.takeWhile_prefix _), hlength, htokens, List.take_left]
  rw [htaken] at hsame ⊢
  have hahead : near left rest := by
    refine near_of_next ?_
    rw [hrest, ← hend, head_kind]
  exact Parser.ofTokens_of_run_statements (hsame rest _ (Nat.le_refl _) hahead)

/-- No verdict depends on the tokens behind it.  A script needs the tokens before the end of input
only.  A complaint about a token is about a certain one or about the end of input; it reports this
token, and the tokens up to there are enough for it. -/
theorem verdict_local (tokens : List Token) :
    (∀ program, ofTokens tokens = .ok program →
      let before := tokens.takeWhile (·.kind ≠ .eof)
      (∀ place tail, ∃ other, ofTokens (before ++ ⟨.eof, place⟩ :: tail) = .ok other ∧
        other.statements = program.statements) ∧
      ∃ other, ofTokens before = .ok other ∧ other.statements = program.statements) ∧
    (∀ e, ofTokens tokens = .error e → e.fault.isAboutToken →
      ∃! k, k ≤ tokens.length ∧ FailsAt tokens k e.fault) ∧
    ∀ e k t, ofTokens tokens = .error e → e.fault.isAboutToken → FailsAt tokens k e.fault →
      tokens[k]? = some t →
      e.Reports t ∧ ∀ others, (∀ i ≤ k, others[i]? = tokens[i]?) → ofTokens others = .error e := by
  refine ⟨fun program hprogram => ⟨fun place tail => ?_, ?_⟩,
    fun e he hfault => existsUnique_failsAt he hfault, fun e k t he hfault hfails ht => ?_⟩
  · exact exists_of_ofTokens hprogram rfl
  · have hnil : nextKind [] = .eof := rfl
    obtain ⟨other, hother⟩ := exists_of_ofTokens hprogram hnil
    rw [List.append_nil] at hother
    exact ⟨other, hother⟩
  · have hplace : ∀ {others}, others[k]? = some t → placeOf others k = t.span := by
      intro others hothers
      rw [placeOf, hothers]
      rfl
    have hspan := hfails.ofTokens
    rw [he, hplace ht] at hspan
    obtain ⟨hreports, hothers⟩ := hfails.settled hfault ht
    rw [Except.error.inj hspan]
    refine ⟨hreports, fun others hagree => ?_⟩
    rw [(hothers others hagree).ofTokens, hplace ((hagree k (Nat.le_refl k)).trans ht)]

/-- The semicolon of `x = ;` stands where a value has to, whatever comes behind it. -/
theorem verdict_local_missingValue :
    let tokens : List Token := [⟨.identifier "x", ⟨0, 1, 1, 1⟩⟩, ⟨.symbol .equals, ⟨2, 3, 1, 3⟩⟩,
      ⟨.symbol .semicolon, ⟨4, 5, 1, 5⟩⟩]
    let fault : GrammarFault := .unexpectedToken .expression (.symbol .semicolon)
    FailsAt tokens 2 fault ∧
      ofTokens (tokens ++ [⟨.identifier "y", ⟨6, 7, 1, 7⟩⟩]) = .error ⟨fault, ⟨4, 5, 1, 5⟩⟩ := by
  intro tokens fault
  have hfails : FailsAt tokens 2 fault := fun place => rfl
  refine ⟨hfails, ((verdict_local tokens).2.2 ⟨fault, _⟩ 2 _ rfl rfl hfails rfl).2 _ fun i hi => ?_⟩
  interval_cases i <;> rfl

end Program
end ClipScript
