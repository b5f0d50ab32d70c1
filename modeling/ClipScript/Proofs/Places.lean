/-
Every place that reading a script hands out is accurate.

The lexer lays each span over the stretch of text it has just read, starting from where the text
before it ends.  The parser makes spans only by merging, and merging keeps accuracy, so reading the
tokens next to themselves, under the relation that asks for accuracy, carries it to every node,
every parameter and every complaint.
-/
import ClipScript.Proofs.Lexer.Layout
import ClipScript.Proofs.Parser.Twins
import ClipScript.Script

namespace ClipScript

open Text Lexer

variable {source : String}

theorem accurate_of_lex {tokens : List Token} (h : lex source = .ok tokens) :
    ∀ t ∈ tokens, t.span.Accurate source := by
  obtain ⟨mark, text, words, -, hsource, hwords, rfl⟩ := exists_layout h
  intro t ht
  rcases List.mem_append.mp ht with ht | ht
  · obtain ⟨before, word, rest, hsplit, -, hspan, -⟩ := hwords.exists_of_mem_source hsource ht
    rw [hspan]
    exact Position.accurate_span hsplit
  · rw [List.mem_singleton.mp ht]
    have hend : source.toList = source.toList ++ [] ++ [] := by simp
    exact Position.accurate_span hend

theorem accurate_of_lex_error {e : LexError} (h : lex source = .error e) :
    e.span.Accurate source := by
  obtain ⟨mark, text, hskipped, hsource⟩ := exists_skipped source
  rw [lex_of_skipped hskipped hsource] at h
  obtain ⟨passed, before, taken, rest, rfl, -, hspan⟩ := exists_of_lexFrom_error h
  rw [hspan, ← Position.after_append]
  have hsplit : source.toList = mark ++ (passed ++ before) ++ taken ++ rest := by
    rw [hsource]
    simp only [List.append_assoc]
  exact Position.accurate_span hsplit

/-- Tokens at accurate places are read into a script, or into a complaint, at accurate places. -/
theorem accurate_of_ofTokens {tokens : List Token} (hne : tokens ≠ [])
    (h : ∀ t ∈ tokens, t.span.Accurate source) :
    match Program.ofTokens tokens with
    | .ok program => ∀ s ∈ program.spans, s.Accurate source
    | .error e => e.span.Accurate source := by
  have hmerge : Merging fun s _ => s.Accurate source :=
    fun _ _ _ _ ha hb => ha.merge hb
  have htokens : List.Forall₂ (Token.Twin fun s _ => s.Accurate source) tokens tokens :=
    List.forall₂_same.mpr fun t ht => ⟨rfl, h t ht⟩
  have hresults := Program.ofTokens_twins hmerge htokens fun hnil => absurd hnil hne
  cases hread : Program.ofTokens tokens with
  | ok program =>
    rw [hread] at hresults
    cases hresults with
    | ok htwin =>
      have hplaces := List.forall₂_same.mp htwin.places
      exact hplaces
  | error e =>
    rw [hread] at hresults
    cases hresults with
    | error htwin => exact htwin.place

/-- Whatever comes of reading a text, its spans lie within it, start between two of its characters
and give the line and the column that counting gives: those of every token, of every node, parameter
and whole script, and of the error that reading stopped at. -/
theorem places_accurate (source : String) :
    (match lex source with
      | .ok tokens => ∀ t ∈ tokens, t.span.Accurate source
      | .error e => e.span.Accurate source) ∧
    (match Program.ofSource source with
      | .ok program => ∀ s ∈ program.spans, s.Accurate source
      | .error e => ∃ s ∈ e.span, s.Accurate source) := by
  cases hlex : lex source with
  | error e =>
    have he := accurate_of_lex_error hlex
    refine ⟨he, ?_⟩
    rw [Program.ofSource, hlex]
    exact ⟨e.span, rfl, he⟩
  | ok tokens =>
    have htokens := accurate_of_lex hlex
    have hne : tokens ≠ [] := by
      obtain ⟨_, _, words, -, -, -, rfl⟩ := exists_layout hlex
      exact List.append_ne_nil_of_right_ne_nil words (List.cons_ne_nil _ _)
    have hread := accurate_of_ofTokens hne htokens
    refine ⟨htokens, ?_⟩
    rw [Program.ofSource, hlex]
    dsimp only
    cases hparse : Program.ofTokens tokens with
    | ok program =>
      rw [hparse] at hread
      exact hread
    | error e =>
      rw [hparse] at hread
      exact ⟨e.span, rfl, hread⟩

end ClipScript
