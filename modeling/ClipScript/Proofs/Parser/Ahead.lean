/-
What expressions look ahead for.

An argument looks at two tokens to tell a label, and a name at three to tell a call.  Both look at
kinds only.
-/
import ClipScript.Parser.Expression
import ClipScript.Proofs.Surface

namespace ClipScript
namespace Parser

def labelAhead? : List TokenKind → Option String
  | .identifier name :: .symbol .colon :: _ | .identifier name :: .symbol .equals :: _ => some name
  | _ => none

/-- What a name calls, if the next tokens make it a call. -/
def calleeAhead? (imported : List String) (name : String) : List TokenKind → Option Callee
  | .symbol .leftParen :: _ => some (.named name)
  | .symbol .dot :: .identifier function :: .symbol .leftParen :: _ =>
    if imported.contains name then some (.plugin name function) else none
  | _ => none

theorem exists_of_labelAhead? {kinds : List TokenKind} {name : String}
    (h : labelAhead? kinds = some name) :
    ∃ (mark : Surface.Mark) (more : List TokenKind),
      kinds = .identifier name :: .symbol mark.symbol :: more := by
  unfold labelAhead? at h
  split at h
  · cases h
    exact ⟨.colon, _, rfl⟩
  · cases h
    exact ⟨.equals, _, rfl⟩
  · cases h

/-- A plugin is called where its name is known and a dot and another name follow. -/
theorem exists_of_calleeAhead? {imported : List String} {kinds : List TokenKind}
    {name owner function : String}
    (h : calleeAhead? imported name kinds = some (.plugin owner function)) :
    owner = name ∧ name ∈ imported ∧
      ∃ more, kinds = .symbol .dot :: .identifier function :: more := by
  unfold calleeAhead? at h
  split at h
  · cases h
  · split at h
    · next hknown =>
      cases h
      exact ⟨rfl, List.contains_iff_mem.mp hknown, _, rfl⟩
    · cases h
  · cases h

/-- Any other name stands for itself. -/
theorem eq_of_calleeAhead? {imported : List String} {kinds : List TokenKind}
    {name function : String} (h : calleeAhead? imported name kinds = some (.named function)) :
    function = name := by
  unfold calleeAhead? at h
  split at h
  · cases h
    rfl
  · split at h <;> cases h
  · cases h

theorem exists_of_map_kind {rest : List Token} {kind : TokenKind} {kinds : List TokenKind}
    (h : rest.map Token.kind = kind :: kinds) :
    ∃ s more, rest = ⟨kind, s⟩ :: more ∧ more.map Token.kind = kinds := by
  obtain ⟨⟨_, s⟩, more, rfl, rfl, hmore⟩ := List.map_eq_cons_iff.mp h
  exact ⟨s, more, rfl, hmore⟩

section Ahead

variable (again : Level → Parser Node)

/-- An argument behind its label, if it has one. -/
def argumentValue (before : List (Labelled Node)) (label : Option String) :
    Parser (Labelled Node) := do
  let content ← again .assignment
  if label.isNone && before.any (·.label.isSome) then throw ⟨.argumentOrder, content.span⟩
  return ⟨label, content⟩

theorem argument_eq (before : List (Labelled Node)) :
    argument again before = (do
      let c ← get
      match labelAhead? (c.rest.map Token.kind) with
      | some name =>
        set { c with rest := c.rest.drop 2 }
        argumentValue again before name
      | none => argumentValue again before none) := by
  unfold argument
  congr 1
  funext c
  obtain ⟨rest, finish, imported⟩ := c
  dsimp only
  split
  · rfl
  · rfl
  · next hcolon hequals =>
    -- tokens that fit neither pattern have kinds that fit neither
    have hnone : labelAhead? (rest.map Token.kind) = none := by
      unfold labelAhead?
      split
      · next hkinds =>
        obtain ⟨s, more, rfl, hmore⟩ := exists_of_map_kind hkinds
        obtain ⟨s', more', rfl, -⟩ := exists_of_map_kind hmore
        exact absurd rfl (hcolon _ s s' more')
      · next hkinds =>
        obtain ⟨s, more, rfl, hmore⟩ := exists_of_map_kind hkinds
        obtain ⟨s', more', rfl, -⟩ := exists_of_map_kind hmore
        exact absurd rfl (hequals _ s s' more')
      · rfl
    rw [hnone]
    rfl

theorem run_argument_of_none (before : List (Labelled Node))
    {c : Cursor} (h : labelAhead? (c.rest.map Token.kind) = none) :
    (argument again before).run c = (argumentValue again before none).run c := by
  rw [argument_eq, run_bind_ok (run_get c), h]

theorem run_argument_of_some (before : List (Labelled Node))
    {c : Cursor} {name : String} (h : labelAhead? (c.rest.map Token.kind) = some name) :
    (argument again before).run c
      = (argumentValue again before name).run { c with rest := c.rest.drop 2 } := by
  rw [argument_eq, run_bind_ok (run_get c), h]
  rfl

theorem named_eq (name : String) (span : Span) :
    named again name span = do
      let c ← get
      match calleeAhead? c.imported name (c.rest.map Token.kind) with
      | some (.plugin owner function) => do
        set { c with rest := c.rest.drop 2 }
        callTo again (.plugin owner function) span
      | some callee => callTo again callee span
      | none => return .identifier span name := by
  unfold named
  congr 1
  funext c
  obtain ⟨rest, finish, imported⟩ := c
  dsimp only
  split
  · rfl
  · next s function s' s'' more =>
    simp only [List.map_cons, calleeAhead?]
    split
    · rfl
    · rfl
  · next hparen hdot =>
    have hnone : calleeAhead? imported name (rest.map Token.kind) = none := by
      unfold calleeAhead?
      split
      · next hkinds =>
        obtain ⟨s, more, rfl, -⟩ := exists_of_map_kind hkinds
        exact absurd rfl (hparen s more)
      · next hkinds =>
        obtain ⟨s, more, rfl, hmore⟩ := exists_of_map_kind hkinds
        obtain ⟨s', more', rfl, hmore'⟩ := exists_of_map_kind hmore
        obtain ⟨s'', more'', rfl, -⟩ := exists_of_map_kind hmore'
        exact absurd rfl (hdot s _ s' s'' more'')
      · rfl
    rw [hnone]

section Callees

variable {name : String} (span : Span) {c : Cursor}

theorem run_named_of_none (h : calleeAhead? c.imported name (c.rest.map Token.kind) = none) :
    (named again name span).run c = .ok (.identifier span name, c) := by
  rw [named_eq, run_bind_ok (run_get c), h]
  rfl

theorem run_named_of_named {function : String}
    (h : calleeAhead? c.imported name (c.rest.map Token.kind) = some (.named function)) :
    (named again name span).run c = (callTo again (.named function) span).run c := by
  rw [named_eq, run_bind_ok (run_get c), h]

theorem run_named_of_plugin {owner function : String}
    (h : calleeAhead? c.imported name (c.rest.map Token.kind) = some (.plugin owner function)) :
    (named again name span).run c
      = (callTo again (.plugin owner function) span).run { c with rest := c.rest.drop 2 } := by
  rw [named_eq, run_bind_ok (run_get c), h]
  rfl

end Callees

end Ahead

end Parser
end ClipScript
