/-
The words that statements begin with and are made of.

Two facts about derivations let texts be put one behind the other.  No statement begins with `else`
(`Text.head?_ne_else`), so it cannot become the second branch of an `if` before it.  And the word
`import` stands only in import statements (`Text.import_not_mem`), so a text without one leaves
nothing known to the text behind it.
-/
import ClipScript.Proofs.Grammar
import ClipScript.Proofs.Node.Formed

namespace ClipScript

def Node.Importless (n : Node) : Prop := ∀ u ∈ n.subtrees, u.imported? = none

theorem Node.Importless.of_mem_parts {n part : Node} (h : n.Importless) (hpart : part ∈ n.parts) :
    part.Importless :=
  forall_subtrees_of_mem_parts h hpart

namespace Grammar

open ClipScript.Parser (paren)
open Surface (ParamKind calleeKinds)

/-- The only words among the tokens are those of the truth values. -/
def Plain (kinds : List TokenKind) : Prop :=
  ∀ word, .keyword word ∈ kinds → word = .trueKw ∨ word = .falseKw

theorem Plain.nil : Plain [] := fun _ hmem => absurd hmem List.not_mem_nil

theorem Plain.cons {k : TokenKind} {kinds : List TokenKind} (hk : ∀ word, k ≠ .keyword word)
    (h : Plain kinds) : Plain (k :: kinds) := by
  intro word hmem
  rcases List.mem_cons.mp hmem with heq | hmem
  · exact absurd heq.symm (hk word)
  · exact h word hmem

theorem Plain.append {first second : List TokenKind} (h : Plain first) (h' : Plain second) :
    Plain (first ++ second) := by
  intro word hmem
  rcases List.mem_append.mp hmem with hmem | hmem
  · exact h word hmem
  · exact h' word hmem

theorem Plain.symbol {kinds : List TokenKind} (h : Plain kinds) (s : Symbol) :
    Plain (.symbol s :: kinds) :=
  h.cons (by intro word hword; cases hword)

/-- Two plain stretches with a symbol between them. -/
theorem Plain.joined {first second : List TokenKind} (h : Plain first) (s : Symbol)
    (h' : Plain second) : Plain (first ++ .symbol s :: second) :=
  h.append (h'.symbol s)

theorem Plain.paren {kinds : List TokenKind} (h : Plain kinds) : Plain (paren kinds) :=
  (h.symbol .leftParen).joined .rightParen .nil

theorem plain_calleeKinds (callee : Callee) : Plain (calleeKinds callee) := by
  cases callee <;> simp [Plain, calleeKinds]

theorem Plain.not_mem {kinds : List TokenKind} (h : Plain kinds) {word : Keyword}
    (htrue : word ≠ .trueKw) (hfalse : word ≠ .falseKw) : .keyword word ∉ kinds :=
  fun hmem => (h word hmem).elim htrue hfalse

section Phrases

variable {known : String → Prop}

mutual

theorem Phrase.plain {level : Level} {n : Node} {kinds : List TokenKind} :
    Phrase known level n kinds → Plain kinds
  | .assign left right => left.plain.joined _ right.plain
  | .ternary test left right => test.plain.joined _ (left.plain.joined _ right.plain)
  | .binary left right => left.plain.joined _ right.plain
  | .chain left right => left.plain.joined _ right.plain
  | .unary inner => inner.plain.symbol _
  | .call _ separated => (plain_calleeKinds _).append (plain_of_separated separated).paren
  | .parens inner => inner.plain.paren
  | .tighten tight => tight.plain
  | .boolean => by intro word hmem; split at hmem <;> simp_all
  | .number _ | .string | .name => Plain.nil.cons (by intro word hword; cases hword)

theorem plain_of_separated {args : List (Labelled Node)} {kinds : List TokenKind} :
    Separated (Argument (Phrase known .assignment)) args kinds → Plain kinds
  | .cons head tail => (plain_of_argument head).joined _ (plain_of_separated tail)
  | .single head => plain_of_argument head
  | .nil => .nil

theorem plain_of_argument {a : Labelled Node} {kinds : List TokenKind} :
    Argument (Phrase known .assignment) a kinds → Plain kinds
  | .named _ value =>
    (value.plain.symbol _).cons (by intro word hword; cases hword)
  | .positional value => value.plain

end

end Phrases

variable {before kinds : List TokenKind}

theorem Sentence.head?_ne_else {n : Option Node} (h : Sentence before n kinds) :
    kinds.head? ≠ some (.keyword .elseKw) := by
  cases h with
  | expression value =>
    intro hhead
    have hmem := List.mem_of_mem_head? hhead
    rcases List.mem_append.mp hmem with hmem | hmem
    · exact value.plain.not_mem (by decide) (by decide) hmem
    · cases List.mem_singleton.mp hmem
  | _ => simp [braced]

theorem Text.head?_ne_else {body : List Node} (h : Text before body kinds) :
    kinds.head? ≠ some (.keyword .elseKw) := by
  cases h with
  | nil => simp
  | cons head _ =>
    intro hhead
    rw [List.head?_append, Option.or_of_isSome (List.isSome_head?.mpr head.kinds_ne_nil)] at hhead
    exact head.head?_ne_else hhead

theorem importless_getD {n : Option Node} {place : Span}
    (h : (n.getD (.sequence place [])).Importless) : ∀ u ∈ n.toList, u.Importless := by
  cases n with
  | none => exact List.forall_mem_nil _
  | some u => exact List.forall_mem_singleton.mpr h

theorem not_mem_declaration {p : Param} {kinds : List TokenKind} (h : Declaration p kinds) :
    .keyword .importKw ∉ kinds := by
  cases h with
  | mandatory kind => cases kind <;> simp [ParamKind.keyword]
  | optional kind => cases kind <;> simp [ParamKind.keyword]

theorem not_mem_separated {params : List Param} {kinds : List TokenKind}
    (h : Separated Declaration params kinds) : .keyword .importKw ∉ kinds := by
  induction h with
  | nil => exact List.not_mem_nil
  | single head => exact not_mem_declaration head
  | cons head _ ih => simp [not_mem_declaration head, ih]

theorem Phrase.import_not_mem {known : String → Prop} {level : Level} {n : Node}
    (h : Phrase known level n kinds) : .keyword .importKw ∉ kinds :=
  h.plain.not_mem (by decide) (by decide)

mutual

/-- The word stands only in the tokens of trees that import. -/
theorem Sentence.import_not_mem {before kinds : List TokenKind} {n : Option Node} :
    Sentence before n kinds → (∀ u ∈ n.toList, u.Importless) → .keyword .importKw ∉ kinds
  | .importName, h => by
    have hself := List.forall_mem_singleton.mp h _ (Node.self_mem_subtrees _)
    cases hself
  | .ifElse test left right, h => by
    have hnode := List.forall_mem_singleton.mp h
    have hyes := hnode.of_mem_parts (.tail _ (.head _))
    have hno := hnode.of_mem_parts (.tail _ (.tail _ (.head _)))
    have hleft := left.import_not_mem (importless_getD hyes)
    have hright := right.import_not_mem (importless_getD hno)
    simp [paren, test.import_not_mem, hleft, hright]
  | .ifThen test left, h => by
    have hnode := List.forall_mem_singleton.mp h
    have hyes := hnode.of_mem_parts (.tail _ (.head _))
    have hleft := left.import_not_mem (importless_getD hyes)
    simp [paren, test.import_not_mem, hleft]
  | .block inner, h => by
    have hnode := List.forall_mem_singleton.mp h
    have hinner := inner.import_not_mem fun u hu => hnode.of_mem_parts hu
    simp [braced, hinner]
  | .functionDef declared inner, h => by
    have hnode := List.forall_mem_singleton.mp h
    have hbody := hnode.of_mem_parts List.mem_cons_self
    have hinner := inner.import_not_mem fun u hu => hbody.of_mem_parts hu
    simp [paren, braced, not_mem_separated declared, hinner]
  | .expression value, _ => by simp [value.import_not_mem]
  | .defaultValue value, _ => by simp [paren, value.import_not_mem]
  | .returnValue value, _ => by simp [value.import_not_mem]
  | .returnNothing, _ => by simp
  | .empty, _ => by simp

theorem Text.import_not_mem {before kinds : List TokenKind} {body : List Node} :
    Text before body kinds → (∀ u ∈ body, u.Importless) → .keyword .importKw ∉ kinds
  | .cons head tail, h => by
    rw [List.forall_mem_append] at h
    rw [List.mem_append]
    exact fun hmem => hmem.elim (head.import_not_mem h.1) (tail.import_not_mem h.2)
  | .nil, _ => List.not_mem_nil

end

end Grammar
end ClipScript
