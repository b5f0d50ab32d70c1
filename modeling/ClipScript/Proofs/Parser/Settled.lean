/-
Every parser of the grammar settles what it takes.

The rules follow the grammar from the inside out, as far as `settles_statements`.  Coming back to an
outer level is the parser `again`, and what holds of it is a hypothesis that induction on the bound
discharges.
-/
import ClipScript.Proofs.Parser.Derivation
import ClipScript.Proofs.Parser.Expressions
import ClipScript.Proofs.Parser.Settling
import ClipScript.Proofs.Parser.Twins

namespace ClipScript
namespace Parser

open Token

variable {room : Nat} {look : Look} {imported : List String} {ts : List Token}

/-! ## What expressions look ahead for -/

theorem nameAhead_le_one (ts : List Token) : nameAhead ts ≤ 1 := by
  unfold nameAhead
  split <;> omega

theorem callAhead_le_two (ts : List Token) : callAhead ts ≤ 2 := by
  unfold callAhead
  split
  · next rest =>
    have := nameAhead_le_one rest
    omega
  · omega

theorem nameAhead_of_identifier {name : String} (h : nextKind ts = .identifier name) :
    nameAhead ts = 1 := by
  obtain ⟨place, more, rfl⟩ := exists_cons_of_nextKind h nofun
  rfl

theorem callAhead_of_dot (h : nextKind ts = .symbol .dot) :
    callAhead ts = nameAhead (ts.drop 1) + 1 := by
  obtain ⟨place, more, rfl⟩ := exists_cons_of_nextKind h nofun
  rfl

theorem callAhead_of_ne_dot (h : nextKind ts ≠ .symbol .dot) : callAhead ts = 0 := by
  unfold callAhead
  split
  · exact absurd rfl h
  · rfl

theorem labelAhead?_map_kind (ts : List Token) :
    labelAhead? (ts.map Token.kind) = labelAhead? [nextKind ts, nextKind (ts.drop 1)] := by
  rcases ts with _ | ⟨⟨k, _⟩, _ | ⟨⟨k', _⟩, more⟩⟩
  · rfl
  · cases k <;> rfl
  · cases k with
    | identifier name => cases k' with
      | symbol s => cases s <;> rfl
      | _ => rfl
    | _ => rfl

theorem calleeAhead?_map_kind (imported : List String) (name : String) (ts : List Token) :
    calleeAhead? imported name (ts.map Token.kind)
      = calleeAhead? imported name [nextKind ts, nextKind (ts.drop 1), nextKind (ts.drop 2)] := by
  rcases ts with _ | ⟨⟨k, _⟩, _ | ⟨⟨k', _⟩, _ | ⟨⟨k'', _⟩, more⟩⟩⟩
  · rfl
  · unfold calleeAhead?
    split <;> simp_all [nextKind]
  · unfold calleeAhead?
    split <;> simp_all [nextKind]
  · show calleeAhead? imported name (k :: k' :: k'' :: more.map Token.kind)
      = calleeAhead? imported name [k, k', k'']
    unfold calleeAhead?
    split
    · next hkinds => cases hkinds; rfl
    · next hkinds => cases hkinds; rfl
    · next hparen hdot =>
      split
      · next hkinds =>
        cases hkinds
        exact absurd rfl (hparen _)
      · next hkinds =>
        cases hkinds
        exact absurd rfl (hdot _ _)
      · rfl

theorem labelAhead?_congr {ts' : List Token} (h : SameAhead (nameAhead ts) ts ts') :
    labelAhead? (ts.map Token.kind) = labelAhead? (ts'.map Token.kind) := by
  rw [labelAhead?_map_kind ts, labelAhead?_map_kind ts', ← h.next]
  cases hk : nextKind ts with
  | identifier name => rw [h 1 (Nat.le_of_eq (nameAhead_of_identifier hk).symm)]
  | _ => rfl

theorem calleeAhead?_congr {ts' : List Token} (h : SameAhead (callAhead ts) ts ts')
    (imported : List String) (name : String) :
    calleeAhead? imported name (ts.map Token.kind)
      = calleeAhead? imported name (ts'.map Token.kind) := by
  rw [calleeAhead?_map_kind _ _ ts, calleeAhead?_map_kind _ _ ts', ← h.next]
  by_cases hk : nextKind ts = .symbol .dot
  · have hcall := callAhead_of_dot hk
    rw [hk, ← h 1 (by omega)]
    cases hk' : nextKind (ts.drop 1) with
    | identifier function =>
      have hname := nameAhead_of_identifier hk'
      rw [h 2 (by omega)]
    | _ => rfl
  · generalize nextKind ts = k at hk
    cases k with
    | symbol s => cases s <;> first | rfl | exact absurd rfl hk
    | _ => rfl

theorem ne_dot_of_calleeAhead? {name function : String}
    (h : calleeAhead? imported name (ts.map Token.kind) = some (.named function)) :
    nextKind ts ≠ .symbol .dot := by
  intro hk
  rw [calleeAhead?_map_kind, hk] at h
  unfold calleeAhead? at h
  split at h
  · next hkinds => cases hkinds
  · split at h <;> cases h
  · cases h

/-! ## Expressions -/

section Levels

variable {again again' : Level → Parser Node} {n : Nat}

open Settles

/-- The parser of an expression settles what it takes, on at most `n` tokens.  A name that the
expression begins with is taken, whatever comes of it. -/
def SettlesUpTo (n room : Nat) (look : Look) (p p' : Parser Node) : Prop :=
  ∀ imported ts, ts.length ≤ n → Settles room look 1 (nameAhead ts) imported ts p p'

theorem SettlesUpTo.anti {n' room' : Nat} {p p' : Parser Node} (h : SettlesUpTo n room look p p')
    (hn : n' ≤ n) (hroom : room' ≤ room) : SettlesUpTo n' room' look p p' :=
  fun imported ts hts => (h imported ts (Nat.le_trans hts hn)).within hroom

/-- Coming back to a level settles what is taken. -/
def SettleLevels (n room : Nat) (again again' : Level → Parser Node) : Prop :=
  ∀ level : Level, SettlesUpTo n room level.look (again level) (again' level)

theorem run_leftRounds_of_none {level : Level} (hop : level.operator? (nextKind ts) = none)
    (operand : Parser Node) (n : Nat) (sofar : Node) (finish : Span) :
    (leftRounds level operand n sofar).run ⟨ts, finish, imported⟩
      = .ok (sofar, ⟨ts, finish, imported⟩) := by
  cases n with
  | zero => rfl
  | succ n =>
    have hpeek : peek.run ⟨ts, finish, imported⟩
      = .ok ((Cursor.mk ts finish imported).head, ⟨ts, finish, imported⟩) := rfl
    rw [leftRounds, run_bind_ok hpeek, head_kind, hop]
    rfl

theorem settles_leftRounds (level : Level) {operand operand' : Parser Node} {n' : Nat}
    (hoperand : SettlesUpTo n room near operand operand') (hts : ts.length ≤ n) (hroom : room ≤ n')
    (sofar : Node) :
    Settles room near 0 0 imported ts (leftRounds level operand n sofar)
      (leftRounds level operand' n' sofar) := by
  induction n generalizing n' room imported ts sofar with
  | zero =>
    cases List.eq_nil_of_length_eq_zero (Nat.le_zero.mp hts)
    have hop : level.operator? (nextKind []) = none := by cases level <;> rfl
    refine stays (fun finish => rfl) fun ts' finish' _ hahead => ?_
    exact run_leftRounds_of_none (hahead.next ▸ hop) operand' n' sofar finish'
  | succ n ih =>
    cases hop : level.operator? (nextKind ts) with
    | none =>
      refine stays (run_leftRounds_of_none hop operand (n + 1) sofar) fun ts' finish' _ hahead => ?_
      exact run_leftRounds_of_none (hahead.next ▸ hop) operand' n' sofar finish'
    | some op =>
      obtain ⟨place, more, rfl⟩ := exists_cons_of_nextKind (Level.operator?_eq_some hop).2 nofun
      rw [List.length_cons] at hts
      have hrounds : Settles room near 1 0 imported (⟨.symbol op.symbol, place⟩ :: more)
          (leftRounds level operand (n + 1) sofar) (leftRounds level operand' n' sofar) := by
        refine of_rounds (leftRounds level operand' · sofar) hroom fun m hm => ?_
        refine peek_bind (fun t t' ht => by rw [ht]) fun t ht => ?_
        rw [ht, hop]
        refine discard_word_bind ?_
        refine ((hoperand imported more (by omega)).at_once.within (Nat.sub_le room 1)).seq
          (fun rhs rest imported' hlength => ?_) |>.uncounted
        exact ih (hoperand.anti (by omega) (by omega)) (by omega) (by omega) _
      exact hrounds.uncounted

theorem settles_leftLevel (level : Level) {operand operand' : Parser Node}
    (hoperand : SettlesUpTo n room near operand operand') :
    SettlesUpTo n room near (leftLevel level operand) (leftLevel level operand') := by
  intro imported ts hts
  refine (hoperand imported ts hts).bind (fun first rest imported' hlength => ?_)
    (nameAhead_le_one ts)
  refine remaining_bind fun m hm => ?_
  exact settles_leftRounds level (hoperand.anti (by omega) (by omega)) (Nat.le_refl _)
    (Nat.le_refl m) first

theorem settles_argumentValue (h : SettleLevels n room again again') (before : List (Labelled Node))
    (label : Option String) (hts : ts.length ≤ n) :
    Settles room near 1 (nameAhead ts) imported ts (argumentValue again before label)
      (argumentValue again' before label) :=
  (h .assignment imported ts hts).bind (fun _ _ _ _ => checked rfl) (nameAhead_le_one ts)

theorem settles_argument (h : SettleLevels n room again again') (before : List (Labelled Node))
    (hts : ts.length ≤ n) :
    Settles room near 1 0 imported ts (argument again before) (argument again' before) := by
  have hname := nameAhead_le_one ts
  cases hlabel : labelAhead? (ts.map Token.kind) with
  | none =>
    have hcovers : near.Covers 1 (nameAhead ts) (ahead nameAhead) ts :=
      covers_ahead hname (Nat.le_refl _)
    refine ((settles_argumentValue h before none hts).dispatch hcovers (fun finish => ?_)
      fun ts' finish' hahead => ?_).at_once
    · exact run_argument_of_none again before hlabel
    · exact run_argument_of_none again' before ((labelAhead?_congr hahead).symm.trans hlabel)
  | some name =>
    obtain ⟨mark, kinds, hkinds⟩ := exists_of_labelAhead? hlabel
    obtain ⟨place, more, rfl, hmore⟩ := exists_of_map_kind hkinds
    obtain ⟨place', rest, rfl, -⟩ := exists_of_map_kind hmore
    have hrest : rest.length ≤ n := by
      simp only [List.length_cons] at hts
      omega
    refine ((settles_argumentValue h before (some name) hrest).skip (fun finish => ?_)
      fun ts' finish' hahead => ?_).weaken (Nat.le_refl _) (fun _ _ h => h) (by omega)
        (Nat.zero_le _)
    · exact run_argument_of_some again before hlabel
    · have hahead' := hahead.mono (Nat.le_succ_of_le hname)
      exact run_argument_of_some again' before ((labelAhead?_congr hahead').symm.trans hlabel)

theorem settles_callTo (h : SettleLevels n room again again') (callee : Callee) (start : Span)
    (hts : ts.length ≤ n) :
    Settles room near 1 0 imported ts (callTo again callee start) (callTo again' callee start) := by
  have hargs : Settles room near 1 0 imported ts (parenthesised (argument again))
      (parenthesised (argument again')) :=
    Settles.parenthesised (fun before imported ts hts => settles_argument h before hts) hts
  exact hargs.bind_pure _

theorem settles_named (h : SettleLevels n room again again') (name : String) (span : Span)
    (hts : ts.length ≤ n) :
    Settles room (ahead callAhead) 0 0 imported ts (named again name span)
      (named again' name span) := by
  cases hcallee : calleeAhead? imported name (ts.map Token.kind) with
  | none =>
    refine stays (a := .identifier span name) (fun finish => ?_) fun ts' finish' _ hahead => ?_
    · exact run_named_of_none again span hcallee
    · exact run_named_of_none again' span ((calleeAhead?_congr hahead _ _).symm.trans hcallee)
  | some callee =>
    cases callee with
    | named function =>
      have hahead : callAhead ts = 0 := callAhead_of_ne_dot (ne_dot_of_calleeAhead? hcallee)
      refine ((settles_callTo h (.named function) span hts).dispatch covers_near
        (fun finish => ?_) fun ts' finish' hnext => ?_).weaken (Nat.le_refl _)
          (fun _ _ hlook => near_of_next hlook.next) (Nat.zero_le 1) (Nat.le_refl 0)
      · exact run_named_of_named again span hcallee
      · have hsame : SameAhead (callAhead ts) ts ts' := by rwa [hahead]
        exact run_named_of_named again' span ((calleeAhead?_congr hsame _ _).symm.trans hcallee)
    | plugin owner function =>
      obtain ⟨rfl, -, kinds, hkinds⟩ := exists_of_calleeAhead? hcallee
      obtain ⟨place, more, rfl, hmore⟩ := exists_of_map_kind hkinds
      obtain ⟨place', rest, rfl, -⟩ := exists_of_map_kind hmore
      have hrest : rest.length ≤ n := by
        simp only [List.length_cons] at hts
        omega
      refine ((settles_callTo h (.plugin owner function) span hrest).skip (fun finish => ?_)
        fun ts' finish' hahead => ?_).weaken (Nat.le_refl _)
          (fun _ _ hlook => near_of_next hlook.next) (by omega) (Nat.zero_le _)
      · exact run_named_of_plugin again span hcallee
      · have hahead' := calleeAhead?_congr (hahead.mono (callAhead_le_two _)) imported owner
        exact run_named_of_plugin again' span (hahead'.symm.trans hcallee)

theorem settles_primary (h : SettleLevels n room again again') :
    SettlesUpTo (n + 1) (room + 1) (ahead callAhead) (primary again) (primary again') := by
  intro imported ts hts
  rcases ts with _ | ⟨⟨kind, place⟩, more⟩
  · exact runs_out fun _ => rfl
  have hmore : more.length ≤ n := Nat.le_of_succ_le_succ hts
  -- what is left to read behind the first token, which is no name
  have hbehind : ∀ {f f' : Token → Parser Node}, nameAhead (⟨kind, place⟩ :: more) = 0 →
      Settles room (ahead callAhead) 0 0 imported more (f ⟨kind, place⟩) (f' ⟨kind, place⟩) →
      Settles (room + 1) (ahead callAhead) 1 (nameAhead (⟨kind, place⟩ :: more)) imported
        (⟨kind, place⟩ :: more) (advance >>= f) (advance >>= f') := by
    intro f f' hname hf
    rw [hname]
    exact (advance_bind hf).at_once
  cases kind with
  | number digits =>
    cases hread : Decimal.read? digits with
    | some x =>
      refine hbehind rfl ?_
      dsimp only
      rw [hread]
      exact pure _
    | none =>
      have hrun : ∀ again more finish,
          (primary again).run ⟨⟨.number digits, place⟩ :: more, finish, imported⟩
            = .error ⟨.invalidNumber digits, place⟩ := by
        intro again more finish
        have hadvance : advance.run ⟨⟨.number digits, place⟩ :: more, finish, imported⟩
          = .ok (⟨.number digits, place⟩, ⟨more, finish, imported⟩) := rfl
        rw [primary, run_bind_ok hadvance]
        dsimp only
        rw [hread]
        rfl
      exact blames (.number rfl) (hrun again more) (hrun again')
  | string text => exact hbehind rfl (pure _)
  | identifier name => exact advance_bind (settles_named h name place hmore)
  | keyword word =>
    cases word with
    | trueKw => exact hbehind rfl (pure _)
    | falseKw => exact hbehind rfl (pure _)
    | _ => exact blames (.unexpected .expression) (fun _ => rfl) fun _ _ => rfl
  | symbol symbol =>
    cases symbol with
    | leftParen =>
      refine hbehind rfl ?_
      have hinner : Settles room near 1 0 imported more
          (again .assignment >>= fun inner => do
            discard <| Parser.expect .rightParen
            return inner)
          (again' .assignment >>= fun inner => do
            discard <| Parser.expect .rightParen
            return inner) := by
        refine (h .assignment imported more hmore).at_once.seq fun inner rest imported' _ => ?_
        exact ((Settles.expect .rightParen).discard.bind_pure fun _ => inner).uncounted
      exact hinner.weaken (Nat.le_refl _) (fun _ _ hlook => near_of_next hlook.next)
        (Nat.zero_le 1) (Nat.le_refl 0)
    | _ => exact blames (.unexpected .expression) (fun _ => rfl) fun _ _ => rfl
  | eof => exact blames (.unexpected .expression) (fun _ => rfl) fun _ _ => rfl

theorem settles_unary (h : SettleLevels n room again again') :
    SettlesUpTo (n + 1) (room + 1) (ahead callAhead) (unary again) (unary again') := by
  intro imported ts hts
  refine peek_bind (fun t t' ht => by rw [ht]) fun t ht => ?_
  rw [ht]
  cases hop : UnaryOp.ofToken? (nextKind ts) with
  | none => exact settles_primary h imported ts hts
  | some op =>
    obtain ⟨place, more, rfl⟩ := exists_cons_of_nextKind (UnaryOp.ofToken?_eq_some hop) nofun
    have hoperand := h .unary imported more (Nat.le_of_succ_le_succ hts)
    exact (advance_bind (hoperand.bind_pure _)).weaken (Nat.le_refl _) (fun _ _ h => h)
      (by omega) (Nat.zero_le _)

theorem settles_chain (h : SettleLevels n room again again') :
    SettlesUpTo (n + 1) (room + 1) near (chain again) (chain again') := by
  intro imported ts hts
  refine (settles_unary h imported ts hts).bind (fun value rest imported' hlength => ?_)
    (nameAhead_le_one ts)
  refine accept_bind (k := .symbol .dot) nofun covers_sees (fun place more hrest => ?_)
    fun hdot => ?_
  · -- the name that a plugin call would have there is taken for the next link
    subst hrest
    rw [List.length_cons] at hlength
    have hlink := (h .chain imported' more (by omega)).bind_pure fun link =>
      Node.chain (value.span.merge link.span) value link
    exact hlink.weaken (Nat.sub_le _ _) (fun _ _ h => h) (nameAhead_le_one more)
      (Nat.le_refl _)
  · rw [callAhead_of_ne_dot hdot]
    exact pure value

theorem settles_power (h : SettleLevels n room again again') :
    SettlesUpTo (n + 1) (room + 1) near (power again) (power again') := by
  intro imported ts hts
  refine (settles_leftLevel .concat (settles_chain h) imported ts hts).bind
    (fun base rest imported' hlength => ?_) (nameAhead_le_one ts)
  refine peek_bind (fun t t' ht => by rw [ht]) fun t ht => ?_
  rw [ht]
  cases hop : Level.power.operator? (nextKind rest) with
  | none => exact pure base
  | some op =>
    obtain ⟨place, more, rfl⟩ := exists_cons_of_nextKind (Level.operator?_eq_some hop).2 nofun
    rw [List.length_cons] at hlength
    have hexponent := h .power imported' more (by omega)
    refine (discard_word_bind ?_).uncounted
    exact (hexponent.bind_pure _).uncounted.within (Nat.sub_le _ _)

theorem settles_ternary (h : SettleLevels n room again again')
    (hdisjunction : SettlesUpTo (n + 1) (room + 1) near (disjunction again) (disjunction again')) :
    SettlesUpTo (n + 1) (room + 1) near (ternary again) (ternary again') := by
  intro imported ts hts
  refine (hdisjunction imported ts hts).bind (fun condition rest imported' hlength => ?_)
    (nameAhead_le_one ts)
  refine accept_bind (k := .symbol .question) nofun covers_sees (fun place more hrest => ?_)
    fun _ => pure condition
  have hmore : more.length + 1 = rest.length := by rw [hrest, List.length_cons]
  refine ((h .disjunction imported' more (by omega)).within (Nat.sub_le _ _)).at_once.seq
    (fun yes rest₁ imported₁ hlength₁ => ?_) |>.uncounted
  refine (Settles.expect .pipe).discard.seq (fun _ rest₂ imported₂ hlength₂ => ?_) |>.uncounted
  exact ((h .ternary imported₂ rest₂ (by omega)).bind_pure _).uncounted.within (by omega)

theorem settles_assignment (h : SettleLevels n room again again')
    (hternary : SettlesUpTo (n + 1) (room + 1) near (ternary again) (ternary again')) :
    SettlesUpTo (n + 1) (room + 1) near (assignment again) (assignment again') := by
  intro imported ts hts
  refine (hternary imported ts hts).bind (fun target rest imported' hlength => ?_)
    (nameAhead_le_one ts)
  refine peek_bind (fun t t' ht => by rw [ht]) fun t ht => ?_
  rw [ht]
  cases hop : AssignOp.ofToken? (nextKind rest) with
  | none => exact pure target
  | some op =>
    obtain ⟨place, more, rfl⟩ := exists_cons_of_nextKind (AssignOp.ofToken?_eq_some hop) nofun
    rw [List.length_cons] at hlength
    have hvalue := h .assignment imported' more (by omega)
    refine (discard_word_bind ?_).uncounted
    exact (hvalue.bind_pure _).uncounted.within (Nat.sub_le _ _)

/-- The levels are stacked: each settles what it takes if the next tighter one does. -/
theorem settles_atLevel (h : SettleLevels n room again again') :
    SettleLevels (n + 1) (room + 1) (atLevel again) (atLevel again') := by
  refine atLevel_stacked again again'
    (fun level => SettlesUpTo (n + 1) (room + 1) level.look) (settles_primary h) (settles_unary h)
    (settles_chain h) (settles_power h) ?_ (settles_ternary h) (settles_assignment h)
  intro level p p' hleft hoperand
  have hnear : level.look = near ∧ level.tighter.look = near := by
    cases level <;> first | exact ⟨rfl, rfl⟩ | cases hleft
  rw [hnear.1]
  rw [hnear.2] at hoperand
  exact settles_leftLevel level hoperand

end Levels

/-- As many rounds as tokens are enough, so how many more there are does not matter. -/
theorem settles_expressionAt (n n' : Nat) :
    SettleLevels n n' (expressionAt n) (expressionAt n') := by
  induction n generalizing n' with
  | zero =>
    intro level imported ts hts
    cases List.eq_nil_of_length_eq_zero (Nat.le_zero.mp hts)
    exact .runs_out fun _ => rfl
  | succ n ih =>
    cases n' with
    | zero => exact fun level imported ts hts =>
        (settles_atLevel (ih 0) level imported ts hts).without_room
    | succ n' => exact settles_atLevel (ih n')

theorem settles_expression : Settles room near 1 0 imported ts expression expression :=
  .remaining_bind fun n _ =>
    (settles_expressionAt ts.length n .assignment imported ts (Nat.le_refl _)).at_once

/-! ## Statements -/

open Settles

theorem settles_paramKind (start : Span) (optional : Bool) :
    Settles room near 1 0 imported ts
      (do
        let token ← advance
        let kind ← match token.kind with
          | .keyword .numKw => pure ValueKind.number
          | .keyword .boolKw => pure ValueKind.boolean
          | .keyword .stringKw => pure ValueKind.string
          | .keyword .clipKw => pure ValueKind.clip
          | _ => unexpected .parameterType token
        let (name, finish) ← expectName .parameterName
        return ({ name, kind, optional, span := start.merge finish } : Param))
      (do
        let token ← advance
        let kind ← match token.kind with
          | .keyword .numKw => pure ValueKind.number
          | .keyword .boolKw => pure ValueKind.boolean
          | .keyword .stringKw => pure ValueKind.string
          | .keyword .clipKw => pure ValueKind.clip
          | _ => unexpected .parameterType token
        let (name, finish) ← expectName .parameterName
        return { name, kind, optional, span := start.merge finish }) := by
  rcases ts with _ | ⟨⟨kind, place⟩, more⟩
  · exact runs_out fun _ => rfl
  have hname : ∀ kind : ValueKind, Settles (room - 1) near 0 0 imported more
      (do
        let (name, finish) ← Parser.expectName .parameterName
        return ({ name, kind, optional, span := start.merge finish } : Param))
      (do
        let (name, finish) ← Parser.expectName .parameterName
        return { name, kind, optional, span := start.merge finish }) :=
    fun kind => ((Settles.expectName .parameterName).bind_pure _).uncounted
  cases kind with
  | keyword word =>
    cases word with
    | numKw => exact word_bind (hname .number)
    | boolKw => exact word_bind (hname .boolean)
    | stringKw => exact word_bind (hname .string)
    | clipKw => exact word_bind (hname .clip)
    | _ => exact blames (.unexpected .parameterType) (fun _ => rfl) fun _ _ => rfl
  | _ => exact blames (.unexpected .parameterType) (fun _ => rfl) fun _ _ => rfl

theorem settles_param : Settles room near 1 0 imported ts param param := by
  refine peek_bind_of_moves fun t ht => ?_
  refine accept_bind (k := .keyword .optKw) nofun covers_sees (fun place more hrest => ?_)
    fun _ => ?_
  · exact (settles_paramKind t.span true).uncounted
  · exact settles_paramKind t.span false

theorem settles_paramOf (function : String) (before : List Param) :
    Settles room near 1 0 imported ts (paramOf function before) (paramOf function before) :=
  settles_param.seq fun _ _ _ _ => checked rfl

section Words

/- The statements that begin with a word, which is read first. -/
variable {t : Token} {more : List Token}

theorem settles_defaultStatement :
    Settles room look 1 0 imported (t :: more) defaultStatement defaultStatement := by
  refine word_bind ?_
  refine (Settles.expect .leftParen).discard.step (fun _ _ _ _ => ?_) |>.uncounted
  refine (Settles.expectName _).step fun name _ _ _ => ?_
  refine (Settles.expect .comma).discard.step fun _ _ _ _ => ?_
  refine settles_expression.step fun value _ _ _ => ?_
  refine (Settles.expect .rightParen).discard.step fun _ _ _ _ => ?_
  exact (Settles.expect .semicolon).bind_pure _

theorem settles_returnStatement :
    Settles room look 1 0 imported (t :: more) returnStatement returnStatement := by
  refine word_bind ?_
  have hfinish : ∀ room value rest imported, Settles room look 1 0 imported rest
      (do let finish ← Parser.expect .semicolon
          return Node.returnValue (t.span.merge finish) value)
      (do let finish ← Parser.expect .semicolon
          return Node.returnValue (t.span.merge finish) value) :=
    fun _ _ _ _ => (Settles.expect .semicolon).bind_pure _
  have hcovers : look.Covers 1 0 near more := covers_near_of_moves
  refine (check_bind hcovers ?_).uncounted
  split
  · exact hfinish _ none _ _
  · exact (settles_expression.map some).step fun value rest imported' _ =>
      hfinish _ value rest imported'

theorem settles_importStatement :
    Settles room look 1 0 imported (t :: more) importStatement importStatement := by
  refine word_bind ?_
  refine (Settles.expectName _).step (fun found _ _ _ => ?_) |>.uncounted
  have hsemicolon : ∀ room imported rest, Settles room (fun _ _ => True) 1 0 imported rest
      (Parser.expect .semicolon) (Parser.expect .semicolon) :=
    fun _ _ _ => Settles.expect .semicolon
  exact (hsemicolon _ _ _).seq_of_covers (fun finish _ _ _ => makes_known _ _)
    fun _ => covers_nothing

end Words

section Nested

variable {again again' : Parser (Option Node)} {n : Nat}

/-- A statement inside another one settles what it takes, on at most `n` tokens.  All it looks for
behind them is `else`. -/
def SettleStatements (n room : Nat) (again again' : Parser (Option Node)) : Prop :=
  ∀ imported ts, ts.length ≤ n → Settles room elses 1 0 imported ts again again'

theorem SettleStatements.anti {n' room' : Nat} (h : SettleStatements n room again again')
    (hn : n' ≤ n) (hroom : room' ≤ room) : SettleStatements n' room' again again' :=
  fun imported ts hts => (h imported ts (Nat.le_trans hts hn)).within hroom

theorem settles_blockBody {n' : Nat} (h : SettleStatements n room again again')
    (hts : ts.length ≤ n) (hroom : room ≤ n') :
    Settles room near 0 0 imported ts (blockBody again n) (blockBody again' n') := by
  induction n generalizing n' room imported ts with
  | zero =>
    cases List.eq_nil_of_length_eq_zero (Nat.le_zero.mp hts)
    exact runs_out fun _ => rfl
  | succ n ih =>
    by_cases hbrace : nextKind ts = .symbol .rightBrace
    · obtain ⟨place, more, rfl⟩ := exists_cons_of_nextKind hbrace nofun
      refine stays (a := []) (fun _ => rfl) fun ts' finish' hlen hahead => ?_
      obtain ⟨place', more', rfl⟩ := exists_cons_of_nextKind hahead.next.symm nofun
      obtain ⟨m, rfl⟩ : ∃ m, n' = m + 1 := ⟨n' - 1, by rw [List.length_cons] at hlen; omega⟩
      rfl
    by_cases hend : nextKind ts = .eof
    · rcases ts with _ | ⟨⟨kind, place⟩, more⟩
      · exact runs_out fun _ => rfl
      · cases show kind = .eof from hend
        exact blames (.unexpected (.symbol .rightBrace)) (fun _ => rfl)
          fun _ _ => by cases n' <;> rfl
    have hrounds : Settles room near 1 0 imported ts (blockBody again (n + 1))
        (blockBody again' n') := by
      refine of_rounds (blockBody again') hroom fun m hm => ?_
      refine peek_bind_of_moves fun t ht => ?_
      split
      · next hk => exact absurd (ht ▸ hk) hbrace
      · next hk => exact absurd (ht ▸ hk) hend
      · refine (h imported ts hts).nearly.seq fun first rest imported' hlength => ?_
        exact (ih (h.anti (by omega) (by omega)) (by omega) (by omega)).bind_pure _
    exact hrounds.uncounted

theorem settles_block (h : SettleStatements n room again again') (hts : ts.length ≤ n + 1) :
    Settles (room + 1) look 1 0 imported ts (block again) (block again') := by
  refine (Settles.expect .leftBrace).step fun start rest imported' hlength => ?_
  refine remaining_bind fun m hm => ?_
  have hbody : Settles m near 0 0 imported' rest (blockBody again rest.length)
      (blockBody again' m) :=
    settles_blockBody (h.anti (by omega) (by omega)) (Nat.le_refl _) (Nat.le_refl m)
  refine hbody.last fun body rest' finish imported₁ _ hrun => ?_
  have hbrace : nextKind rest' = .symbol .rightBrace := by
    rw [← head_kind rest' finish imported₁]
    exact head_of_run_blockBody hrun
  obtain ⟨place, more, rfl⟩ := exists_cons_of_nextKind hbrace nofun
  exact word_bind (pure _)

theorem settles_branch (h : SettleStatements n room again again') (hts : ts.length ≤ n) :
    Settles room elses 1 0 imported ts (branch again) (branch again') :=
  peek_bind_of_moves fun _ _ => (h imported ts hts).bind_pure _

theorem settles_ifStatement (h : SettleStatements n room again again') {t : Token}
    {more : List Token} (hmore : more.length ≤ n) :
    Settles (room + 1) elses 1 0 imported (t :: more) (ifStatement again) (ifStatement again') := by
  refine word_bind ?_
  refine (Settles.expect .leftParen).discard.step (fun _ rest₁ _ h₁ => ?_) |>.uncounted
  refine settles_expression.step fun condition rest₂ _ h₂ => ?_
  refine (Settles.expect .rightParen).discard.step fun _ rest₃ _ h₃ => ?_
  refine ((settles_branch h (by omega)).within (by omega)).seq_of_covers
    (fun yes rest₄ imported₄ h₄ => ?_) fun _ => .of_next elses_of_next (.inr id)
  refine accept_bind (k := .keyword .elseKw) nofun (.of_next elses_of_next (.inr id))
    (fun place rest₅ hrest => ?_) fun _ => pure _
  have h₅ : rest₅.length + 1 = rest₄.length := by rw [hrest, List.length_cons]
  have hno : Settles room elses 1 0 imported₄ rest₅ (branch again) (branch again') :=
    settles_branch h (by omega)
  exact ((hno.map some).bind_pure _).uncounted.within (by omega)

theorem settles_functionStatement (h : SettleStatements n room again again') {t : Token}
    {more : List Token} (hmore : more.length ≤ n) :
    Settles (room + 1) look 1 0 imported (t :: more) (functionStatement again)
      (functionStatement again') := by
  refine word_bind ?_
  refine (Settles.expectName _).step (fun found rest₁ _ h₁ => ?_) |>.uncounted
  have hparams : ∀ room imported, Settles room near 1 0 imported rest₁
      (parenthesised (paramOf found.1)) (parenthesised (paramOf found.1)) :=
    fun _ _ => Settles.parenthesised (fun before _ _ _ => settles_paramOf found.1 before)
      (Nat.le_refl _)
  refine (hparams _ _).step fun params rest₂ _ h₂ => ?_
  exact ((settles_block h (by omega)).bind_pure _).within (by omega)

theorem settles_statementWith (h : SettleStatements n room again again') :
    SettleStatements (n + 1) (room + 1) (statementWith again) (statementWith again') := by
  intro imported ts hts
  refine peek_bind_of_moves fun t ht => ?_
  rw [ht]
  have hmore : ∀ {t more}, ts = t :: more → more.length ≤ n := by
    rintro t more rfl
    exact Nat.le_of_succ_le_succ hts
  split
  · next hk =>
    obtain ⟨place, more, rfl⟩ := exists_cons_of_nextKind hk nofun
    exact discard_word_bind (pure none)
  · exact (settles_block h hts).map some
  · next hk =>
    obtain ⟨place, more, rfl⟩ := exists_cons_of_nextKind hk nofun
    exact (settles_ifStatement h (hmore rfl)).map some
  · next hk =>
    obtain ⟨place, more, rfl⟩ := exists_cons_of_nextKind hk nofun
    exact (settles_functionStatement h (hmore rfl)).map some
  · next hk =>
    obtain ⟨place, more, rfl⟩ := exists_cons_of_nextKind hk nofun
    exact settles_defaultStatement.map some
  · next hk =>
    obtain ⟨place, more, rfl⟩ := exists_cons_of_nextKind hk nofun
    exact settles_returnStatement.map some
  · next hk =>
    obtain ⟨place, more, rfl⟩ := exists_cons_of_nextKind hk nofun
    exact settles_importStatement.map some
  · refine settles_expression.step fun value _ _ _ => ?_
    exact (Settles.expect .semicolon).discard.bind_pure fun _ => some value

end Nested

theorem settles_statementAt (n n' : Nat) :
    SettleStatements n n' (statementAt n) (statementAt n') := by
  induction n generalizing n' with
  | zero =>
    intro imported ts hts
    cases List.eq_nil_of_length_eq_zero (Nat.le_zero.mp hts)
    exact runs_out fun _ => rfl
  | succ n ih =>
    cases n' with
    | zero => exact fun imported ts hts =>
        (settles_statementWith (ih 0) imported ts hts).without_room
    | succ n' => exact settles_statementWith (ih n')

theorem settles_statement : Settles room elses 1 0 imported ts statement statement :=
  remaining_bind fun n _ => settles_statementAt ts.length n imported ts (Nat.le_refl _)

theorem settles_statements {n n' : Nat} (hts : ts.length ≤ n) (hroom : room ≤ n') :
    Settles room near 0 0 imported ts (statements n) (statements n') := by
  induction n generalizing n' room imported ts with
  | zero =>
    cases List.eq_nil_of_length_eq_zero (Nat.le_zero.mp hts)
    refine stays (fun _ => rfl) fun ts' finish' _ hahead => ?_
    exact run_statements_eof (by rw [head_kind, ← hahead.next]; rfl) n'
  | succ n ih =>
    by_cases hend : nextKind ts = .eof
    · refine stays (fun finish => run_statements_eof (by rw [head_kind, hend]) (n + 1))
        fun ts' finish' _ hahead => ?_
      exact run_statements_eof (by rw [head_kind, ← hahead.next, hend]) n'
    · have hrounds : Settles room near 1 0 imported ts (statements (n + 1)) (statements n') := by
        refine of_rounds statements hroom fun m hm => ?_
        refine check_bind covers_near ?_
        rw [beq_false_of_ne hend]
        refine settles_statement.nearly.seq fun first rest imported' hlength => ?_
        exact (ih (by omega) (by omega)).bind_pure _
      exact hrounds.uncounted

end Parser
end ClipScript
