/-
Scopes only grow.

Nothing that a run does takes a variable away.  An assignment keeps the binding of a variable that
is there and makes a new one local, and stores no void.  So however a run ends, every scope has come
of what it was in the manner of `Variables.Grown`.  All this is one contract, in which the worlds
are the stores themselves (`Watch.growing`).

A run may be watched for default statements that find their parameter without a value:
`Evaluator.guarding` raises an alarm instead of carrying one out, unless it is to be spared.  Where
none can occur, or all that can are spared, a guarded run is like any other (`parts_guarding`).
-/
import ClipScript.Proofs.Contract.Evaluation
import ClipScript.Proofs.Node.Defaults
import ClipScript.Proofs.Storable

namespace ClipScript

/-! ## Variables -/

namespace Variables

/-- Variables that come of others.  None is lost, bindings stay, a value does not become void, and
what is new is local. -/
structure Grown (vars vars' : Variables) : Prop where
  kept : ∀ name v, vars.find? name = some v → ∃ v', vars'.find? name = some v' ∧
    v'.binding = v.binding ∧ (v.value ≠ .void → v'.value ≠ .void)
  new : ∀ name v', vars.find? name = none → vars'.find? name = some v' → v'.binding = .local

/-- Whether an optional parameter of the name still lacks a value. -/
def lacks (vars : Variables) (name : String) : Bool :=
  match vars.find? name with
  | some ⟨.void, .optional⟩ => true
  | _ => false

variable {vars vars' vars'' : Variables} {name : String}

theorem lacks_iff : vars.lacks name ↔ vars.find? name = some ⟨.void, .optional⟩ := by
  unfold lacks
  split
  · next h => simp [h]
  · next h =>
    constructor
    · nofun
    · intro hfound
      exact absurd hfound h

theorem lacks_eq_false {v : Variable} (h : vars.find? name = some v) (hv : v.value ≠ .void) :
    vars.lacks name = false := by
  rw [Bool.eq_false_iff, ne_eq, lacks_iff, h]
  rintro ⟨⟩
  exact hv rfl

namespace Grown

theorem refl (vars : Variables) : vars.Grown vars where
  kept _ v hv := ⟨v, hv, rfl, id⟩
  new name v hnone hv := by
    rw [hnone] at hv
    cases hv

theorem trans (h : vars.Grown vars') (h' : vars'.Grown vars'') : vars.Grown vars'' where
  kept name v hv := by
    obtain ⟨v', hv', hbinding, hvalue⟩ := h.kept name v hv
    obtain ⟨v'', hv'', hbinding', hvalue'⟩ := h'.kept name v' hv'
    exact ⟨v'', hv'', hbinding'.trans hbinding, hvalue' ∘ hvalue⟩
  new name v'' hnone hv'' := by
    cases hmid : vars'.find? name with
    | none => exact h'.new name v'' hmid hv''
    | some v' =>
      obtain ⟨found, hfound, hbinding, -⟩ := h'.kept name v' hmid
      rw [hv''] at hfound
      cases hfound
      rw [hbinding]
      exact h.new name v' hnone hmid

theorem assign (vars : Variables) (name : String) {value : Value} (hvalue : value ≠ .void) :
    vars.Grown (vars.assign name value) where
  kept other v hv := by
    rw [Variables.assign, Table.find?_insert]
    by_cases hother : other = name
    · subst hother
      rw [if_pos rfl, hv]
      exact ⟨_, rfl, rfl, fun _ => hvalue⟩
    · rw [if_neg hother]
      exact ⟨v, hv, rfl, id⟩
  new other v' hnone hv' := by
    rw [Variables.assign, Table.find?_insert] at hv'
    split at hv'
    · next hother =>
      subst hother
      rw [hnone] at hv'
      cases hv'
      rfl
    · rw [hnone] at hv'
      cases hv'

theorem lacks (h : vars.Grown vars') (hlacks : vars'.lacks name) : vars.lacks name := by
  rw [lacks_iff] at hlacks ⊢
  cases hv : vars.find? name with
  | none => cases h.new name _ hv hlacks
  | some v =>
    obtain ⟨value, binding⟩ := v
    obtain ⟨v', hv', hbinding, hvalue⟩ := h.kept name _ hv
    rw [hlacks] at hv'
    cases hv'
    cases hbinding
    obtain rfl : value = .void := Classical.not_not.mp fun hne => hvalue hne rfl
    rfl

end Grown
end Variables

theorem Value.ne_void_of_isStorable {v : Value} (h : v.isStorable) : v ≠ .void := by
  rintro rfl
  cases h

/-! ## Stores of scopes -/

namespace Scopes

/-- A store that comes of another: every scope that was in use has grown. -/
structure Grown (s s' : Scopes) : Prop where
  contains : ∀ id, s.contains id → s'.contains id
  vars : ∀ id, s.contains id → (s.get id).vars.Grown (s'.get id).vars

def lacks (s : Scopes) (id : ScopeId) (name : String) : Bool := (s.get id).vars.lacks name

variable {s s' s'' : Scopes} {id : ScopeId}

namespace Grown

theorem refl (s : Scopes) : s.Grown s := ⟨fun _ => id, fun _ _ => .refl _⟩

theorem trans (h : s.Grown s') (h' : s'.Grown s'') : s.Grown s'' where
  contains id hid := h'.contains id (h.contains id hid)
  vars id hid := (h.vars id hid).trans (h'.vars id (h.contains id hid))

theorem assign (s : Scopes) (env : Env) (name : String) {value : Value} (hvalue : value ≠ .void) :
    s.Grown (s.assign env name value) where
  contains id hid := by
    rw [Scopes.assign, contains_modify]
    exact hid
  vars id _ := by
    rw [Scopes.assign, vars_get_modify s env.here id fun vars => vars.assign name value]
    split
    · next hhere =>
      rw [hhere.1]
      exact .assign _ name hvalue
    · exact .refl _

theorem define (s : Scopes) (env : Env) (name : String) (f : Function) :
    s.Grown (s.define env name f) where
  contains id hid := by
    rw [Scopes.define, contains_modify]
    exact hid
  vars id _ := by
    rw [vars_get_define]
    exact .refl _

theorem entered (s : Scopes) (f : UserFunction) (args : ArgList) :
    s.Grown (s.entered f args).2 where
  contains id hid := contains_entered s f args hid
  vars id hid := by
    rw [get_entered s f args hid]
    exact .refl _

theorem lacks {name : String} (h : s.Grown s') (hid : s.contains id) (hlacks : s'.lacks id name) :
    s.lacks id name :=
  (h.vars id hid).lacks hlacks

theorem lacks_eq_false {name : String} (h : s.Grown s') (hid : s.contains id)
    (hfilled : s.lacks id name = false) : s'.lacks id name = false := by
  rw [Bool.eq_false_iff] at hfilled ⊢
  exact fun hlacks => hfilled (h.lacks hid hlacks)

end Grown
end Scopes

/-! ## The contract -/

/-- What is known of a store, as long as it only grows, and what it says of the scopes in which
something is evaluated. -/
structure Watch where
  kept : Scopes → Prop
  own : Env → Prop
  grown : ∀ {s s'}, s.Grown s' → kept s → kept s'
  global : ∀ {s}, kept s → own .global
  child : ∀ {s} (home : Env), kept s → own (s.addChild home).1

namespace Watch

def anything : Watch where
  kept _ := True
  own _ := True
  grown _ _ := trivial
  global _ := trivial
  child _ _ := trivial

/-- A scope is in use, and something is evaluated in others only. -/
def elsewhere (scope : ScopeId) (hscope : scope ≠ 0) : Watch where
  kept s := s.contains scope
  own env := env.here ≠ scope
  grown h := h.contains scope
  global _ := hscope.symm
  child _ hused := Nat.ne_of_gt (of_decide_eq_true hused)

/-- A scope is in use in which a parameter does not lack a value. -/
def filled (scope : ScopeId) (name : String) : Watch where
  kept s := s.contains scope ∧ s.lacks scope name = false
  own _ := True
  grown h hs := ⟨h.contains scope hs.1, h.lacks_eq_false hs.1 hs.2⟩
  global _ := trivial
  child _ _ := trivial

/-- Scopes grow, and change in no other way. -/
def growing (w : Watch) : Contract where
  World := Scopes
  order := {
    le := Scopes.Grown
    le_refl := .refl
    le_trans := fun _ _ _ => .trans }
  free := True
  holds W s _ := s = W ∧ w.kept s
  own _ env := w.own env
  callable _ _ _ := True
  own_mono _ h := h
  own_global h := w.global h.2
  callable_mono _ _ := trivial
  core _ := .inl trivial
  user _ := trivial
  function? _ _ _ _ := trivial
  resolve _ _ _ := trivial
  assign {W s r env v} name h _ hv := by
    obtain ⟨rfl, hkept⟩ := h
    have hgrown := Scopes.Grown.assign s env name (Value.ne_void_of_isStorable hv)
    exact ⟨_, hgrown, rfl, w.grown hgrown hkept⟩
  define {W s r f} name _ h _ := by
    obtain ⟨rfl, hkept⟩ := h
    have hgrown := Scopes.Grown.define s f.home name (.user f)
    exact ⟨_, hgrown, rfl, w.grown hgrown hkept⟩
  enter {W s r active f} args h _ := by
    obtain ⟨rfl, hkept⟩ := h
    have hgrown := Scopes.Grown.entered s f args
    exact ⟨_, hgrown, w.child f.home hkept, rfl, w.grown hgrown hkept⟩

theorem hosts_growing (w : Watch) (host : Host) (name : String) : w.growing.Hosts host name :=
  fun h _ _ _ => ⟨_, .refl _, h⟩

variable {α : Type} {w : Watch} {m : Machine} {x y : Eval α}

theorem ready (h : w.kept m.scopes) : w.growing.Ready m.importing m.scopes m := ⟨⟨rfl, h⟩, rfl⟩

theorem outcome_eq (h : w.growing.Agrees m.importing m.scopes x y) (hm : w.kept m.scopes) :
    y.outcome m = x.outcome m :=
  (h le_rfl (ready hm)).1

theorem grown_outcome (h : w.growing.Agrees m.importing m.scopes x y) (hm : w.kept m.scopes) :
    m.scopes.Grown (x.outcome m).2.scopes := by
  obtain ⟨W', hgrown, hready⟩ := (h le_rfl (ready hm)).2.ready
  rw [hready.holds.1]
  exact hgrown

end Watch

/-! ## Guards -/

/-- Whether a tree is a default statement, about to be carried out in a scope, that finds its
parameter without a value. -/
def Machine.fills (m : Machine) (scope : ScopeId) (name : String) (env : Env) (n : Node) : Bool :=
  n.isDefaultOf name && env.here == scope && m.scopes.lacks scope name

namespace Evaluator

variable {parts : Evaluator} {env : Env} {name : String} {m : Machine}

theorem outcome_setDefault_of_filled (value : Node)
    (h : m.scopes.lacks env.here name = false) :
    ((setDefault parts env name value).outcome m).2 = m := by
  have hfilled : m.scopes.var? env name ≠ some ⟨.void, .optional⟩ := by
    rw [Bool.eq_false_iff] at h
    exact fun hfound => h (Variables.lacks_iff.mpr hfound)
  have hget : (get : Eval Machine).outcome m = (.ok m, m) := rfl
  unfold setDefault
  split
  · rfl
  · dsimp only
    rw [Eval.outcome_bind_of_ok hget]
    split
    · next hfound => exact absurd hfound hfilled
    · rfl
    · rfl
    · rfl

/-- A default statement that does not find its parameter without a value changes nothing but the
place. -/
theorem outcome_default_of_filled (host : Host) (s : Span) (value : Node)
    (h : m.scopes.lacks env.here name = false) :
    ((node host parts env (.defaultValue s name value)).outcome m).2 = { m with span := s } := by
  have hset : ((setDefault parts env name value).outcome { m with span := s }).2
      = { m with span := s } := outcome_setDefault_of_filled value h
  show ((do setDefault parts env name value; return Flow.proceed .void : Eval Flow).outcome
    { m with span := s }).2 = _
  rw [Eval.outcome_bind]
  generalize (setDefault parts env name value).outcome { m with span := s } = o at hset ⊢
  obtain ⟨_ | _, n⟩ := o <;> exact hset

/-- One that does stores what its value comes to. -/
theorem outcome_default_of_lacks (host : Host) (s : Span) {value : Node} {v : Value} {n : Machine}
    (henv : env.isGlobal = false) (h : m.scopes.lacks env.here name)
    (hvalue : (valueOf parts env value).outcome { m with span := s } = (.ok v, n))
    (hv : v.isStorable) :
    (node host parts env (.defaultValue s name value)).outcome m
      = (.ok (.proceed .void), { n with scopes := n.scopes.assign env name v }) := by
  have hfound : m.scopes.var? env name = some ⟨.void, .optional⟩ := Variables.lacks_iff.mp h
  have hstore : (store env name v).outcome n
      = (.ok (), { n with scopes := n.scopes.assign env name v }) := by
    rw [store, hv]
    rfl
  have hset : (setDefault parts env name value).outcome { m with span := s }
      = (.ok (), { n with scopes := n.scopes.assign env name v }) := by
    have hget : (get : Eval Machine).outcome { m with span := s }
        = (.ok { m with span := s }, { m with span := s }) := rfl
    rw [setDefault, henv, if_neg Bool.false_ne_true]
    dsimp only
    rw [Eval.outcome_bind_of_ok hget, hfound]
    exact (Eval.outcome_bind_of_ok hvalue _).trans hstore
  exact Eval.outcome_bind_of_ok (m := { m with span := s }) hset _

end Evaluator

/-- What is done instead of filling in a default, and where it is filled in after all: at certain
trees, and only when these are come to from certain machines. -/
structure Guard where
  alarm : Eval Flow
  spare : Node → Machine → Bool

def Guard.idle : Guard := ⟨throw .tooDeep, fun _ _ => true⟩

namespace Evaluator

/-- An evaluator that raises an alarm instead of filling in a default for a name in a scope, for
nodes and calls nested at most `n` deep. -/
def guarding (g : Guard) (scope : ScopeId) (name : String) (host : Host) : Nat → Evaluator
  | 0 => .inert
  | n + 1 =>
    { evaluate := fun env tree => do
        let m ← get
        if m.fills scope name env tree && !g.spare tree m then g.alarm
        else (guarding g scope name host n).node host env tree
      invoke := (guarding g scope name host n).call }

variable {g : Guard} {scope : ScopeId} {name : String} {host : Host}

theorem invoke_guarding (g : Guard) (scope : ScopeId) (name : String) (host : Host) (depth : Nat) :
    (guarding g scope name host (depth + 1)).invoke = (guarding g scope name host depth).call :=
  rfl

theorem outcome_guarding {depth : Nat} {env : Env} {n : Node} {m : Machine}
    (h : m.fills scope name env n → g.spare n m) :
    ((guarding g scope name host (depth + 1)).evaluate env n).outcome m
      = ((guarding g scope name host depth).node host env n).outcome m := by
  show (if m.fills scope name env n && !g.spare n m then g.alarm else _ : Eval Flow).outcome m = _
  rw [if_neg]
  simpa using h

/-- Nobody notices a guard that spares every default that is watched for. -/
theorem parts_guarding (w : Watch)
    (hspare : ∀ {m env n}, w.kept m.scopes → w.own env → m.fills scope name env n → g.spare n m)
    (depth : Nat) (active : List Env) (scripts : List String) :
    w.growing.Parts active scripts (fun _ => True) (.ofDepth host depth)
      (.guarding g scope name host depth) := by
  induction depth generalizing active scripts with
  | zero => exact .inert trivial
  | succ depth ih =>
    refine ⟨fun {W env n} henv _ => ?_, fun hf args => Contract.Parts.call (fun _ => ih ..) hf args⟩
    intro W' hW m hm
    have hnode : w.growing.Agrees scripts W' ((Evaluator.ofDepth host depth).node host env n)
        ((Evaluator.guarding g scope name host depth).node host env n) :=
      Contract.Parts.node_of_free trivial (fun _ _ => w.hosts_growing host _)
        (fun scripts => ih (env :: active) scripts) henv List.mem_cons_self
    obtain ⟨heq, hkeeps⟩ := hnode le_rfl hm
    exact ⟨(outcome_guarding (hspare hm.holds.2 henv)).trans heq, hkeeps⟩

theorem grown_evaluate (host : Host) (depth : Nat) (env : Env) (n : Node) (m : Machine) :
    m.scopes.Grown (((ofDepth host depth).evaluate env n).outcome m).2.scopes := by
  have hparts : Watch.anything.growing.Parts [] m.importing (fun _ => True) (.ofDepth host depth)
      (.guarding .idle 0 "" host depth) :=
    parts_guarding _ (fun _ _ _ => rfl) depth [] m.importing
  exact Watch.grown_outcome (hparts.evaluate trivial trivial) trivial

end Evaluator
end ClipScript
