/-
Places never influence what a script does.

Every function body, error and warning carries spans.  Forgetting them all (`Machine.unplaced`) goes
with every change that a run makes to its machine, so machines that differ in places only stay so.
`Coupling.places` couples two runs of trees that differ in places only, from such machines, and the
runs end alike at every depth (`Coupling.parts_places`).

The one way for a place to get into a script is a native function that asks for the current line and
acts on it; where there is one, the same script on another line may do something else.
-/
import ClipScript.Interpreter
import ClipScript.Proofs.Parser.Twins
import ClipScript.Proofs.Unchaining

namespace ClipScript

/-! ## Tables -/

namespace Table

variable {α β : Type}

def map (change : α → β) (t : Table α) : Table β :=
  ⟨t.entries.map fun entry => (entry.1, change entry.2)⟩

theorem find?_map (change : α → β) (t : Table α) (name : String) :
    (t.map change).find? name = (t.find? name).map change := by
  obtain ⟨entries⟩ := t
  simp only [map, find?]
  induction entries with
  | nil => rfl
  | cons entry rest ih =>
    rw [List.map_cons, List.lookup_cons, List.lookup_cons, ih]
    cases name == entry.1 <;> rfl

theorem map_insert (change : α → β) (t : Table α) (name : String) (value : α) :
    (t.insert name value).map change = (t.map change).insert name (change value) := by
  obtain ⟨entries⟩ := t
  simp only [map, insert, mk.injEq]
  induction entries with
  | nil => rfl
  | cons entry rest ih =>
    simp only [insertEntry, List.map_cons]
    split
    · rfl
    · rw [List.map_cons, ih]

end Table

/-! ## What is left without places -/

def Function.unplaced : Function → Function
  | .core name native => .core name native
  | .user f => .user { f with params := f.params.map Param.unplaced, body := f.body.unplaced }

def Scope.unplaced (scope : Scope) : Scope :=
  { scope with functions := scope.functions.map Function.unplaced }

def Scopes.unplaced (s : Scopes) : Scopes := ⟨s.all.map Scope.unplaced⟩

def Report.unplaced : Report → Report
  | .message text => .message text
  | .warning _ function text => .warning 0 function text

def RuntimeError.unplaced (e : RuntimeError) : RuntimeError :=
  { e with origin := e.origin.map fun o => { o with span := .nowhere } }

def Stop.unplaced : Stop → Stop
  | .error e => .error e.unplaced
  | .tooDeep => .tooDeep

def Machine.unplaced (m : Machine) : Machine :=
  { m with
    scopes := m.scopes.unplaced
    span := .nowhere
    reports := m.reports.map Report.unplaced }

/-- How a run ends, without places: what comes of it, and the machine it leaves. -/
def Eval.unplacedOutcome {α : Type} (o : Except Stop α × Machine) : Except Stop α × Machine :=
  (o.1.mapError Stop.unplaced, o.2.unplaced)

/-! ## Forgetting places goes with every change of a store -/

namespace Scopes

theorem get_unplaced (s : Scopes) (id : ScopeId) : s.unplaced.get id = (s.get id).unplaced := by
  simp only [get, unplaced, Array.getD_eq_getD_getElem?, Array.getElem?_map]
  cases s.all[id]? <;> rfl

theorem size_unplaced (s : Scopes) : s.unplaced.all.size = s.all.size := by
  simp [unplaced]

theorem unplaced_modify (s : Scopes) (id : ScopeId) {change change' : Scope → Scope}
    (h : ∀ scope, (change scope).unplaced = change' scope.unplaced) :
    (s.modify id change).unplaced = s.unplaced.modify id change' := by
  simp only [unplaced, modify, mk.injEq]
  apply Array.ext
  · simp
  · intro i hi hi'
    simp only [Array.getElem_map, Array.getElem_modify]
    split
    · exact h _
    · rfl

theorem unplaced_changeVars (s : Scopes) (id : ScopeId) (change : Variables → Variables) :
    (s.modify id fun scope => { scope with vars := change scope.vars }).unplaced
      = s.unplaced.modify id fun scope => { scope with vars := change scope.vars } :=
  s.unplaced_modify id fun _ => rfl

theorem unplaced_define (s : Scopes) (env : Env) (name : String) (f : Function) :
    (s.define env name f).unplaced = s.unplaced.define env name f.unplaced := by
  refine s.unplaced_modify env.here fun scope => ?_
  simp only [Scope.unplaced, Table.map_insert]

theorem unplaced_addChild (s : Scopes) (env : Env) :
    (s.addChild env).2.unplaced = (s.unplaced.addChild env).2 := by
  simp only [addChild, unplaced, Array.map_push]
  rfl

theorem value?_unplaced (s : Scopes) (env : Env) (name : String) :
    s.unplaced.value? env name = s.value? env name := by
  rw [value?, value?, var?, var?, get_unplaced]
  rfl

theorem function?_unplaced (s : Scopes) (env : Env) (name : String) :
    s.unplaced.function? env name = (s.function? env name).map Function.unplaced := by
  rw [function?, function?]
  induction env.chain with
  | nil => rfl
  | cons id rest ih =>
    rw [List.findSome?_cons, List.findSome?_cons, get_unplaced, Scope.unplaced, Table.find?_map]
    cases (s.get id).functions.find? name with
    | none => exact ih
    | some f => rfl

end Scopes

/-! ## Equal without places is alike

The relations of a coupling that does not ask for places say no more than that things are the same
without them, and that no native function asks for the line. -/

def Node.SamePlaceless (n n' : Node) : Prop := n.unplaced = n'.unplaced

theorem Function.alike_iff {f g : Function} :
    f.Alike False True Node.SamePlaceless g ↔ f.unplaced = g.unplaced ∧ f.Within False True := by
  constructor
  · intro h
    cases h with
    | core hnative => exact ⟨rfl, hnative⟩
    | @user f g hname hparams hhome hbody =>
      refine ⟨?_, trivial⟩
      have hbody : f.body.unplaced = g.body.unplaced := hbody
      simp only [unplaced, user.injEq, UserFunction.mk.injEq]
      exact ⟨hname, hparams.1, hbody, hhome⟩
  · rintro ⟨h, hwithin⟩
    cases f with
    | core name native =>
      cases g with
      | core name' native' =>
        simp only [unplaced, core.injEq] at h
        obtain ⟨rfl, rfl⟩ := h
        exact .core hwithin
      | user g => cases h
    | user f =>
      cases g with
      | core name' native' => cases h
      | user g =>
        simp only [unplaced, user.injEq, UserFunction.mk.injEq] at h
        obtain ⟨hname, hparams, hbody, hhome⟩ := h
        exact .user hname ⟨hparams, False.elim⟩ hhome hbody

theorem Report.alike_iff {r r' : Report} : r.Alike False r' ↔ r.unplaced = r'.unplaced := by
  cases r <;> cases r' <;> simp [Report.Alike, Report.unplaced]

theorem Report.forall₂_alike_iff {reports reports' : Array Report} :
    List.Forall₂ (Report.Alike False) reports.toList reports'.toList ↔
      reports.map Report.unplaced = reports'.map Report.unplaced := by
  have hrel : (fun r r' => Report.Alike False r r') = fun r r' => r.unplaced = r'.unplaced := by
    funext r r'
    exact propext Report.alike_iff
  rw [← Array.toList_inj, Array.toList_map, Array.toList_map, ← List.forall₂_eq_eq_eq,
    List.forall₂_map_left_iff, List.forall₂_map_right_iff, ← hrel]

theorem RuntimeError.unplaced_eq {e e' : RuntimeError} (h : e.Alike False e') :
    e.unplaced = e'.unplaced := by
  obtain ⟨fault, origin⟩ := e
  obtain ⟨fault', origin'⟩ := e'
  obtain ⟨hfault, horigin⟩ := h
  cases hfault
  cases horigin with
  | none => rfl
  | @some o o' ho =>
    obtain ⟨span, function⟩ := o
    obtain ⟨span', function'⟩ := o'
    cases ho.2
    rfl

/-! ## Two runs at different places -/

theorem Function.Within.of_unplaced {line script : Prop} {f g : Function}
    (h : f.Within line script) (hfg : f.unplaced = g.unplaced) : g.Within line script := by
  cases g with
  | user g => exact trivial
  | core name native =>
    cases f with
    | user f => cases hfg
    | core name' native' =>
      simp only [unplaced, core.injEq] at hfg
      rw [← hfg.2]
      exact h

theorem Machine.Within.of_unplaced {line script : Prop} {m m' : Machine}
    (h : m.Within line script) (hmm' : m.unplaced = m'.unplaced) : m'.Within line script := by
  have hscopes : m.scopes.unplaced = m'.scopes.unplaced :=
    show m.unplaced.scopes = m'.unplaced.scopes by rw [hmm']
  have hplugins : m.plugins = m'.plugins :=
    show m.unplaced.plugins = m'.unplaced.plugins by rw [hmm']
  refine ⟨fun id name g hg => ?_, hplugins ▸ h.plugins⟩
  have hfound : (m'.scopes.unplaced.get id).functions.find? name = some g.unplaced := by
    rw [Scopes.get_unplaced, Scope.unplaced, Table.find?_map, hg]
    rfl
  rw [← hscopes, Scopes.get_unplaced, Scope.unplaced, Table.find?_map,
    Option.map_eq_some_iff] at hfound
  obtain ⟨f, hf, hfg⟩ := hfound
  exact (h.scopes id name f hf).of_unplaced hfg

namespace Coupling

/-- Runs that differ in places only.  No native function asks for the line. -/
def places : Coupling where
  exact := False
  scripts := True
  node := Node.SamePlaceless
  own _ := True
  scopes s t := s.unplaced = t.unplaced ∧ s.Within False True
  node_refl _ := rfl
  own_global _ := trivial
  contains {s t id} h := by
    rw [Scopes.contains, Scopes.contains, ← Scopes.size_unplaced s, ← Scopes.size_unplaced t, h.1]
  function? {s t} h env name := by
    have hfound := s.function?_unplaced env name
    rw [h.1, t.function?_unplaced] at hfound
    cases hf : s.function? env name with
    | none =>
      rw [hf, Option.map_none, Option.map_eq_none_iff] at hfound
      rw [hfound]
      exact .none
    | some f =>
      rw [hf, Option.map_some, Option.map_eq_some_iff] at hfound
      obtain ⟨g, hg, hfg⟩ := hfound
      rw [hg]
      exact .some (Function.alike_iff.mpr ⟨hfg.symm, h.2.function? hf⟩)
  vars {s t env} _ h := by
    have hs := congrArg Scope.vars (s.get_unplaced env.here)
    have ht := congrArg Scope.vars (t.get_unplaced env.here)
    rw [h.1, ht] at hs
    exact hs.symm
  changeVars {s t env} change _ h := by
    refine ⟨?_, h.2.changeVars env.here change⟩
    rw [Scopes.unplaced_changeVars, Scopes.unplaced_changeVars, h.1]
  define {s t env f g} name _ hfg h := by
    obtain ⟨hunplaced, hwithin⟩ := Function.alike_iff.mp hfg
    refine ⟨?_, h.2.define env name hwithin⟩
    rw [Scopes.unplaced_define, Scopes.unplaced_define, h.1, hunplaced]
  addChild {s t} env h := by
    refine ⟨?_, trivial, ?_, h.2.addChild env⟩
    · simp only [Scopes.addChild, ← Scopes.size_unplaced s, ← Scopes.size_unplaced t, h.1]
    · rw [Scopes.unplaced_addChild, Scopes.unplaced_addChild, h.1]

theorem places_placeless : places.Placeless := ⟨id, fun h h' => Eq.trans h h'⟩

theorem places_machines_iff {m m' : Machine} :
    places.Machines m m' ↔ m.unplaced = m'.unplaced ∧ m.Within False True := by
  obtain ⟨scopes, span, function, importing, plugins, reports⟩ := m
  obtain ⟨scopes', span', function', importing', plugins', reports'⟩ := m'
  simp only [Machine.unplaced, Machine.mk.injEq]
  constructor
  · intro h
    refine ⟨⟨h.scopes.1, trivial, h.function, h.importing, h.plugins, ?_⟩, h.scopes.2, h.natives⟩
    exact Report.forall₂_alike_iff.mp h.reports
  · rintro ⟨⟨hscopes, -, hfunction, himporting, hplugins, hreports⟩, hwithin⟩
    exact ⟨⟨hscopes, hwithin.scopes⟩, False.elim, hfunction, himporting, hplugins, hwithin.plugins,
      Report.forall₂_alike_iff.mpr hreports⟩

theorem unplacedOutcome_of_follows {α : Type} {o o' : Except Stop α × Machine}
    (h : places.Follows Eq o o') (hended : o.1 ≠ .error .tooDeep) :
    Eval.unplacedOutcome o = Eval.unplacedOutcome o' := by
  cases h with
  | gaveUp => exact absurd rfl hended
  | value hab hmn =>
    rw [hab, Eval.unplacedOutcome, Eval.unplacedOutcome, (places_machines_iff.mp hmn).1]
  | error he hmn =>
    rw [Eval.unplacedOutcome, Eval.unplacedOutcome, (places_machines_iff.mp hmn).1]
    exact congrArg (fun e => (Except.error (Stop.error e), _)) (RuntimeError.unplaced_eq he)

theorem parts_places {host : Host} (hhost : host.Within False True) (d : Nat) :
    places.Parts (Evaluator.ofDepth host d) (Evaluator.ofDepth host d) := by
  induction d with
  | zero => exact ⟨fun _ _ => .gaveUp _, fun _ _ => .gaveUp _⟩
  | succ d ih =>
    refine ⟨?_, fun hfg args => ih.call hfg args⟩
    intro env n n' henv hn
    -- a node is like itself, and `places` does not tell it from one at other places
    have hlike : places.Like n n' := places_placeless.like (.refl n (.inl trivial)) hn
    exact ih.node_of_like (fun _ => hhost) henv hlike

theorem Parts.runAll_places {P Q : Evaluator} (h : places.Parts P Q)
    {statements statements' : List Node}
    (hstatements : List.Forall₂ Node.SamePlaceless statements statements') :
    places.Agrees (Evaluator.runAll P statements) (Evaluator.runAll Q statements') := by
  induction hstatements with
  | nil => exact Simulates.pure rfl
  | @cons statement statement' rest rest' hstatement _ ih =>
    refine Simulates.bind (Simulates.moveTo False.elim) fun _ _ _ => ?_
    -- whether chains can be replaced, and by what, does not depend on places
    have hunchain : SameFault Node.SamePlaceless statement.unchain statement'.unchain := by
      refine Node.sameFault_of_map_unplaced ?_
      rw [← Node.unchain_unplaced, ← Node.unchain_unplaced, hstatement]
    generalize statement.unchain = u at hunchain ⊢
    generalize statement'.unchain = u' at hunchain ⊢
    cases hunchain with
    | error f => exact Simulates.throw ⟨rfl, .some ⟨False.elim, rfl⟩⟩
    | ok hu =>
      have hrun := h.evaluate (places.own_global trivial) hu
      refine Simulates.bind hrun.locating fun flow flow' hflow => ?_
      subst hflow
      cases flow with
      | proceed v => exact ih
      | leave v => exact Simulates.pure rfl

end Coupling

namespace Evaluator

/-- The script, run from a machine, comes to an end, and this is how, places aside. -/
def EndsAs (host : Host) (statements : List Node) (m : Machine) (o : Except Stop Unit × Machine) :
    Prop :=
  ∃ o', Ends host (fun ev => ev.runAll statements) m o' ∧ Eval.unplacedOutcome o' = o

theorem EndsAs.of_places {host : Host} (hhost : host.Within False True) {p p' : Program}
    {m m' : Machine} (hp : p.unplaced = p'.unplaced) (hwithin : m.Within False True)
    (hm : m.unplaced = m'.unplaced) {o : Except Stop Unit × Machine}
    (h : EndsAs host p.statements m o) : EndsAs host p'.statements m' o := by
  obtain ⟨_, ⟨depth, rfl, hended⟩, rfl⟩ := h
  have hstatements : List.Forall₂ Node.SamePlaceless p.statements p'.statements :=
    Node.forall₂_of_unplacedAll (congrArg Program.statements hp)
  have hmachines := Coupling.places_machines_iff.mpr ⟨hm, hwithin⟩
  have hfollows := (Coupling.parts_places hhost depth).runAll_places hstatements hmachines
  have hends : Ends host (fun ev => ev.runAll p'.statements) m' _ := .of_follows hended hfollows
  exact ⟨_, hends, (Coupling.unplacedOutcome_of_follows hfollows hended).symm⟩

/-- Places are inert.  Tokens of the same kinds spell the same script up to places, or none for the
same reason.  And where no native function lets what it does depend on the current line, scripts
that differ in places only, run from machines that do, come to the same ends up to places: with the
same result or error, having said the same and leaving the same plugins, variables and functions,
and the one comes to an end if and only if the other does. -/
theorem places_inert :
    (∀ tokens tokens' : List Token, tokens.map Token.kind = tokens'.map Token.kind →
      ((Program.ofTokens tokens).map Program.unplaced).mapError ParseError.fault
        = ((Program.ofTokens tokens').map Program.unplaced).mapError ParseError.fault) ∧
    (∀ (host : Host) (p p' : Program) (m m' : Machine), host.Within False True →
      m.Within False True → p.unplaced = p'.unplaced → m.unplaced = m'.unplaced →
      ∀ o, EndsAs host p.statements m o ↔ EndsAs host p'.statements m' o) := by
  refine ⟨fun tokens tokens' => Program.ofTokens_unplaced, ?_⟩
  intro host p p' m m' hhost hwithin hp hm o
  constructor
  · exact EndsAs.of_places hhost hp hwithin hm
  · exact EndsAs.of_places hhost hp.symm (hwithin.of_unplaced hm) hm.symm

theorem lawful_runAll (statements : List Node) : Lawful fun ev => ev.runAll statements :=
  fun h => h.runAll trivial statements

section Example

/-- Asks for the current line and the running function. -/
def whereNative : Native := fun _ =>
  .place fun line function => .value (.string (toString line ++ ":" ++ function.getD "-"))

def bareHost : Host := { pluginDir := "plugins", scriptExtension := "clip" }

theorem within_bareHost : bareHost.Within False True := by
  intro name path plugin hload
  cases hload

/-- The script that assigns a call of `name` with the argument `"a"` to `x`, on a line. -/
def callScript (name : String) (line : Nat) : Program :=
  ⟨[.assign ⟨0, 11, line, 1⟩ (.identifier ⟨0, 1, line, 1⟩ "x") .assign
    (.call ⟨4, 11, line, 5⟩ (.named name) [⟨none, .leaf ⟨8, 11, line, 9⟩ (.string "a")⟩])],
    ⟨0, 11, line, 1⟩⟩

theorem callScript_unplaced (name : String) (line line' : Nat) :
    (callScript name line).unplaced = (callScript name line').unplaced := rfl

/-- With the built-in functions only, `x = typeof("a");` comes to an end, and to the same one on
every line. -/
theorem places_inert_typeof :
    let m : Machine := { scopes := .initial }
    (∃ o, EndsAs bareHost (callScript "typeof" 1).statements m o) ∧
    ∀ o, EndsAs bareHost (callScript "typeof" 1).statements m o
      ↔ EndsAs bareHost (callScript "typeof" 2).statements { m with span := ⟨3, 4, 7, 2⟩ } o := by
  intro m
  refine ⟨⟨_, _, ⟨3, rfl, ?_⟩, rfl⟩, ?_⟩
  · have hok : ((runAll (ofDepth bareHost 3) (callScript "typeof" 1).statements).outcome m).1
        = .ok () := by decide +kernel
    rw [hok]
    intro herror
    cases herror
  · exact places_inert.2 bareHost _ _ m _ within_bareHost Machine.within_initial
      (callScript_unplaced "typeof" 1 2) rfl

/-- A native function that asks for the line can tell scripts apart that differ in places only. -/
theorem places_seen_by_native :
    let m : Machine := { scopes := Scopes.initial.defineCore "where" whereNative }
    (callScript "where" 1).unplaced = (callScript "where" 2).unplaced ∧
      ¬ ∀ o, EndsAs bareHost (callScript "where" 1).statements m o
        ↔ EndsAs bareHost (callScript "where" 2).statements m o := by
  intro m
  refine ⟨callScript_unplaced "where" 1 2, fun hsame => ?_⟩
  let ended (line : Nat) : Except Stop Unit × Machine :=
    (runAll (ofDepth bareHost 3) (callScript "where" line).statements).outcome m
  have hok : ∀ line, (ended line).1 = .ok () := fun line => rfl
  have hx : ∀ line, (Eval.unplacedOutcome (ended line)).2.scopes.value? .global "x"
      = some (.string (toString line ++ ":" ++ "where")) := by
    intro line
    show (ended line).2.scopes.unplaced.value? .global "x" = _
    rw [Scopes.value?_unplaced]
    rfl
  have hends : ∀ line, Ends bareHost (fun ev => ev.runAll (callScript "where" line).statements) m
      (ended line) := by
    intro line
    refine ⟨3, rfl, ?_⟩
    rw [hok]
    intro herror
    cases herror
  obtain ⟨o, ho, heq⟩ := (hsame (Eval.unplacedOutcome (ended 1))).mp ⟨_, hends 1, rfl⟩
  rw [ho.unique (lawful_runAll _) (hends 2)] at heq
  have hvalues := hx 2
  rw [heq, hx 1] at hvalues
  exact absurd (Value.string.inj (Option.some.inj hvalues)) (by decide)

end Example
end Evaluator
end ClipScript
