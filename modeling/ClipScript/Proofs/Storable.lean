/-
Variables hold values that can be stored.

The global scope has local variables only, all of them storable; a scope in which an evaluation goes
on may also have void optional parameters; and no evaluation gives a bare name as its value.  All
this is the discipline `storing`, so it holds at the end of every run.

That it also holds all the way through is said with an evaluator that looks: `Evaluator.watched`
checks it before and after every evaluation of a node, in all scopes where one goes on, and raises
an alarm if it finds anything else.  Whatever the alarm does, a watched run is like any other
(`Interpreter.variables_storable`).
-/
import ClipScript.Proofs.Binding
import ClipScript.Proofs.Bookkeeping
import ClipScript.Proofs.Parser.Derivation

namespace ClipScript

/-! ## Values and functions -/

def Value.Computed (v : Value) : Prop := v.kind ≠ .identifier

instance : DecidablePred Value.Computed := fun _ => inferInstanceAs (Decidable (_ ≠ _))

/-- A function as scripts define them: mandatory parameters first, all of kinds that can be
stored. -/
structure UserFunction.Typed (f : UserFunction) : Prop where
  order : f.checkOrder = .ok ()
  params : ∀ p ∈ f.params, p.kind.isStorable
  body : f.body.Declares (·.kind.isStorable)

theorem Program.declares_of_ofSource {source : String} {program : Program}
    (h : Program.ofSource source = .ok program) :
    ∀ n ∈ program.statements, n.Declares (·.kind.isStorable) := by
  unfold Program.ofSource at h
  split at h
  · cases h
  · split at h
    · cases h
    · next found hfound =>
      cases h
      obtain ⟨_, _, _, _, htext⟩ := Program.exists_text hfound
      exact htext.declares

theorem Action.Yields.andThen {good : Value → Prop} {α : Type} {check : Except Fault α}
    {next : α → Action} (h : ∀ a, (next a).Yields good) :
    (Action.andThen check next).Yields good := by
  cases check with
  | error f => exact .fault f
  | ok a => exact h a

theorem Builtins.yields : ∀ entry ∈ Builtins.all, Native.Yields Value.Computed entry.2 := by
  have hprint : Native.Yields Value.Computed print := by
    intro args
    refine .andThen fun _ => .andThen fun v => ?_
    split
    · exact .message (.value nofun)
    · exact .fault _
  have htypeof : Native.Yields Value.Computed typeof :=
    fun args => .andThen fun _ => .andThen fun v => .value nofun
  have hstr : Native.Yields Value.Computed str := by
    intro args
    refine .andThen fun _ => .andThen fun v => ?_
    split
    · exact .value nofun
    · exact .value nofun
    · exact .value nofun
    · exact .fault _
  have hassert : Native.Yields Value.Computed assert := by
    intro args
    refine .andThen fun _ => .andThen fun message => .andThen fun holds => ?_
    split
    · exact .value nofun
    · exact .fault _
  simp only [all, List.forall_mem_cons]
  exact ⟨hprint, htypeof, hstr, hassert, List.forall_mem_nil _⟩

/-! ## Scopes -/

namespace Scopes

/-- The variables of the global scope are plain, and those of the scopes `active` are sound. -/
def Storing (s : Scopes) (active : List Env) : Prop :=
  (s.get 0).vars.All Variable.Plain ∧ ∀ env ∈ active, (s.get env.here).vars.All Variable.Sound

instance (s : Scopes) (active : List Env) : Decidable (s.Storing active) :=
  inferInstanceAs (Decidable (_ ∧ _))

/-- What holds of a store between runs. -/
structure Stored (s : Scopes) : Prop where
  global : s.contains 0
  plain : (s.get 0).vars.All Variable.Plain
  functions : s.All (Function.Fits Value.Computed UserFunction.Typed)

/-- A scope is in use and its variables are sound. -/
structure Holds (s : Scopes) (env : Env) : Prop where
  used : s.contains env.here
  sound : (s.get env.here).vars.All Variable.Sound

variable {s : Scopes}

theorem vars_get_modify (s : Scopes) (here id : ScopeId) (change : Variables → Variables) :
    ((s.modify here fun scope => { scope with vars := change scope.vars }).get id).vars
      = if id = here ∧ s.contains here then change (s.get here).vars else (s.get id).vars := by
  rw [get_modify]
  split <;> rfl

theorem vars_get_define (s : Scopes) (env : Env) (name : String) (f : Function) (id : ScopeId) :
    ((s.define env name f).get id).vars = (s.get id).vars := by
  rw [define, get_modify]
  split
  · next h => rw [h.1]
  · rfl

theorem Stored.assign (h : s.Stored) (env : Env) (name : String) {v : Value} (hv : v.isStorable) :
    (s.assign env name v).Stored := by
  refine ⟨by rw [Scopes.assign, contains_modify]; exact h.global, ?_,
    h.functions.changeVars env.here fun vars => vars.assign name v⟩
  rw [Scopes.assign, vars_get_modify s env.here 0 fun vars => vars.assign name v]
  split
  · next hhere =>
    rw [← hhere.1]
    exact Variables.all_plain_assign h.plain name hv
  · exact h.plain

theorem Holds.assign {other : Env} (h : s.Holds other) (env : Env) (name : String) {v : Value}
    (hv : v.isStorable) : (s.assign env name v).Holds other := by
  refine ⟨by rw [Scopes.assign, contains_modify]; exact h.used, ?_⟩
  rw [Scopes.assign, vars_get_modify s env.here other.here fun vars => vars.assign name v]
  split
  · next hhere =>
    rw [← hhere.1]
    exact Variables.all_sound_assign h.sound name hv
  · exact h.sound

theorem Stored.define (h : s.Stored) (env : Env) (name : String) {f : Function}
    (hf : f.Fits Value.Computed UserFunction.Typed) : (s.define env name f).Stored := by
  refine ⟨by rw [Scopes.define, contains_modify]; exact h.global, ?_,
    h.functions.define env name hf⟩
  rw [vars_get_define]
  exact h.plain

theorem Holds.define {other : Env} (h : s.Holds other) (env : Env) (name : String) (f : Function) :
    (s.define env name f).Holds other := by
  refine ⟨by rw [Scopes.define, contains_modify]; exact h.used, ?_⟩
  rw [vars_get_define]
  exact h.sound

theorem get_entered (s : Scopes) (f : UserFunction) (args : ArgList) {id : ScopeId}
    (h : s.contains id) : (s.entered f args).2.get id = s.get id := by
  have hlt : id < s.all.size := by simpa [contains] using h
  have hne : id ≠ s.all.size := Nat.ne_of_lt hlt
  show ((s.addChild f.home).2.modify s.all.size _).get id = _
  rw [get_modify_of_ne _ _ hne, get_addChild]

theorem contains_entered (s : Scopes) (f : UserFunction) (args : ArgList) {id : ScopeId}
    (h : s.contains id) : (s.entered f args).2.contains id := by
  show ((s.addChild f.home).2.modify s.all.size _).contains id = true
  have hlt : id < s.all.size := by simpa [contains] using h
  rw [contains_modify, contains, size_addChild]
  exact decide_eq_true (Nat.lt_succ_of_lt hlt)

theorem Stored.entered (h : s.Stored) (f : UserFunction) (args : ArgList) :
    (s.entered f args).2.Stored := by
  refine ⟨contains_entered s f args h.global, ?_,
    (h.functions.addChild f.home).changeVars s.all.size fun _ => _⟩
  rw [get_entered s f args h.global]
  exact h.plain

theorem Holds.entered {other : Env} (h : s.Holds other) (f : UserFunction) (args : ArgList) :
    (s.entered f args).2.Holds other := by
  refine ⟨contains_entered s f args h.used, ?_⟩
  rw [get_entered s f args h.used]
  exact h.sound

theorem entered_eq (s : Scopes) (f : UserFunction) (args : ArgList) :
    (s.entered f args).1 = ((f.bind args).run.run {}).1 ∧
    ((s.entered f args).2.get s.all.size).vars = ((f.bind args).run.run {}).2 := by
  have hempty : ((s.addChild f.home).2.get s.all.size).vars = {} := by
    rw [get_addChild, Scopes.get, Array.getD_eq_getD_getElem?,
      Array.getElem?_eq_none (Nat.le_refl _)]
    rfl
  have hused : (s.addChild f.home).2.contains s.all.size = true := by
    simp [contains]
  constructor
  · show ((f.bind args).run.run ((s.addChild f.home).2.get s.all.size).vars).1 = _
    rw [hempty]
  · show (((s.addChild f.home).2.modify s.all.size fun scope =>
        { scope with vars := ((f.bind args).run.run
          ((s.addChild f.home).2.get s.all.size).vars).2 }).get s.all.size).vars = _
    rw [get_modify_self _ _ hused, hempty]

theorem contains_entered_self (s : Scopes) (f : UserFunction) (args : ArgList) :
    (s.entered f args).2.contains s.all.size := by
  show ((s.addChild f.home).2.modify s.all.size _).contains s.all.size = true
  rw [contains_modify]
  simp [contains]

theorem holds_of_entered {f : UserFunction} {args : ArgList} (hf : f.Typed)
    (h : (s.entered f args).1 = .ok ()) : (s.entered f args).2.Holds (s.addChild f.home).1 := by
  obtain ⟨hresult, hvars⟩ := s.entered_eq f args
  refine ⟨s.contains_entered_self f args, ?_⟩
  show ((s.entered f args).2.get s.all.size).vars.All _
  rw [hvars]
  have hbind : (f.bind args).run.run {} = (.ok (), ((f.bind args).run.run {}).2) :=
    Prod.ext (hresult.symm.trans h) rfl
  exact UserFunction.sound_of_bind hf.order hf.params hbind

end Scopes

/-! ## The discipline -/

/-- Variables hold values that can be stored. -/
def storing : Discipline where
  value := Value.Computed
  param p := p.kind.isStorable
  user := UserFunction.Typed
  store := Scopes.Stored
  own env s := s.Holds env
  value_of_kind h := h
  user_of_order horder hparams hbody := ⟨horder, hparams, hbody⟩
  body_of_user h := h.body
  own_global h := ⟨h.global, h.plain.imp fun _ hv => hv.sound⟩
  function? h hf := h.functions.function? hf
  value? {s env name v} _ h hv := by
    obtain ⟨found, hfound, rfl⟩ := Option.map_eq_some_iff.mp hv
    exact (h.sound name found hfound).kind_ne
  assign {s env v} name h _ hv := ⟨h.assign env name hv, fun _ hother => hother.assign env name hv⟩
  define env name h hf := ⟨h.define env name hf, fun _ hother => hother.define env name _⟩
  entered {s f} args h _ := ⟨h.entered f args, fun _ hother => hother.entered f args⟩
  own_entered _ hf h := Scopes.holds_of_entered hf h
  script h := Program.declares_of_ofSource h

theorem storing_of_ready {active : List Env} {m : Machine} (h : storing.Ready active m) :
    m.scopes.Storing active :=
  ⟨h.store.plain, fun env henv => (h.own env henv).sound⟩

/-! ## Looking all the way through -/

namespace Eval

def checking (alarm : Eval Unit) (active : List Env) : Eval Unit := do
  if (← get).scopes.Storing active then return else alarm

def checkingValue (alarm : Eval Unit) : Except Stop Flow → Eval Unit
  | .ok flow => if flow.value.Computed then return else alarm
  | .error _ => return

/-- Looks at the variables before and after a step, however it ends, and at its value. -/
def watching (alarm : Eval Unit) (active : List Env) (step : Eval Flow) : Eval Flow := do
  checking alarm active
  let result ← attempt step
  checking alarm active
  checkingValue alarm result
  resume result

theorem outcome_checking (alarm : Eval Unit) {active : List Env} {m : Machine}
    (h : m.scopes.Storing active) : (checking alarm active).outcome m = (.ok (), m) := by
  show (if m.scopes.Storing active then pure () else alarm : Eval Unit).outcome m = _
  rw [if_pos h]
  rfl

theorem outcome_watching (alarm : Eval Unit) {active : List Env} {m : Machine} {y : Eval Flow}
    (hbefore : m.scopes.Storing active) (hafter : (y.outcome m).2.scopes.Storing active)
    (hvalue : ∀ flow, (y.outcome m).1 = .ok flow → flow.value.Computed) :
    (watching alarm active y).outcome m = y.outcome m := by
  rw [watching, outcome_bind, outcome_checking alarm hbefore]
  dsimp only
  rw [outcome_bind, outcome_attempt]
  dsimp only
  rw [outcome_bind, outcome_checking alarm hafter]
  dsimp only
  rw [outcome_bind]
  generalize y.outcome m = o at hafter hvalue ⊢
  obtain ⟨r, n⟩ := o
  cases r with
  | error stop => rfl
  | ok flow =>
    rw [checkingValue, if_pos (hvalue flow rfl)]
    rfl

end Eval

namespace Evaluator

/-- An evaluator that looks at every evaluation of a node, for nodes and calls nested at most `n`
deep, while evaluations go on in the scopes `active`. -/
def watched (alarm : Eval Unit) (host : Host) : Nat → List Env → Evaluator
  | 0, _ => .inert
  | n + 1, active =>
    { evaluate := fun env tree =>
        Eval.watching alarm (env :: active)
          (node host (watched alarm host n (env :: active)) env tree)
      invoke := fun f args => (watched alarm host n active).call f args }

end Evaluator

theorem agrees_watching {active : List Env} {who : Option String} {x y : Eval Flow}
    (h : storing.Agrees active who (fun flow => storing.value flow.value) x y)
    (alarm : Eval Unit) :
    storing.Agrees active who (fun flow => storing.value flow.value) x
      (Eval.watching alarm active y) := by
  intro m hready hwho
  have hmeets := h m hready hwho
  have hafter : (y.outcome m).2.scopes.Storing active := by
    rw [hmeets.machine]
    exact storing_of_ready hmeets.ready
  have hvalue : ∀ flow, (y.outcome m).1 = .ok flow → flow.value.Computed := by
    intro flow hflow
    have hresult := hmeets.result
    rw [hflow] at hresult
    generalize (x.outcome m).1 = r at hresult
    cases hresult with
    | value hgood => exact hgood
  rw [Eval.outcome_watching alarm (storing_of_ready hready) hafter hvalue]
  exact hmeets

theorem parts_watched {host : Host} (hhost : host.All (Native.Yields Value.Computed))
    (alarm : Eval Unit) (depth : Nat) (active : List Env) (who : Option String) :
    storing.Parts active who (.ofDepth host depth) (.watched alarm host depth active) := by
  induction depth generalizing active who with
  | zero => exact .inert
  | succ depth ih =>
    refine ⟨fun env n hn => ?_, fun hf args => (ih active _).call hf args⟩
    exact agrees_watching ((ih (env :: active) _).node hhost List.mem_cons_self hn) alarm

/-! ## Runs -/

namespace Interpreter

/-- An interpreter before its first run, with native functions of its own. -/
def fresh (host : Host) (depth : Nat) (natives : List (String × Native)) : Interpreter :=
  natives.foldl (fun i entry => i.registerCore entry.1 entry.2) { host, depth }

/-- An interpreter between two runs. -/
structure Stores (host : Host) (depth : Nat) (i : Interpreter) : Prop where
  host : i.host = host
  depth : i.depth = depth
  ready : storing.Ready [] i.machine

theorem stores_fresh (host : Host) (depth : Nat) {natives : List (String × Native)}
    (h : ∀ entry ∈ natives, Native.Yields Value.Computed entry.2) :
    (fresh host depth natives).Stores host depth := by
  have hstart : Scopes.start.Stored := by
    refine ⟨rfl, ?_, .start⟩
    intro name v hv
    cases hv
  have hinitial : Scopes.initial.Stored :=
    List.foldlRecOn Builtins.all _ hstart fun s hs entry hentry =>
      hs.define .global entry.1 (f := .core entry.1 entry.2) (Builtins.yields entry hentry)
  have hbegin : ({ host, depth } : Interpreter).Stores host depth :=
    ⟨rfl, rfl, hinitial, nofun, .empty⟩
  refine List.foldlRecOn natives _ hbegin fun i hi entry hentry => ⟨hi.host, hi.depth, ?_⟩
  refine { hi.ready with store := ?_, own := nofun }
  exact hi.ready.store.define .global entry.1 (f := .core entry.1 entry.2) (h entry hentry)

theorem Stores.runSource {host : Host} {depth : Nat} {i : Interpreter} (h : i.Stores host depth)
    (hhost : host.All (Native.Yields Value.Computed)) (source : String) :
    (i.runSource source).2.Stores host depth := by
  obtain ⟨rfl, rfl, hready⟩ := h
  have hparts : storing.Parts [] i.machine.function (.ofDepth i.host i.depth)
      (.ofDepth i.host i.depth) := Discipline.parts_ofDepth hhost ..
  have hagrees := hparts.runSource source
  exact ⟨rfl, rfl, (hagrees i.machine hready rfl).ready⟩

theorem Stores.runSources {host : Host} {depth : Nat} {i : Interpreter} (h : i.Stores host depth)
    (hhost : host.All (Native.Yields Value.Computed)) (sources : List String) :
    (i.runSources sources).Stores host depth := by
  induction sources generalizing i with
  | nil => exact h
  | cons source rest ih => exact ih (h.runSource hhost source)

theorem Stores.runSource_watched {host : Host} {depth : Nat} {i : Interpreter}
    (h : i.Stores host depth) (hhost : host.All (Native.Yields Value.Computed))
    (alarm : Eval Unit) (source : String) :
    i.perform ((Evaluator.watched alarm host depth []).runSource source) = i.runSource source := by
  obtain ⟨rfl, rfl, hready⟩ := h
  have hagrees := (parts_watched hhost alarm i.depth [] i.machine.function).runSource source
  have houtcome := (hagrees i.machine hready rfl).eq
    (Evaluator.settled_runSource _ source i.machine)
    (Evaluator.settled_runSource _ source i.machine)
  have hsame : ∀ {x y : Eval Unit}, x.outcome i.machine = y.outcome i.machine →
      i.perform y = i.perform x := by
    intro x y hxy
    show ((y.outcome i.machine).1, { i with machine := (y.outcome i.machine).2 })
      = ((x.outcome i.machine).1, { i with machine := (x.outcome i.machine).2 })
    rw [hxy]
  exact hsame houtcome

/-- After any scripts, failed or not, the global variables are local and hold values that can be
stored.  During the next one, too, the variables of every scope in which an evaluation goes on are
in order, before and after each evaluation of a node, and none gives a bare name: nobody who looks
ever raises an alarm. -/
theorem variables_storable {host : Host} {natives : List (String × Native)}
    (hhost : host.All (Native.Yields Value.Computed))
    (hnatives : ∀ entry ∈ natives, Native.Yields Value.Computed entry.2) (depth : Nat)
    (sources : List String) :
    let i := (fresh host depth natives).runSources sources
    i.machine.scopes.Storing [] ∧ ∀ alarm source,
      i.perform ((Evaluator.watched alarm host depth []).runSource source)
        = i.runSource source := by
  have hstores := (stores_fresh host depth hnatives).runSources hhost sources
  exact ⟨storing_of_ready hstores.ready, hstores.runSource_watched hhost⟩

def failingScript : String :=
  "function pick(opt bool b) \x7b default(b, yes()); return b; \x7d x = pick(); y;"

theorem variables_storable_failingScript :
    let host : Host := { pluginDir := "", scriptExtension := "" }
    let i := (fresh host 20 [("yes", fun _ => .value (.boolean true))]).runSources [failingScript]
    i.global? "x" = some (.boolean true) ∧ i.machine.scopes.Storing [] ∧ ∀ alarm source,
      i.perform ((Evaluator.watched alarm host 20 []).runSource source) = i.runSource source := by
  have hread : (((fresh { pluginDir := "", scriptExtension := "" } 20
      [("yes", fun _ => .value (.boolean true))]).runSources [failingScript]).global? "x").bind
      Value.boolean? = some true := by decide +kernel
  obtain ⟨v, hfound, hv⟩ := Option.bind_eq_some_iff.mp hread
  obtain rfl := Value.boolean?_eq_some_iff.mp hv
  refine ⟨hfound, variables_storable ?_ ?_ 20 [failingScript]⟩
  · intro name path plugin h
    cases h
  · intro entry hentry
    obtain rfl := List.mem_singleton.mp hentry
    refine fun _ => .value ?_
    intro hkind
    cases hkind

end Interpreter
end ClipScript
