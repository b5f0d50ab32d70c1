/-
Two runs under one regime.

A `Regime` says which trees, functions and stores of scopes may take each other's place in two runs,
as a coupling does, and beyond that what both runs keep to: which names they bind, which faults come
up, which texts are run.  So it can carry invariants, and a run under a regime may also be compared
with itself.

Scopes are of different zones, and what may be evaluated in a scope is a matter of its zone.  Which
scope is of which zone is known to a world.  Calls add scopes, so worlds grow as a run goes on, and
whatever holds in a world holds in those that come after it.

This module has the relations and the rules for putting steps together.  What one level of the
evaluator does under a regime is in `ClipScript.Proofs.Regime.Evaluation`.
-/
import ClipScript.Proofs.Discipline.Evaluation
import ClipScript.Proofs.Faults
import Mathlib.Order.Basic

namespace ClipScript

variable {α β γ δ : Type}

/-! ## What native functions raise and run -/

/-- Actions that end in certain faults only, and run certain texts only. -/
inductive Action.Keeps (fault : Fault → Prop) (text : String → Prop) : Action → Prop where
  | value (v : Value) : Keeps fault text (.done (.ok v))
  | fault {f : Fault} : fault f → Keeps fault text (.done (.error f))
  | message {shown : String} {next : Action} : Keeps fault text next →
      Keeps fault text (.message shown next)
  | warn {shown : String} {next : Action} : Keeps fault text next →
      Keeps fault text (.warn shown next)
  | place {next : Nat → Option String → Action} :
      (∀ line function, Keeps fault text (next line function)) → Keeps fault text (.place next)
  | call {name : String} {args : ArgList} {missing : Action} {next : Value → Action} :
      Keeps fault text missing → (∀ v, Keeps fault text (next v)) →
      Keeps fault text (.call name args missing next)
  | run {source : String} {next : Action} : text source → Keeps fault text next →
      Keeps fault text (.run source next)

def Native.Keeps (fault : Fault → Prop) (text : String → Prop) (native : Native) : Prop :=
  ∀ args, (native args).Keeps fault text

theorem Action.Keeps.andThen {fault : Fault → Prop} {text : String → Prop} {check : Except Fault α}
    {next : α → Action} (hcheck : ∀ f, check = .error f → fault f)
    (h : ∀ a, (next a).Keeps fault text) : (Action.andThen check next).Keeps fault text := by
  cases check with
  | error f => exact .fault (hcheck f rfl)
  | ok a => exact h a

theorem Builtins.keeps {fault : Fault → Prop} {text : String → Prop}
    (hfault : ∀ {f}, Fault.Orderly f → fault f) :
    ∀ entry ∈ Builtins.all, Native.Keeps fault text entry.2 := by
  have check {α : Type} {r : Except Fault α} {next : α → Action} (hr : Orderly r)
      (hnext : ∀ a, (next a).Keeps fault text) : (Action.andThen r next).Keeps fault text :=
    .andThen (fun f hf => hfault (hr f hf)) hnext
  have hprint : Native.Keeps fault text print := by
    refine fun args => check (args.orderly_checkCount 1) fun _ =>
      check (args.orderly_value 0) fun v => ?_
    split
    · exact .message (.value _)
    · exact .fault (hfault (.of rfl))
  have htypeof : Native.Keeps fault text typeof :=
    fun args => check (args.orderly_checkCount 1) fun _ =>
      check (args.orderly_value 0) fun v => .value _
  have hstr : Native.Keeps fault text str := by
    refine fun args => check (args.orderly_checkCount 1) fun _ =>
      check (args.orderly_value 0) fun v => ?_
    split
    · exact .value _
    · exact .value _
    · exact .value _
    · exact .fault (hfault (.of rfl))
  have hassert : Native.Keeps fault text assert := by
    intro args
    have hkinds : Orderly (args.checkKinds [.boolean]) :=
      (args.orderly_checkCount 1).bind fun _ => ArgList.orderly_checkKindsFrom _ _ _
    have hmessage : Orderly (args.optionString "message") :=
      (args.orderly_option _ _).bind fun _ => .ok _
    refine check hkinds fun _ => check hmessage fun message =>
      check (args.orderly_typed _ _ 0) fun holds => ?_
    split
    · exact .value _
    · exact .fault (hfault (.of rfl))
  simp only [all, List.forall_mem_cons]
  exact ⟨hprint, htypeof, hstr, hassert, List.forall_mem_nil _⟩

/-- Native functions are themselves on both sides, and user functions take each other's place. -/
inductive Function.Akin (native : Native → Prop) (user : UserFunction → UserFunction → Prop) :
    Function → Function → Prop where
  | core {name : String} {f : Native} : native f → Akin native user (.core name f) (.core name f)
  | user {f g : UserFunction} : user f g → Akin native user (.user f) (.user g)

/-! ## Regimes -/

structure Regime where
  /-- What is known of the zones of the scopes. -/
  World : Type
  [order : Preorder World]
  Zone : Type
  /-- The zone of the global scope. -/
  outside : Zone
  /-- Whether the first run may be given up before the second. -/
  slack : Prop
  /-- The faults that may come up, the texts that may be run and the names that may be imported. -/
  fault : Fault → Prop
  text : String → Prop
  imported : String → Prop
  place : Span → Span → Prop
  node : Zone → Node → Node → Prop
  /-- The names that may be bound in a scope. -/
  bound : Zone → String → Prop
  zoned : World → Zone → Env → Prop
  user : World → UserFunction → UserFunction → Prop
  registry : Registry → Prop
  scopes : World → Scopes → Scopes → Prop
  place_refl : ∀ s, place s s
  line : ∀ {s s'}, place s s' → s.line = s'.line
  fault_of_orderly : ∀ {f}, Fault.Orderly f → fault f
  script : ∀ {source program}, text source → Program.ofSource source = .ok program →
    ∀ n ∈ program.statements, SameFault (node outside) n.unchain n.unchain
  unread : ∀ {source e}, text source → Program.ofSource source = .error e → fault e.fault
  zoned_mono : ∀ {W W' z env}, W ≤ W' → zoned W z env → zoned W' z env
  zoned_global : ∀ {W s t}, scopes W s t → zoned W outside .global
  user_mono : ∀ {W W' f g}, W ≤ W' → user W f g → user W' f g
  user_eq : ∀ {W f g}, user W f g → f.name = g.name ∧ f.params = g.params ∧ f.home = g.home
  register : ∀ {r} (name : String) (plugin : Plugin), registry r → registry (r.register name plugin)
  size : ∀ {W s t}, scopes W s t → s.all.size = t.all.size
  function? : ∀ {W s t}, scopes W s t → ∀ env name,
    Option.Rel (Function.Akin (Native.Keeps fault text) (user W)) (s.function? env name)
      (t.function? env name)
  vars : ∀ {W s t}, scopes W s t → ∀ id, (s.get id).vars = (t.get id).vars
  bound_of_var : ∀ {W s t z env name v}, scopes W s t → zoned W z env →
    s.var? env name = some v → bound z name
  assign : ∀ {W s t z env name} (v : Value), scopes W s t → zoned W z env → bound z name →
    scopes W (s.assign env name v) (t.assign env name v)
  define : ∀ {W s t z env name f g}, scopes W s t → zoned W z env → bound z name → user W f g →
    scopes W (s.define env name (.user f)) (t.define env name (.user g))
  enter : ∀ {W s t f g} (args : ArgList), scopes W s t → user W f g →
    ∃ z W', W ≤ W' ∧ zoned W' z (s.addChild f.home).1 ∧ node z f.body g.body ∧
      scopes W' (s.entered f args).2 (t.entered g args).2

namespace Regime

attribute [instance] Regime.order

variable (R : Regime)

/-- Functions that take each other's place in a world. -/
def function (W : R.World) : Function → Function → Prop :=
  Function.Akin (Native.Keeps R.fault R.text) (R.user W)

structure Errors (e e' : RuntimeError) : Prop where
  fault : e.fault = e'.fault
  allowed : R.fault e.fault
  origin : Option.Rel (fun o o' => R.place o.span o'.span ∧ o.function = o'.function)
    e.origin e'.origin

structure Machines (W : R.World) (m n : Machine) : Prop where
  scopes : R.scopes W m.scopes n.scopes
  span : R.place m.span n.span
  function : m.function = n.function
  importing : m.importing = n.importing
  plugins : m.plugins = n.plugins
  natives : m.plugins.All (Native.Keeps R.fault R.text)
  registry : R.registry m.plugins
  reports : m.reports = n.reports

/-- The second outcome follows the first: it is alike, in a world that came after `W`, or the first
run gave up and may have done so early. -/
inductive Follows (related : R.World → α → β → Prop) (W : R.World) :
    Except Stop α × Machine → Except Stop β × Machine → Prop where
  | value {W' : R.World} {a : α} {b : β} {m n : Machine} : W ≤ W' → related W' a b →
      R.Machines W' m n → Follows related W (.ok a, m) (.ok b, n)
  | error {W' : R.World} {e e' : RuntimeError} {m n : Machine} : W ≤ W' → R.Errors e e' →
      R.Machines W' m n → Follows related W (.error (.error e), m) (.error (.error e'), n)
  | tooDeep {W' : R.World} {m n : Machine} : W ≤ W' → R.Machines W' m n →
      Follows related W (.error .tooDeep, m) (.error .tooDeep, n)
  | gaveUp {m : Machine} {o : Except Stop β × Machine} : R.slack →
      Follows related W (.error .tooDeep, m) o

/-- From machines that are alike, in this world or a later one, the second step follows the
first. -/
def Simulates (W : R.World) (related : R.World → α → β → Prop) (x : Eval α) (y : Eval β) : Prop :=
  ∀ ⦃W'⦄, W ≤ W' → ∀ ⦃m n⦄, R.Machines W' m n → R.Follows related W' (x.outcome m) (y.outcome n)

def Agrees (W : R.World) (x y : Eval α) : Prop := R.Simulates W (fun _ => Eq) x y

/-- What a host has to offer: plugins whose functions keep to the regime, and scripts that may be
run. -/
structure Hosts (host : Host) : Prop where
  natives : host.All (Native.Keeps R.fault R.text)
  load : ∀ name path f, host.load name path = .error f → R.fault f
  script : ∀ {name path source}, R.imported name →
    ImportTarget.locate host.files host.pluginDir name host.scriptExtension = .ok (.script path) →
    host.files.readText path = .ok source → R.text source

variable {R}

theorem function_mono {W W' : R.World} (h : W ≤ W') {f g : Function} (hfg : R.function W f g) :
    R.function W' f g := by
  cases hfg with
  | core hnative => exact .core hnative
  | user huser => exact .user (R.user_mono h huser)

namespace Errors

theorem refl {e : RuntimeError} (h : R.fault e.fault) : R.Errors e e := by
  refine ⟨rfl, h, ?_⟩
  cases e.origin with
  | none => exact .none
  | some o => exact .some ⟨R.place_refl _, rfl⟩

theorem located {e e' : RuntimeError} (h : R.Errors e e') {s s' : Span} (hs : R.place s s')
    (function : Option String) : R.Errors (e.located s function) (e'.located s' function) := by
  obtain ⟨fault, origin⟩ := e
  obtain ⟨fault', origin'⟩ := e'
  obtain ⟨hfault, hallowed, horigin⟩ := h
  refine ⟨hfault, hallowed, ?_⟩
  cases horigin with
  | none => exact .some ⟨hs, rfl⟩
  | some ho => exact .some ho

end Errors

variable {W : R.World} {related : R.World → α → β → Prop} {related' : R.World → γ → δ → Prop}

theorem Follows.earlier {W' : R.World} (h : W ≤ W') {o : Except Stop α × Machine}
    {o' : Except Stop β × Machine} (ho : R.Follows related W' o o') : R.Follows related W o o' := by
  cases ho with
  | value hW hab hmn => exact .value (h.trans hW) hab hmn
  | error hW he hmn => exact .error (h.trans hW) he hmn
  | tooDeep hW hmn => exact .tooDeep (h.trans hW) hmn
  | gaveUp hslack => exact .gaveUp hslack

namespace Simulates

theorem bind {x : Eval α} {y : Eval β} {f : α → Eval γ} {g : β → Eval δ}
    (h : R.Simulates W related x y)
    (hfg : ∀ W', W ≤ W' → ∀ a b, related W' a b → R.Simulates W' related' (f a) (g b)) :
    R.Simulates W related' (x >>= f) (y >>= g) := by
  intro W₁ h₁ m n hmn
  rw [Eval.outcome_bind, Eval.outcome_bind]
  have hxy := h h₁ hmn
  generalize x.outcome m = o at hxy ⊢
  generalize y.outcome n = o' at hxy ⊢
  cases hxy with
  | value h₂ hab hmn' => exact (hfg _ (h₁.trans h₂) _ _ hab le_rfl hmn').earlier h₂
  | error h₂ he hmn' => exact .error h₂ he hmn'
  | tooDeep h₂ hmn' => exact .tooDeep h₂ hmn'
  | gaveUp hslack => exact .gaveUp hslack

theorem pure {a : α} {b : β} (h : ∀ W', W ≤ W' → related W' a b) :
    R.Simulates W related (Pure.pure a : Eval α) (Pure.pure b : Eval β) :=
  fun W' hW _ _ hmn => .value le_rfl (h W' hW) hmn

theorem throw {e e' : RuntimeError} (h : R.Errors e e') :
    R.Simulates W related (MonadExcept.throw (Stop.error e)) (MonadExcept.throw (Stop.error e')) :=
  fun _ _ _ _ hmn => .error le_rfl h hmn

theorem tooDeep :
    R.Simulates W related (MonadExcept.throw Stop.tooDeep) (MonadExcept.throw Stop.tooDeep) :=
  fun _ _ _ _ hmn => .tooDeep le_rfl hmn

theorem gaveUp (h : R.slack) (y : Eval β) :
    R.Simulates W related (MonadExcept.throw Stop.tooDeep : Eval α) y :=
  fun _ _ _ _ _ => .gaveUp h

theorem fail {f : Fault} (h : R.fault f) : R.Simulates W related (Eval.fail f) (Eval.fail f) :=
  throw (.refl h)

theorem fail_bind {f : Fault} (h : R.fault f) (k : α → Eval γ) (k' : β → Eval δ) :
    R.Simulates W related' (Eval.fail f >>= k) (Eval.fail f >>= k') :=
  (fail h : R.Simulates W (fun _ _ _ => False) _ _).bind fun _ _ _ _ hfalse => hfalse.elim

theorem ofFault {r : Except Fault α} {r' : Except Fault β} {rel : α → β → Prop}
    (h : SameFault rel r r') (hfault : Orderly r) :
    R.Simulates W (fun _ => rel) (Eval.ofFault r) (Eval.ofFault r') := by
  cases h with
  | ok hab => exact pure fun _ _ => hab
  | error f => exact fail (R.fault_of_orderly (hfault f rfl))

theorem get_bind {f : Machine → Eval γ} {g : Machine → Eval δ}
    (h : ∀ W', W ≤ W' → ∀ m n, R.Machines W' m n → R.Simulates W' related' (f m) (g n)) :
    R.Simulates W related' (do f (← get)) (do g (← get)) :=
  fun W' hW m n hmn => h W' hW m n hmn le_rfl hmn

end Simulates

namespace Agrees

theorem bind {x y : Eval α} {f : α → Eval γ} {g : α → Eval δ} (h : R.Agrees W x y)
    (hfg : ∀ W', W ≤ W' → ∀ a, R.Simulates W' related' (f a) (g a)) :
    R.Simulates W related' (x >>= f) (y >>= g) :=
  Simulates.bind h fun W' hW a _ hab => hab ▸ hfg W' hW a

theorem pure (a : α) : R.Agrees W (Pure.pure a) (Pure.pure a) := Simulates.pure fun _ _ => rfl

theorem ofFault {r : Except Fault α} (h : Orderly r) :
    R.Agrees W (Eval.ofFault r) (Eval.ofFault r) :=
  Simulates.ofFault (SameFault.refl (fun _ => rfl) r) h

theorem modify {f g : Machine → Machine}
    (h : ∀ W', W ≤ W' → ∀ m n, R.Machines W' m n → R.Machines W' (f m) (g n)) :
    R.Agrees W (modify f) (modify g) :=
  fun W' hW m n hmn => .value le_rfl rfl (h W' hW m n hmn)

theorem moveTo {s s' : Span} (h : R.place s s') : R.Agrees W (Eval.moveTo s) (Eval.moveTo s') :=
  modify fun _ _ _ _ hmn => { hmn with span := h }

theorem report (r : Report) : R.Agrees W (Eval.report r) (Eval.report r) :=
  modify fun _ _ _ _ hmn => { hmn with reports := by rw [hmn.reports] }

theorem warn (text : String) : R.Agrees W (Eval.warn text) (Eval.warn text) := by
  refine Simulates.get_bind fun W' _ m n hmn => ?_
  rw [R.line hmn.span, hmn.function]
  exact report _

end Agrees

/-! ## Errors, functions and scripts that end -/

theorem Follows.locating {x : Eval α} {y : Eval β} {m n : Machine}
    (h : R.Follows related W (x.outcome m) (y.outcome n)) :
    R.Follows related W ((Eval.locating x).outcome m) ((Eval.locating y).outcome n) := by
  rw [Eval.outcome_locating, Eval.outcome_locating]
  generalize x.outcome m = o at h ⊢
  generalize y.outcome n = o' at h ⊢
  cases h with
  | value hW hab hmn => exact .value hW hab hmn
  | error hW he hmn =>
    refine .error hW ?_ hmn
    rw [hmn.function]
    exact he.located hmn.span _
  | tooDeep hW hmn => exact .tooDeep hW hmn
  | gaveUp hslack => exact .gaveUp hslack

theorem Follows.activation {x : Eval α} {y : Eval β} {m n : Machine} {name : String}
    (hspan : R.place m.span n.span) (hfunction : m.function = n.function)
    (h : R.Follows related W (x.outcome { m with function := some name })
      (y.outcome { n with function := some name })) :
    R.Follows related W ((Eval.activation name x).outcome m)
      ((Eval.activation name y).outcome n) := by
  rw [Eval.outcome_activation, Eval.outcome_activation]
  have hlocated := h.locating
  generalize (Eval.locating x).outcome _ = o at hlocated ⊢
  generalize (Eval.locating y).outcome _ = o' at hlocated ⊢
  cases hlocated with
  | value hW hab h' => exact .value hW hab { h' with function := hfunction, span := hspan }
  | error hW he h' => exact .error hW he { h' with function := hfunction, span := hspan }
  | tooDeep hW h' => exact .tooDeep hW { h' with function := hfunction, span := hspan }
  | gaveUp hslack => exact .gaveUp hslack

namespace Simulates

theorem locating {x : Eval α} {y : Eval β} (h : R.Simulates W related x y) :
    R.Simulates W related (Eval.locating x) (Eval.locating y) :=
  fun _ hW _ _ hmn => (h hW hmn).locating

theorem activation {x : Eval α} {y : Eval β} (name : String) (h : R.Simulates W related x y) :
    R.Simulates W related (Eval.activation name x) (Eval.activation name y) :=
  fun _ hW _ _ hmn => .activation hmn.span hmn.function (h hW { hmn with function := rfl })

theorem importing {x : Eval α} {y : Eval β} (path : String) (h : R.Simulates W related x y) :
    R.Simulates W related (Eval.importing path x) (Eval.importing path y) := by
  intro W₁ h₁ m n hmn
  rw [Eval.outcome_importing, Eval.outcome_importing]
  have hscript : R.Machines W₁ { m with function := none, importing := path :: m.importing }
      { n with function := none, importing := path :: n.importing } :=
    { hmn with function := rfl, importing := by rw [hmn.importing] }
  have hxy := h h₁ hscript
  generalize x.outcome _ = o at hxy ⊢
  generalize y.outcome _ = o' at hxy ⊢
  have back : ∀ {W' : R.World} {m' n' : Machine}, R.Machines W' m' n' →
      R.Machines W'
        { m' with function := m.function, span := m.span, importing := m'.importing.tail }
        { n' with function := n.function, span := n.span, importing := n'.importing.tail } :=
    fun h' => { h' with function := hmn.function, span := hmn.span,
                        importing := congrArg List.tail h'.importing }
  cases hxy with
  | value h₂ hab h' => exact .value h₂ hab (back h')
  | error h₂ he h' => exact .error h₂ he (back h')
  | tooDeep h₂ h' => exact .tooDeep h₂ (back h')
  | gaveUp hslack => exact .gaveUp hslack

end Simulates
end Regime
end ClipScript
