/-
A run and a second one that looks over its shoulder.

The second run is carried out by an evaluator that does something more than the first: it watches
the store, or it attributes errors earlier.  `Discipline.Agrees` says that this makes no difference.
From one machine both steps end in one machine, with the same value, or with errors that are the
same once they are attributed to where that machine stands.  On the way nothing is lost of what a
caller relies on: the function that is running, the scripts that are being imported, and the
discipline.

A `Discipline` is an invariant of the store, together with what it asks of the values, parameters
and functions that get there.  The scopes in which an evaluation is going on are listed apart,
because a scope in which binding the arguments failed keeps its variables and is never looked at
again.

What one level of the evaluator does under a discipline is in
`ClipScript.Proofs.Discipline.Evaluation`.
-/
import ClipScript.Proofs.Coupling
import ClipScript.Proofs.Node.Declared

namespace ClipScript

variable {α β : Type}

/-! ## Errors that have an origin -/

/-- Errors leave the step with an origin. -/
def Eval.Settled (x : Eval α) : Prop :=
  ∀ m e, (x.outcome m).1 = .error (.error e) → e.origin.isSome

namespace Eval.Settled

theorem bind {x : Eval α} {f : α → Eval β} (h : x.Settled) (hf : ∀ a, (f a).Settled) :
    (x >>= f).Settled := by
  intro m e he
  rw [Eval.outcome_bind] at he
  cases hx : x.outcome m with
  | mk r n =>
    rw [hx] at he
    cases r with
    | ok a => exact hf a n e he
    | error stop =>
      cases he
      exact h m e (by rw [hx])

theorem pure (a : α) : (Pure.pure a : Eval α).Settled := by
  intro m e he
  cases he

theorem locating (x : Eval α) : (Eval.locating x).Settled := by
  intro m e he
  rw [Eval.outcome_locating] at he
  cases hx : x.outcome m with
  | mk r n =>
    rw [hx] at he
    cases r with
    | ok a => cases he
    | error stop =>
      cases stop with
      | tooDeep => cases he
      | error e' =>
        cases he
        exact e'.isSome_origin_located n.span n.function

theorem activation (name : String) (x : Eval α) : (Eval.activation name x).Settled := by
  intro m e he
  rw [Eval.outcome_activation] at he
  exact locating x _ e he

end Eval.Settled

/-! ## What native functions give back -/

/-- Actions that end in good values only, if the calls they make do. -/
inductive Action.Yields (good : Value → Prop) : Action → Prop where
  | value {v : Value} : good v → Yields good (.done (.ok v))
  | fault (f : Fault) : Yields good (.done (.error f))
  | message {text : String} {next : Action} : Yields good next → Yields good (.message text next)
  | warn {text : String} {next : Action} : Yields good next → Yields good (.warn text next)
  | place {next : Nat → Option String → Action} :
      (∀ line function, Yields good (next line function)) → Yields good (.place next)
  | call {name : String} {args : ArgList} {missing : Action} {next : Value → Action} :
      Yields good missing → (∀ v, good v → Yields good (next v)) →
      Yields good (.call name args missing next)
  | run {source : String} {next : Action} : Yields good next → Yields good (.run source next)

def Native.Yields (good : Value → Prop) (native : Native) : Prop :=
  ∀ args, (native args).Yields good

theorem Action.yields_of_forall {good : Value → Prop} (h : ∀ v, good v) (action : Action) :
    action.Yields good := by
  induction action with
  | done result =>
    cases result with
    | ok v => exact .value (h v)
    | error f => exact .fault f
  | message text next ih => exact .message ih
  | warn text next ih => exact .warn ih
  | place next ih => exact .place ih
  | call name args missing next ihmissing ihnext => exact .call ihmissing fun v _ => ihnext v
  | run source next ih => exact .run ih

theorem Native.yields_of_forall {good : Value → Prop} (h : ∀ v, good v) (native : Native) :
    Native.Yields good native :=
  fun args => (native args).yields_of_forall h

/-- A function that keeps to its kind: a native one gives good values, a user function is one of the
good ones. -/
def Function.Fits (value : Value → Prop) (user : UserFunction → Prop) : Function → Prop
  | .core _ native => Native.Yields value native
  | .user f => user f

theorem Function.fits_of_forall {value : Value → Prop} {user : UserFunction → Prop}
    (hvalue : ∀ v, value v) (huser : ∀ f, user f) (f : Function) : f.Fits value user := by
  cases f with
  | core name native => exact Native.yields_of_forall hvalue native
  | user f => exact huser f

/-! ## Entering a function -/

/-- Arguments bound in a new scope: how it went, and the store afterwards. -/
def Scopes.entered (s : Scopes) (f : UserFunction) (args : ArgList) : Except Fault Unit × Scopes :=
  let (env, t) := s.addChild f.home
  let (result, vars) := (f.bind args).run.run (t.get env.here).vars
  (result, t.modify env.here fun scope => { scope with vars })

/-! ## Disciplines -/

structure Discipline where
  value : Value → Prop
  param : Param → Prop
  user : UserFunction → Prop
  store : Scopes → Prop
  /-- What an evaluation relies on of the scope it goes on in. -/
  own : Env → Scopes → Prop
  value_of_kind : ∀ {v}, v.kind ≠ .identifier → value v
  user_of_order : ∀ {f}, f.checkOrder = .ok () → (∀ p ∈ f.params, param p) →
    f.body.Declares param → user f
  body_of_user : ∀ {f}, user f → f.body.Declares param
  own_global : ∀ {s}, store s → own .global s
  function? : ∀ {s env name f}, store s → s.function? env name = some f → f.Fits value user
  value? : ∀ {s env name v}, store s → own env s → s.value? env name = some v → value v
  assign : ∀ {s env v} (name : String), store s → own env s → v.isStorable →
    store (s.assign env name v) ∧ ∀ other, own other s → own other (s.assign env name v)
  define : ∀ {s f} (env : Env) (name : String), store s → f.Fits value user →
    store (s.define env name f) ∧ ∀ other, own other s → own other (s.define env name f)
  entered : ∀ {s f} (args : ArgList), store s → user f →
    store (s.entered f args).2 ∧ ∀ other, own other s → own other (s.entered f args).2
  own_entered : ∀ {s f args}, store s → user f → (s.entered f args).1 = .ok () →
    own (s.addChild f.home).1 (s.entered f args).2
  script : ∀ {source program}, Program.ofSource source = .ok program →
    ∀ n ∈ program.statements, n.Declares param

namespace Discipline

/-- The discipline that asks for nothing. -/
def free : Discipline where
  value _ := True
  param _ := True
  user _ := True
  store _ := True
  own _ _ := True
  value_of_kind _ := trivial
  user_of_order _ _ _ := trivial
  body_of_user _ := Node.declares_of_forall (fun _ => trivial) _
  own_global _ := trivial
  function? _ _ := Function.fits_of_forall (fun _ => trivial) (fun _ => trivial) _
  value? _ _ _ := trivial
  assign _ _ _ _ := ⟨trivial, fun _ _ => trivial⟩
  define _ _ _ _ := ⟨trivial, fun _ _ => trivial⟩
  entered _ _ _ := ⟨trivial, fun _ _ => trivial⟩
  own_entered _ _ _ := trivial
  script _ _ _ := Node.declares_of_forall (fun _ => trivial) _

variable (D : Discipline)

/-- A machine that keeps the discipline, while evaluations go on in the scopes `active`. -/
structure Ready (active : List Env) (m : Machine) : Prop where
  store : D.store m.scopes
  own : ∀ env ∈ active, D.own env m.scopes
  plugins : m.plugins.All (Native.Yields D.value)

theorem free_host (host : Host) : host.All (Native.Yields free.value) :=
  fun _ _ _ _ _ native _ => Native.yields_of_forall (fun _ => trivial) native

theorem free_ready (active : List Env) (m : Machine) : free.Ready active m :=
  ⟨trivial, fun _ _ => trivial,
    fun _ _ _ native _ => Native.yields_of_forall (fun _ => trivial) native⟩

theorem free_fits (f : Function) : f.Fits free.value free.user :=
  f.fits_of_forall (fun _ => trivial) fun _ => trivial

/-- Two ways to end in the machine `m` that come to the same. -/
inductive Converges (good : α → Prop) (m : Machine) : Except Stop α → Except Stop α → Prop where
  | value {a : α} : good a → Converges good m (.ok a) (.ok a)
  | gaveUp : Converges good m (.error .tooDeep) (.error .tooDeep)
  | error {e e' : RuntimeError} :
      e.located m.span m.function = e'.located m.span m.function →
      Converges good m (.error (.error e)) (.error (.error e'))

/-- Outcomes that come to the same, in a machine that has `who` running and `scripts` being
imported. -/
structure Meets (active : List Env) (who : Option String) (scripts : List String) (good : α → Prop)
    (o o' : Except Stop α × Machine) : Prop where
  machine : o'.2 = o.2
  ready : D.Ready active o.2
  function : o.2.function = who
  importing : o.2.importing = scripts
  result : Converges good o.2 o.1 o'.1

/-- Both steps come to the same, wherever `who` is running. -/
def Agrees (active : List Env) (who : Option String) (good : α → Prop) (x y : Eval α) : Prop :=
  ∀ m, D.Ready active m → m.function = who →
    D.Meets active who m.importing good (x.outcome m) (y.outcome m)

variable {D} {active : List Env} {who : Option String} {good : α → Prop} {good' : β → Prop}
  {x y : Eval α}

theorem Meets.exists_eq {scripts : List String} {o o' : Except Stop α × Machine}
    (h : D.Meets active who scripts good o o') :
    ∃ r r' n, o = (r, n) ∧ o' = (r', n) ∧ D.Ready active n ∧ n.function = who ∧
      n.importing = scripts ∧ Converges good n r r' := by
  obtain ⟨r, n⟩ := o
  obtain ⟨r', n'⟩ := o'
  obtain ⟨rfl, hready, hfunction, himporting, hresult⟩ := h
  exact ⟨r, r', n', rfl, rfl, hready, hfunction, himporting, hresult⟩

theorem Meets.bind {scripts : List String} {m : Machine} {f g : α → Eval β}
    (h : D.Meets active who scripts good (x.outcome m) (y.outcome m))
    (hfg : ∀ a, good a → D.Agrees active who good' (f a) (g a)) :
    D.Meets active who scripts good' ((x >>= f).outcome m) ((y >>= g).outcome m) := by
  obtain ⟨r, r', n, hx, hy, hready, hfunction, rfl, hresult⟩ := h.exists_eq
  rw [Eval.outcome_bind, Eval.outcome_bind, hx, hy]
  cases hresult with
  | value ha => exact hfg _ ha n hready hfunction
  | gaveUp => exact ⟨rfl, hready, hfunction, rfl, .gaveUp⟩
  | error he => exact ⟨rfl, hready, hfunction, rfl, .error he⟩

theorem Meets.drop {scripts : List String} {env : Env} {o o' : Except Stop α × Machine}
    (h : D.Meets (env :: active) who scripts good o o') : D.Meets active who scripts good o o' :=
  { h with ready := { h.ready with own := (List.forall_mem_cons.mp h.ready.own).2 } }

/-- The caller's place and function come back, and an error has its origin by then. -/
theorem Meets.activation {scripts : List String} {m : Machine} {name : String}
    (h : D.Meets active (some name) scripts good
      (x.outcome { m with function := some name }) (y.outcome { m with function := some name })) :
    D.Meets active m.function scripts good ((Eval.activation name x).outcome m)
      ((Eval.activation name y).outcome m) := by
  obtain ⟨r, r', n, hx, hy, hready, hfunction, himporting, hresult⟩ := h.exists_eq
  rw [Eval.outcome_activation, Eval.outcome_activation, Eval.outcome_locating,
    Eval.outcome_locating, hx, hy]
  have hback : D.Ready active { n with function := m.function, span := m.span } := { hready with }
  cases hresult with
  | value ha => exact ⟨rfl, hback, rfl, himporting, .value ha⟩
  | gaveUp => exact ⟨rfl, hback, rfl, himporting, .gaveUp⟩
  | error he =>
    refine ⟨rfl, hback, rfl, himporting, .error ?_⟩
    rw [he]

namespace Agrees

theorem bind {f g : α → Eval β} (h : D.Agrees active who good x y)
    (hfg : ∀ a, good a → D.Agrees active who good' (f a) (g a)) :
    D.Agrees active who good' (x >>= f) (y >>= g) :=
  fun m hready hwho => (h m hready hwho).bind hfg

theorem pure {a : α} (ha : good a) : D.Agrees active who good (Pure.pure a) (Pure.pure a) :=
  fun _ hready hwho => ⟨rfl, hready, hwho, rfl, .value ha⟩

theorem throw (stop : Stop) : D.Agrees active who good (throw stop) (throw stop) := by
  intro m hready hwho
  refine ⟨rfl, hready, hwho, rfl, ?_⟩
  cases stop with
  | tooDeep => exact .gaveUp
  | error e => exact .error rfl

theorem fail (f : Fault) : D.Agrees active who good (Eval.fail f) (Eval.fail f) :=
  throw _

theorem fail_bind (f : Fault) (k k' : α → Eval β) :
    D.Agrees active who good' (Eval.fail f >>= k) (Eval.fail f >>= k') :=
  (fail f : D.Agrees active who (fun _ => False) _ _).bind nofun

theorem ofFault {r : Except Fault α} (h : ∀ a, r = .ok a → good a) :
    D.Agrees active who good (Eval.ofFault r) (Eval.ofFault r) := by
  cases r with
  | ok a => exact pure (h a rfl)
  | error f => exact fail f

theorem ofFault_any (r : Except Fault α) :
    D.Agrees active who (fun _ => True) (Eval.ofFault r) (Eval.ofFault r) :=
  ofFault fun _ _ => trivial

theorem ofError {r : Except RuntimeError α} (h : ∀ a, r = .ok a → good a) :
    D.Agrees active who good (Eval.ofError r) (Eval.ofError r) := by
  cases r with
  | ok a => exact pure (h a rfl)
  | error e => exact throw _

theorem get_bind {f g : Machine → Eval β}
    (h : ∀ m, D.Ready active m → D.Agrees active who good' (f m) (g m)) :
    D.Agrees active who good' (do f (← get)) (do g (← get)) :=
  fun m hready hwho => h m hready m hready hwho

theorem modify {f : Machine → Machine} (hready : ∀ m, D.Ready active m → D.Ready active (f m))
    (hfunction : ∀ m, (f m).function = m.function)
    (himporting : ∀ m, (f m).importing = m.importing) :
    D.Agrees active who (fun _ => True) (modify f) (modify f) :=
  fun m h hwho => ⟨rfl, hready m h, (hfunction m).trans hwho, himporting m, .value trivial⟩

theorem moveTo (s : Span) : D.Agrees active who (fun _ => True) (Eval.moveTo s) (Eval.moveTo s) :=
  modify (fun _ h => { h with }) (fun _ => rfl) fun _ => rfl

theorem report (r : Report) : D.Agrees active who (fun _ => True) (Eval.report r) (Eval.report r) :=
  modify (fun _ h => { h with }) (fun _ => rfl) fun _ => rfl

theorem warn (text : String) :
    D.Agrees active who (fun _ => True) (Eval.warn text) (Eval.warn text) :=
  get_bind fun _ _ => report _

theorem modifyScopes {change : Scopes → Scopes}
    (h : ∀ m, D.Ready active m → D.store (change m.scopes) ∧
      ∀ env ∈ active, D.own env (change m.scopes)) :
    D.Agrees active who (fun _ => True) (Eval.modifyScopes change) (Eval.modifyScopes change) :=
  modify (fun m hm => ⟨(h m hm).1, (h m hm).2, hm.plugins⟩) (fun _ => rfl) fun _ => rfl

theorem drop {env : Env} (h : D.Agrees (env :: active) who good x y)
    (henv : ∀ m, D.Ready active m → D.own env m.scopes) : D.Agrees active who good x y := by
  intro m hready hwho
  have hmore : D.Ready (env :: active) m :=
    ⟨hready.store, List.forall_mem_cons.mpr ⟨henv m hready, hready.own⟩, hready.plugins⟩
  exact (h m hmore hwho).drop

theorem locating (h : D.Agrees active who good x y) :
    D.Agrees active who good (Eval.locating x) (Eval.locating y) := by
  intro m hready hwho
  obtain ⟨r, r', n, hx, hy, hready, hfunction, himporting, hresult⟩ := (h m hready hwho).exists_eq
  rw [Eval.outcome_locating, Eval.outcome_locating, hx, hy]
  cases hresult with
  | value ha => exact ⟨rfl, hready, hfunction, himporting, .value ha⟩
  | gaveUp => exact ⟨rfl, hready, hfunction, himporting, .gaveUp⟩
  | error he =>
    refine ⟨rfl, hready, hfunction, himporting, .error ?_⟩
    rw [he]

theorem activation (name : String) (h : D.Agrees active (some name) good x y) :
    D.Agrees active who good (Eval.activation name x) (Eval.activation name y) := by
  intro m hready hwho
  subst hwho
  exact (h { m with function := some name } { hready with } rfl).activation

end Agrees

/-- Nothing is running while a script is imported.  Its errors have their origins when the
importer's place comes back. -/
theorem Agrees.importing (path : String) (h : D.Agrees active none good x y) (hx : x.Settled)
    (hy : y.Settled) :
    D.Agrees active who good (Eval.importing path x) (Eval.importing path y) := by
  intro m hready hwho
  subst hwho
  have hstart : D.Ready active { m with function := none, importing := path :: m.importing } :=
    { hready with }
  obtain ⟨r, r', n, hxn, hyn, hready, hfunction, himporting, hresult⟩ :=
    (h _ hstart rfl).exists_eq
  rw [Eval.outcome_importing, Eval.outcome_importing, hxn, hyn]
  have hback : D.Ready active { n with function := m.function, span := m.span,
                                       importing := n.importing.tail } := { hready with }
  have htail : n.importing.tail = m.importing := by rw [himporting]; rfl
  cases hresult with
  | value ha => exact ⟨rfl, hback, rfl, htail, .value ha⟩
  | gaveUp => exact ⟨rfl, hback, rfl, htail, .gaveUp⟩
  | error he =>
    refine ⟨rfl, hback, rfl, htail, .error ?_⟩
    -- both errors have an origin, so the importer's place is not put on either
    have hxe := hx _ _ (congrArg Prod.fst hxn)
    have hye := hy _ _ (congrArg Prod.fst hyn)
    rw [RuntimeError.located_of_isSome hxe, RuntimeError.located_of_isSome hye] at he
    rw [he]

theorem Meets.eq {scripts : List String} {o o' : Except Stop α × Machine}
    (h : D.Meets active who scripts good o o')
    (ho : ∀ e, o.1 = .error (.error e) → e.origin.isSome)
    (ho' : ∀ e, o'.1 = .error (.error e) → e.origin.isSome) : o = o' := by
  obtain ⟨r, r', n, rfl, rfl, -, -, -, hresult⟩ := h.exists_eq
  cases hresult with
  | value ha => rfl
  | gaveUp => rfl
  | error he =>
    rw [RuntimeError.located_of_isSome (ho _ rfl), RuntimeError.located_of_isSome (ho' _ rfl)] at he
    rw [he]

end Discipline
end ClipScript
