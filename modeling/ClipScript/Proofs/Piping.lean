/-
Chain-assign means assigning the chain.

There are three ways from `x .= c` or `x = x.c` to a value: the `.=` is replaced before its
statement is run, or it is met by the evaluator, or the chain is.  Each of them builds the calls of
the links of `c` around the name `x` and gives them a span of its own.  The span of such a call is
never seen, not even by a native function that asks for the line, as the first argument is evaluated
before anything else happens.  So the three end alike (`Evaluator.chainAssign_assigns_chain`).

They part where `x` names a plugin and the first link is called by name.  The chain then calls the
function of the plugin, while `x .= f()` assigns `f(x)` in every case.
-/
import ClipScript.Proofs.Inertness
import ClipScript.Proofs.Node.Links
import ClipScript.Proofs.Node.Regrouped

namespace ClipScript

variable {α β : Type}

/-! ## Steps that end alike but for a place -/

namespace Eval

/-- Two ends are the same, except that failures may have come up at different places. -/
inductive SameButPlace : Except Stop α × Machine → Except Stop α × Machine → Prop where
  | same (o : Except Stop α × Machine) : SameButPlace o o
  | failed (stop : Stop) (m : Machine) (s s' : Span) :
    SameButPlace (.error stop, { m with span := s }) (.error stop, { m with span := s' })

namespace SameButPlace

variable {o o' : Except Stop α × Machine}

theorem fst_eq (h : SameButPlace o o') : o.1 = o'.1 := by
  cases h <;> rfl

theorem of_error {stop : Stop} {m : Machine} (h : SameButPlace (.error stop, m) o) :
    ∃ place, o = (.error stop, { m with span := place }) := by
  generalize hfailed : (Except.error stop, m) = failed at h
  cases h with
  | same => exact ⟨m.span, hfailed.symm⟩
  | failed stop' m' s s' =>
    cases hfailed
    exact ⟨s', rfl⟩

theorem unplacedOutcome_eq (h : SameButPlace o o') : unplacedOutcome o = unplacedOutcome o' := by
  cases h <;> rfl

theorem bind {x y : Eval α} {m m' : Machine} (h : SameButPlace (x.outcome m) (y.outcome m'))
    (f : α → Eval β) : SameButPlace ((x >>= f).outcome m) ((y >>= f).outcome m') := by
  rw [outcome_bind, outcome_bind]
  generalize x.outcome m = o at h ⊢
  generalize y.outcome m' = o' at h ⊢
  cases h with
  | same => exact .same _
  | failed stop m s s' => exact .failed stop m s s'

end SameButPlace

/-- From a machine, at whatever places it stands, two steps end alike but for a place. -/
def AlikeFrom (m : Machine) (x y : Eval α) : Prop :=
  ∀ s s', SameButPlace (x.outcome { m with span := s }) (y.outcome { m with span := s' })

namespace AlikeFrom

variable {m : Machine} {x y : Eval α}

theorem bind (h : AlikeFrom m x y) (f : α → Eval β) : AlikeFrom m (x >>= f) (y >>= f) :=
  fun s s' => (h s s').bind f

theorem throw (stop : Stop) :
    AlikeFrom m (MonadExcept.throw stop : Eval α) (MonadExcept.throw stop) :=
  .failed stop m

theorem moveTo (h : AlikeFrom m x y) (s s' : Span) :
    AlikeFrom m (do Eval.moveTo s; x) (do Eval.moveTo s'; y) :=
  fun _ _ => h s s'

theorem moveTo_same (s : Span) (x : Eval α) :
    AlikeFrom m (do Eval.moveTo s; x) (do Eval.moveTo s; x) :=
  fun _ _ => .same (x.outcome { m with span := s })

end AlikeFrom
end Eval

open Eval (SameButPlace AlikeFrom)

/-! ## The calls that a name flows into -/

theorem SameFault.eq_error {related : α → β → Prop} {x : Except Fault α} {y : Except Fault β}
    {f : Fault} (h : SameFault related x y) (hx : x = .error f) : y = .error f := by
  cases h with
  | ok => cases hx
  | error fault =>
    cases hx
    rfl

namespace Node

/-- The first link is called by name, or is a bare name. -/
def startsByName : Node → Bool
  | call _ (.named _) _ => true
  | leaf _ (.identifier _) => true
  | chain _ first _ => first.startsByName
  | _ => false

/-- Whether a value can flow into a tree, and the fault if not, does not depend on the value. -/
theorem sameFault_pipe (s : Span) (v v' c : Node) :
    SameFault (fun _ _ => True) (pipe s v c) (pipe s v' c) := by
  induction c using Node.induct generalizing v v' with
  | leaf t w =>
    cases w with
    | identifier name => exact .ok trivial
    | _ => exact .error _
  | call t callee args =>
    rw [pipe, pipe]
    cases unchainArgs args with
    | error f => exact .error f
    | ok args' => exact .ok trivial
  | chain t first rest ihfirst ihrest =>
    rw [pipe, pipe]
    exact (ihfirst v v').bind fun mid mid' _ => ihrest mid mid'
  | _ => exact .error _

theorem sameFault_pipe_pluginCall (owner : String) (s : Span) (v c : Node) :
    SameFault (fun _ _ => True) (pipe s v c) (pluginCall owner s c) := by
  induction c using Node.induct generalizing v with
  | leaf t w =>
    cases w with
    | identifier name => exact .ok trivial
    | _ => exact .error _
  | call t callee args =>
    cases callee with
    | named function =>
      rw [pipe, pluginCall]
      cases unchainArgs args with
      | error f => exact .error f
      | ok args' => exact .ok trivial
    | plugin owner' function => exact sameFault_pipe s v (identifier s owner) _
  | chain t first rest ihfirst _ =>
    rw [pipe, pluginCall]
    exact (ihfirst v).bind fun mid mid' _ => sameFault_pipe s mid mid' rest
  | _ => exact .error _

/-- If the first link is not called by name then the name of a plugin is taken as a value. -/
theorem pluginCall_of_not_startsByName (owner : String) (s : Span) {c : Node}
    (h : c.startsByName = false) : pluginCall owner s c = unchainAs s (identifier s owner) c := by
  fun_induction startsByName c with
  | case1 => cases h
  | case2 => cases h
  | case3 t first rest ih =>
    rw [pluginCall, ih h]
    rfl
  | case4 c hcall hleaf hchain => rw [pluginCall] <;> assumption

/-- Places apart, a name always flows into the same calls, or always fails to for the same
reason. -/
theorem unchainAs_identifier (x : String) (c : Node) :
    (∃ f, ∀ s t, unchainAs s (identifier t x) c = .error f) ∨
    (∃ links, ∀ s t, unchainAs s (identifier t x) c = .ok (nested s (identifier t x) links)) ∧
      ∀ n ∈ c.links, n.Callable := by
  cases h : unchainAs .nowhere (identifier .nowhere x) c with
  | error f =>
    refine .inl ⟨f, fun s t => ?_⟩
    have hname : (identifier .nowhere x).unplaced = (identifier t x).unplaced := rfl
    exact (sameFault_unchainAs hname rfl .nowhere s).eq_error h
  | ok r =>
    obtain ⟨v', links, -, hcalls, -⟩ := unchainAs_eq_ok_iff.mp h
    refine .inr ⟨⟨links, fun s t => ?_⟩, forall_callable_iff.mpr ⟨links, hcalls⟩⟩
    exact unchainAs_eq_ok_iff.mpr ⟨identifier t x, links, rfl, hcalls, rfl⟩

end Node

/-- A chain on the name means a plugin: one is loaded under it, and no variable or function hides
it. -/
def Machine.namesPlugin (m : Machine) (env : Env) (x : String) : Bool :=
  m.plugins.contains x && (m.scopes.value? env x).isNone && (m.scopes.function? env x).isNone

/-- The chain of a name and a call side calls a function of a plugin: the name means a plugin, the
first link is called by name, and there is nothing among the links that cannot be called. -/
structure Machine.CallsPlugin (m : Machine) (env : Env) (x : String) (c : Node) : Prop where
  name : m.namesPlugin env x = true
  first : c.startsByName = true
  links : ∀ n ∈ c.links, n.Callable

namespace Evaluator

open Node (Link)

variable {host : Host} {env : Env} {m : Machine} {x : String} {c : Node}

/-! ## Calls around values that are alike -/

/-- The span of a call that has arguments is not seen: the first of them is evaluated before
anything else happens. -/
theorem alikeFrom_on {v v' : Node}
    (h : ∀ d, AlikeFrom m ((ofDepth host d).evaluate env v) ((ofDepth host d).evaluate env v'))
    (s s' : Span) (link : Link) (d : Nat) :
    AlikeFrom m ((ofDepth host d).evaluate env (link.on s v))
      ((ofDepth host d).evaluate env (link.on s' v')) := by
  cases d with
  | zero => exact .throw .tooDeep
  | succ d =>
    have hvalue : AlikeFrom m (valueOf (ofDepth host d) env v) (valueOf (ofDepth host d) env v') :=
      (h d).bind _
    have hcall : AlikeFrom m (callTo (ofDepth host d) env link.callee (⟨none, v⟩ :: link.args))
        (callTo (ofDepth host d) env link.callee (⟨none, v'⟩ :: link.args)) :=
      (hvalue.bind _).bind _
    exact (hcall.bind _).moveTo s s'

theorem alikeFrom_nested {v v' : Node}
    (h : ∀ d, AlikeFrom m ((ofDepth host d).evaluate env v) ((ofDepth host d).evaluate env v'))
    (s s' : Span) (links : List Link) (d : Nat) :
    AlikeFrom m ((ofDepth host d).evaluate env (Node.nested s v links))
      ((ofDepth host d).evaluate env (Node.nested s' v' links)) := by
  induction links generalizing v v' with
  | nil => exact h d
  | cons link rest ih => exact ih (alikeFrom_on h s s' link)

theorem alikeFrom_identifier (t : Span) (x : String) (d : Nat) :
    AlikeFrom m ((ofDepth host d).evaluate env (.identifier t x))
      ((ofDepth host d).evaluate env (.identifier t x)) := by
  cases d with
  | zero => exact .throw .tooDeep
  | succ d => exact .moveTo_same t _

theorem alikeFrom_identifier_of_namesPlugin (h : m.namesPlugin env x = true) (t t' : Span)
    (d : Nat) :
    AlikeFrom m ((ofDepth host d).evaluate env (.identifier t x))
      ((ofDepth host d).evaluate env (.identifier t' x)) := by
  cases d with
  | zero => exact .throw .tooDeep
  | succ d =>
    simp only [Machine.namesPlugin, Bool.and_eq_true, Option.isNone_iff_eq_none] at h
    obtain ⟨⟨-, hvalue⟩, hfunction⟩ := h
    have hlookup : ∀ s, (lookup (ofDepth host d) env x).outcome { m with span := s }
        = (.error (.error ⟨.undefinedName x, none⟩), { m with span := s }) := by
      intro s
      have hget : (get : Eval Machine).outcome { m with span := s }
          = (.ok { m with span := s }, { m with span := s }) := rfl
      rw [lookup, Eval.outcome_bind, hget]
      simp only [hvalue, hfunction]
      rfl
    refine AlikeFrom.moveTo (AlikeFrom.bind ?_ _) t t'
    intro s s'
    rw [hlookup, hlookup]
    exact .failed _ m s s'

/-! ## The value of a chain on a name -/

theorem outcome_chain_identifier (host : Host) (P : Evaluator) (m : Machine) (s t : Span) :
    (node host P env (.chain s (.identifier t x) c)).outcome m
      = Eval.outcome (do
          let call ← Eval.ofFault (if m.namesPlugin env x then Node.pluginCall x s c
            else Node.unchainAs s (.identifier t x) c)
          P.evaluate env call) { m with span := s } := by
  have hnames : (namesPlugin env x).outcome { m with span := s }
      = (.ok (m.namesPlugin env x), { m with span := s }) := rfl
  show Eval.outcome (do
    let call ← do
      if ← namesPlugin env x then Eval.ofFault (Node.pluginCall x s c)
      else Eval.ofFault (Node.unchainAs s (.identifier t x) c)
    P.evaluate env call) { m with span := s } = _
  rw [Eval.outcome_bind, hnames]
  dsimp only
  cases m.namesPlugin env x <;> rfl

/-- A chain on a name goes on as the calls that the name flows into, unless it calls a function of a
plugin.  The chain takes a level more. -/
theorem alikeFrom_chain (host : Host) (h : ¬ m.CallsPlugin env x c) (s s' t : Span) (d : Nat) :
    AlikeFrom m (do
        let call ← Eval.ofFault (Node.unchainAs s (.identifier t x) c)
        (ofDepth host d).evaluate env call)
      ((ofDepth host (d + 1)).evaluate env (.chain s' (.identifier t x) c)) := by
  intro place place'
  have hchain : ((ofDepth host (d + 1)).evaluate env (.chain s' (.identifier t x) c)).outcome
      { m with span := place' } = Eval.outcome (do
        let call ← Eval.ofFault (if m.namesPlugin env x then Node.pluginCall x s' c
          else Node.unchainAs s' (.identifier t x) c)
        (ofDepth host d).evaluate env call) { m with span := s' } :=
    outcome_chain_identifier host _ { m with span := place' } s' t
  rw [hchain]
  obtain ⟨f, hf⟩ | ⟨⟨links, hlinks⟩, hcallable⟩ := Node.unchainAs_identifier x c
  · have hplugin : Node.pluginCall x s' c = .error f := by
      have hpipe : Node.pipe s' (.identifier t x) c = .error f := hf s' t
      exact (Node.sameFault_pipe_pluginCall x s' _ c).eq_error hpipe
    rw [hf, hf, hplugin, ite_self]
    exact .failed _ m place s'
  · cases hplugin : m.namesPlugin env x with
    | false =>
      rw [hlinks, if_neg Bool.false_ne_true, hlinks]
      exact alikeFrom_nested (alikeFrom_identifier t x) s s' links d place s'
    | true =>
      -- the chain takes the name at its own place, where it is not defined either
      have hfirst : c.startsByName = false :=
        Bool.eq_false_iff.mpr fun hfirst => h ⟨hplugin, hfirst, hcallable⟩
      rw [hlinks, if_pos rfl, Node.pluginCall_of_not_startsByName x s' hfirst, hlinks]
      refine alikeFrom_nested ?_ s s' links d place s'
      exact alikeFrom_identifier_of_namesPlugin hplugin t s'

theorem alikeFrom_valueOf_chain (h : ¬ m.CallsPlugin env x c) (s s' t : Span) (d : Nat) :
    AlikeFrom m (do
        let call ← Eval.ofFault (Node.unchainAs s (.identifier t x) c)
        valueOf (ofDepth host d) env call)
      (valueOf (ofDepth host (d + 1)) env (.chain s' (.identifier t x) c)) := by
  have hvalue := (alikeFrom_chain host h s s' t d).bind fun flow => pure flow.value
  rwa [bind_assoc] at hvalue

/-! ## How statements end -/

/-- Two trees come to the same ends from a machine, but for the places of failures. -/
structure SameEnds (host : Host) (env : Env) (m : Machine) (n n' : Node) : Prop where
  forth : ∀ o, Ends host (fun ev => ev.evaluate env n) m o →
    ∃ o', Ends host (fun ev => ev.evaluate env n') m o' ∧ SameButPlace o o'
  back : ∀ o', Ends host (fun ev => ev.evaluate env n') m o' →
    ∃ o, Ends host (fun ev => ev.evaluate env n) m o ∧ SameButPlace o o'

/-- The evaluation of a tree comes to an end, and this is how, places aside. -/
def EvaluatesTo (host : Host) (env : Env) (n : Node) (m : Machine)
    (o : Except Stop Flow × Machine) : Prop :=
  ∃ o', Ends host (fun ev => ev.evaluate env n) m o' ∧ Eval.unplacedOutcome o' = o

/-- It is enough to compare the trees depth by depth, the second with a level to spare. -/
theorem SameEnds.of_depth {n n' : Node}
    (h : ∀ d, SameButPlace (((ofDepth host (d + 1)).evaluate env n).outcome m)
      (((ofDepth host (d + 2)).evaluate env n').outcome m)) : SameEnds host env m n n' := by
  constructor
  · rintro _ ⟨_ | d, rfl, hended⟩
    · exact absurd rfl hended
    · refine ⟨_, ⟨d + 2, rfl, ?_⟩, h d⟩
      rwa [← (h d).fst_eq]
  · rintro _ ⟨_ | d, rfl, hended⟩
    · exact absurd rfl hended
    · have hsame := h d
      have hdeeper := outcome_of_le (lawful_evaluate env n') host (Nat.le_succ (d + 1)) hended
      rw [hdeeper] at hsame
      refine ⟨_, ⟨d + 1, rfl, ?_⟩, hsame⟩
      rwa [hsame.fst_eq]

theorem SameEnds.evaluatesTo_iff {n n' : Node} (h : SameEnds host env m n n')
    (o : Except Stop Flow × Machine) :
    EvaluatesTo host env n m o ↔ EvaluatesTo host env n' m o := by
  constructor
  · rintro ⟨_, hends, rfl⟩
    obtain ⟨o', hends', hsame⟩ := h.forth _ hends
    exact ⟨o', hends', hsame.unplacedOutcome_eq.symm⟩
  · rintro ⟨_, hends, rfl⟩
    obtain ⟨o', hends', hsame⟩ := h.back _ hends
    exact ⟨o', hends', hsame.unplacedOutcome_eq⟩

theorem EvaluatesTo.of_places {n n' : Node} (hhost : host.Within False True)
    (hm : m.Within False True) (hn : n.SamePlaceless n') {o : Except Stop Flow × Machine}
    (h : EvaluatesTo host env n m o) : EvaluatesTo host env n' m o := by
  obtain ⟨_, ⟨depth, rfl, hended⟩, rfl⟩ := h
  have hagrees : Coupling.places.Agrees ((ofDepth host depth).evaluate env n)
      ((ofDepth host depth).evaluate env n') :=
    (Coupling.parts_places hhost depth).evaluate trivial hn
  have hfollows := hagrees (Coupling.places_machines_iff.mpr ⟨rfl, hm⟩)
  have hends : Ends host (fun ev => ev.evaluate env n') m _ := .of_follows hended hfollows
  exact ⟨_, hends, (Coupling.unplacedOutcome_of_follows hfollows hended).symm⟩

/-! ## Assignments -/

def storing (env : Env) (x : String) (value : Eval Value) : Eval Flow := do
  let v ← value
  store env x v
  return .proceed v

theorem node_assign (host : Host) (P : Evaluator) (env : Env) (x : String) (s t : Span)
    (value : Node) :
    node host P env (.assign s (.identifier t x) .assign value)
      = (do Eval.moveTo s; storing env x (valueOf P env value)) := by
  simp [node, assign, storing, Node.span]

theorem node_chainAssign (host : Host) (P : Evaluator) (env : Env) (x : String) (s t : Span)
    (c : Node) :
    node host P env (.assign s (.identifier t x) .chain c)
      = (do
          Eval.moveTo s
          storing env x do
            let call ← Eval.ofFault (Node.unchainAs c.span (.identifier t x) c)
            valueOf P env call) := by
  simp [node, assign, storing, Node.span]

theorem sameEnds_of_storing {n value : Node} {s : Span} {step : Evaluator → Eval Value}
    (hn : ∀ P, node host P env n = (do Eval.moveTo s; storing env x (step P)))
    (hstep : ∀ d, AlikeFrom m (step (ofDepth host d)) (valueOf (ofDepth host (d + 1)) env value))
    (s' t : Span) : SameEnds host env m n (.assign s' (.identifier t x) .assign value) := by
  refine .of_depth fun d => ?_
  show SameButPlace ((node host (ofDepth host d) env n).outcome m)
    ((node host (ofDepth host (d + 1)) env _).outcome m)
  rw [hn, node_assign]
  exact ((hstep d).bind _).moveTo s s' m.span m.span

theorem sameEnds_chainAssign (h : ¬ m.CallsPlugin env x c)
    (s s₁ s₂ t t₁ : Span) :
    SameEnds host env m (.assign s (.identifier t x) .chain c)
      (.assign s₁ (.identifier t₁ x) .assign (.chain s₂ (.identifier t x) c)) :=
  sameEnds_of_storing (node_chainAssign host · env x s t c)
    (alikeFrom_valueOf_chain h c.span s₂ t) s₁ t₁

theorem sameEnds_unchained (h : ¬ m.CallsPlugin env x c)
    (s s₁ s₂ t t₁ : Span) {u : Node}
    (hu : (Node.assign s (.identifier t x) .chain c).unchain = .ok u) :
    SameEnds host env m u
      (.assign s₁ (.identifier t₁ x) .assign (.chain s₂ (.identifier t x) c)) := by
  rw [Node.unchain_assign_chain] at hu
  obtain ⟨call, hcall, rfl⟩ := ok_of_map hu
  have hvalue : ∀ d, AlikeFrom m _ (valueOf (ofDepth host (d + 1)) env _) :=
    alikeFrom_valueOf_chain h s s₂ t
  rw [hcall] at hvalue
  exact sameEnds_of_storing (node_assign host · env x s t call) hvalue s₁ t₁

/-- A `.=` that cannot be replaced fails in the same way when it is met. -/
theorem ends_chainAssign_of_unchain {s t : Span} {f : Fault}
    (hf : (Node.assign s (.identifier t x) .chain c).unchain = .error f) :
    Ends host (fun ev => ev.evaluate env (.assign s (.identifier t x) .chain c)) m
      (.error (.error ⟨f, none⟩), { m with span := s }) := by
  rw [Node.unchain_assign_chain] at hf
  obtain ⟨f', hf'⟩ | ⟨⟨links, hlinks⟩, -⟩ := Node.unchainAs_identifier x c
  · rw [hf'] at hf
    cases hf
    refine ⟨1, ?_, nofun⟩
    show (node host (ofDepth host 0) env _).outcome m = _
    rw [node_chainAssign, hf']
    rfl
  · rw [hlinks] at hf
    cases hf

/-- Chain-assign means assigning the chain, in every state in which the chain does not call a
function of a plugin.  The `.=`, as it stands or replaced, comes to the same ends as the assignment
of the chain on the same name: with the same value or the same error, in the same machine but for
the place of an error.  If it cannot be replaced, the assignment fails for the same reason.  Where
no native function acts on the current line, the statements may be written anywhere, and the ends
are the same places aside. -/
theorem chainAssign_assigns_chain (host : Host) (env : Env) (m : Machine) (x : String) (c : Node)
    (s s₁ s₂ t t₁ : Span) (h : ¬ m.CallsPlugin env x c) :
    let piped := Node.assign s (.identifier t x) .chain c
    let written := Node.assign s₁ (.identifier t₁ x) .assign (.chain s₂ (.identifier t x) c)
    (∀ n, n = piped ∨ piped.unchain = .ok n → SameEnds host env m n written ∧
      (host.Within False True → m.Within False True →
        ∀ n' written', n.SamePlaceless n' → written.SamePlaceless written' →
          ∀ o, EvaluatesTo host env n' m o ↔ EvaluatesTo host env written' m o)) ∧
    (∀ f, piped.unchain = .error f → ∃ place, Ends host (fun ev => ev.evaluate env written) m
      (.error (.error ⟨f, none⟩), { m with span := place })) ∧
    written.unchain = .ok written := by
  intro piped written
  refine ⟨fun n hn => ?_, fun f hf => ?_, rfl⟩
  · have hsame : SameEnds host env m n written := by
      obtain rfl | hn := hn
      · exact sameEnds_chainAssign h s s₁ s₂ t t₁
      · exact sameEnds_unchained h s s₁ s₂ t t₁ hn
    refine ⟨hsame, fun hhost hm n' written' hn' hwritten' o => ?_⟩
    have hplaces : ∀ {a b : Node}, a.SamePlaceless b →
        (EvaluatesTo host env b m o ↔ EvaluatesTo host env a m o) :=
      fun hab => ⟨.of_places hhost hm hab.symm, .of_places hhost hm hab⟩
    rw [hplaces hn', hsame.evaluatesTo_iff, ← hplaces hwritten']
  · obtain ⟨o, hends, hsame⟩ := (sameEnds_chainAssign h s s₁ s₂ t t₁).forth _
      (ends_chainAssign_of_unchain hf)
    obtain ⟨place, rfl⟩ := hsame.of_error
    exact ⟨place, hends⟩

section Example

/-- A machine that has loaded a plugin `fx` with a function `answer`. -/
def pluginMachine (scopes : Scopes) : Machine where
  scopes := scopes
  plugins := Registry.empty.register "fx" (.ofTable ⟨[("answer", fun _ => .value (.boolean true))]⟩)

/-- `fx .= f()` and `fx = fx.f()`, on a line each. -/
def pipedCall (f : String) : Node :=
  .assign ⟨0, 9, 1, 1⟩ (.identifier ⟨0, 2, 1, 1⟩ "fx") .chain (.call ⟨6, 9, 1, 7⟩ (.named f) [])

def writtenCall (f : String) : Node :=
  .assign ⟨10, 21, 2, 1⟩ (.identifier ⟨10, 12, 2, 1⟩ "fx") .assign
    (.chain ⟨15, 21, 2, 6⟩ (.identifier ⟨0, 2, 1, 1⟩ "fx") (.call ⟨6, 9, 1, 7⟩ (.named f) []))

/-- Where a variable hides the plugin, `fx .= typeof()` comes to an end, and to the same one as
`fx = fx.typeof()`. -/
theorem chainAssign_assigns_chain_hidden :
    let m := pluginMachine (Scopes.initial.assign .global "fx" (.string "a"))
    (∃ m', Ends bareHost (fun ev => ev.evaluate .global (pipedCall "typeof")) m
      (.ok (.proceed (.string "string")), m')) ∧
    SameEnds bareHost .global m (pipedCall "typeof") (writtenCall "typeof") := by
  intro m
  refine ⟨⟨_, 3, rfl, nofun⟩, ?_⟩
  have hplugin : m.namesPlugin .global "fx" = false := by decide +kernel
  have h : ∀ c, ¬ m.CallsPlugin .global "fx" c := by
    intro c hcalls
    cases hplugin.symm.trans hcalls.name
  exact ((chainAssign_assigns_chain bareHost .global m "fx" _ _ _ _ _ _ (h _)).1 _ (.inl rfl)).1

/-- Where nothing hides the plugin, `fx = fx.answer()` assigns what its function gives, and
`fx .= answer()` asks for a variable that is not there. -/
theorem chainAssign_apart_from_plugin :
    let m := pluginMachine .initial
    (∃ m', Ends bareHost (fun ev => ev.evaluate .global (pipedCall "answer")) m
      (.error (.error ⟨.undefinedName "fx", none⟩), m')) ∧
    (∃ m', Ends bareHost (fun ev => ev.evaluate .global (writtenCall "answer")) m
      (.ok (.proceed (.boolean true)), m')) ∧
    ¬ ∀ o, EvaluatesTo bareHost .global (pipedCall "answer") m o
      ↔ EvaluatesTo bareHost .global (writtenCall "answer") m o := by
  intro m
  have hpiped : ∃ m', Ends bareHost (fun ev => ev.evaluate .global (pipedCall "answer")) m
      (.error (.error ⟨.undefinedName "fx", none⟩), m') := ⟨_, 3, rfl, nofun⟩
  have hwritten : ∃ m', Ends bareHost (fun ev => ev.evaluate .global (writtenCall "answer")) m
      (.ok (.proceed (.boolean true)), m') := ⟨_, 4, rfl, nofun⟩
  refine ⟨hpiped, hwritten, fun hsame => ?_⟩
  obtain ⟨m₁, hpiped⟩ := hpiped
  obtain ⟨m₂, hwritten⟩ := hwritten
  obtain ⟨o, hends, ho⟩ := (hsame _).mp ⟨_, hpiped, rfl⟩
  rw [hends.unique (lawful_evaluate _ _) hwritten] at ho
  cases congrArg Prod.fst ho

end Example
end Evaluator
end ClipScript
