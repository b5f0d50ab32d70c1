/-
Defaults never override.

A call of a user function gets a scope of its own, and the defaults for its parameters are those
that are carried out in that scope.  `Evaluator.guardedCall` is a call that raises an alarm at each
of them that is about to be filled in, unless it is spared.

If an argument was passed for the parameter nobody notices the guard, because the parameter does not
lack a value when the body starts and scopes only grow.  If none was passed it is enough to spare
one default at one moment (`Evaluator.defaults_never_override`).  The parameter lacks a value then
and has one afterwards, so the moment does not come again.
-/
import ClipScript.Proofs.Filling
import ClipScript.Proofs.Passing
import ClipScript.Proofs.Returns

namespace ClipScript

/-! ## Entering a function -/

namespace UserFunction

variable {f : UserFunction} {name : String} {v : Value}

theorem mem_of_lastAimed? {i : Nat} {args : List (Labelled Value)}
    (h : f.lastAimed? name i args = some v) : ∃ arg ∈ args, arg.content = v := by
  induction args generalizing i with
  | nil => cases h
  | cons arg rest ih =>
    rw [lastAimed?, Option.or_eq_some_iff] at h
    rcases h with hlater | ⟨-, hthis⟩
    · obtain ⟨later, hmem, rfl⟩ := ih hlater
      exact ⟨later, List.mem_cons_of_mem _ hmem, rfl⟩
    · split at hthis
      · cases hthis
        exact ⟨arg, List.mem_cons_self, rfl⟩
      · cases hthis

theorem Accepts.exists_param {i : Nat} {arg : Labelled Value} (h : f.Accepts i arg) :
    ∃ p ∈ f.params, arg.content.kind = p.kind := by
  cases h with
  | unnamed hp hkind => exact ⟨_, List.mem_of_getElem? hp, hkind⟩
  | named hp hkind => exact ⟨_, List.mem_of_find?_eq_some hp, hkind⟩

/-- When its arguments are bound, a parameter for which one was passed does not lack a value, unless
void may be passed. -/
theorem filled_of_passed {args : ArgList} (s : Scopes) (hbound : (s.entered f args).1 = .ok ())
    (hpassed : f.lastAimed? name 0 args.toList = some v)
    (hvoid : v = .void → ∀ p ∈ f.params, p.kind ≠ .void) :
    (s.entered f args).2.lacks s.all.size name = false := by
  obtain ⟨hresult, hvars⟩ := s.entered_eq f args
  obtain ⟨-, haccepted, -, hfound⟩ := f.bind_binds args
  rw [hresult] at hbound
  have hv : v ≠ .void := by
    intro hnone
    obtain ⟨arg, hmem, rfl⟩ := mem_of_lastAimed? hpassed
    obtain ⟨j, hj⟩ := List.mem_iff_getElem?.mp hmem
    obtain ⟨p, hp, hkind⟩ := ((haccepted.mp hbound).2 j arg hj).exists_param
    refine hvoid hnone p hp ?_
    rw [← hkind, hnone]
    rfl
  have hname := hfound hbound name
  rw [hpassed] at hname
  rw [Scopes.lacks, hvars]
  cases hparam : f.lastParam? name with
  | none =>
    rw [hparam] at hname
    rw [Bool.eq_false_iff, ne_eq, Variables.lacks_iff, hname]
    nofun
  | some p =>
    rw [hparam] at hname
    exact Variables.lacks_eq_false hname hv

end UserFunction

/-! ## Calls -/

namespace Evaluator

/-- A call that raises an alarm instead of filling in a default for a parameter of the function.
These defaults are the ones carried out in the scope that the call is about to make. -/
def guardedCall (g : Guard) (name : String) (host : Host) (depth : Nat) (f : UserFunction)
    (args : ArgList) : Eval Value := do
  let m ← get
  (guarding g m.scopes.all.size name host depth).invoke (.user f) args

variable {g : Guard} {name : String} {host : Host} {f : UserFunction} {args : ArgList}
  {m : Machine}

theorem outcome_guardedCall_eq (depth : Nat) :
    (guardedCall g name host depth f args).outcome m
      = ((guarding g m.scopes.all.size name host depth).invoke (.user f) args).outcome m :=
  rfl

theorem outcome_guardedCall {depth : Nat}
    (h : m.scopes.contains f.home.here → (m.scopes.entered f args).1 = .ok () →
      ((guarding g m.scopes.all.size name host depth).evaluate (m.scopes.addChild f.home).1
          f.body).outcome (m.entered f args)
        = ((ofDepth host depth).evaluate (m.scopes.addChild f.home).1 f.body).outcome
          (m.entered f args)) :
    (guardedCall g name host (depth + 1) f args).outcome m
      = ((ofDepth host (depth + 1)).invoke (.user f) args).outcome m := by
  have hplain : ((ofDepth host (depth + 1)).invoke (.user f) args).outcome m
      = ((ofDepth host depth).callUser f args).outcome m := rfl
  have hguarded : ((guarding g m.scopes.all.size name host depth).call (.user f) args).outcome m
      = ((guarding g m.scopes.all.size name host depth).callUser f args).outcome m := rfl
  rw [outcome_guardedCall_eq, invoke_guarding, hguarded, hplain, outcome_callUser,
    outcome_callUser]
  split
  · next hhome =>
    have hbody : ((guarding g m.scopes.all.size name host depth).userBody f args
          (m.scopes.addChild f.home).1).outcome
          { m with scopes := (m.scopes.addChild f.home).2, function := some f.name }
        = ((ofDepth host depth).userBody f args (m.scopes.addChild f.home).1).outcome
          { m with scopes := (m.scopes.addChild f.home).2, function := some f.name } := by
      rw [outcome_userBody, outcome_userBody]
      cases hbound : (m.scopes.entered f args).1 with
      | error fault => rfl
      | ok _ =>
        rw [Eval.outcome_bind, Eval.outcome_bind]
        dsimp only [Eval.ofFault]
        show Eval.outcome (_ >>= _) (m.entered f args) = Eval.outcome (_ >>= _) (m.entered f args)
        rw [Eval.outcome_bind, Eval.outcome_bind, h hhome hbound]
    rw [Eval.outcome_activation, Eval.outcome_activation, Eval.outcome_locating,
      Eval.outcome_locating, hbody]
  · rfl

/-- No default replaces what was passed. -/
theorem outcome_guardedCall_of_passed {v : Value}
    (hpassed : f.lastAimed? name 0 args.toList = some v)
    (hvoid : v = .void → ∀ p ∈ f.params, p.kind ≠ .void) (g : Guard) (host : Host) (depth : Nat)
    (m : Machine) :
    (guardedCall g name host depth f args).outcome m
      = ((ofDepth host depth).invoke (.user f) args).outcome m := by
  cases depth with
  | zero => rfl
  | succ depth =>
    refine outcome_guardedCall fun _ hbound => ?_
    have hfilled := UserFunction.filled_of_passed m.scopes hbound hpassed hvoid
    have hparts : (Watch.filled m.scopes.all.size name).growing.Parts [] m.importing (fun _ => True)
        (ofDepth host depth) (guarding g m.scopes.all.size name host depth) := by
      refine parts_guarding _ (fun {n env tree} hkept _ hfills => ?_) depth [] m.importing
      rw [Machine.fills, hkept.2, Bool.and_false] at hfills
      cases hfills
    exact Watch.outcome_eq (m := m.entered f args) (hparts.evaluate trivial trivial)
      ⟨m.scopes.contains_entered_self f args, hfilled⟩

/-- One default is filled in, at one moment. -/
theorem exists_outcome_guardedCall (hbody : f.body.DefaultsApart name true) (args : ArgList)
    (host : Host) (depth : Nat) (m : Machine) :
    ∃ n start, ∀ g : Guard, g.spare n start →
      (guardedCall g name host depth f args).outcome m
        = ((ofDepth host depth).invoke (.user f) args).outcome m := by
  cases depth with
  | zero => exact ⟨f.body, m, fun _ _ => rfl⟩
  | succ depth =>
    by_cases hhome : m.scopes.contains f.home.here
    · have hscope : m.scopes.all.size ≠ 0 :=
        Nat.ne_of_gt (Nat.zero_lt_of_lt (of_decide_eq_true hhome))
      have hguards := guards_guarding hscope name host depth
      have hfills : Eval.FillsFrom m.scopes.all.size name true
          ((ofDepth host depth).evaluate (m.scopes.addChild f.home).1 f.body)
          (fun g => (guarding g m.scopes.all.size name host depth).evaluate
            (m.scopes.addChild f.home).1 f.body) (m.entered f args) :=
        hguards.evaluate rfl hbody _ (m.scopes.contains_entered_self f args)
      cases hfills with
      | never _ heq => exact ⟨f.body, m, fun g _ => outcome_guardedCall fun _ _ => heq g⟩
      | once n start _ _ _ heq _ =>
        exact ⟨n, start, fun g hspare => outcome_guardedCall fun _ _ => heq g hspare⟩
    · exact ⟨f.body, m, fun g _ => outcome_guardedCall fun h => absurd h hhome⟩

end Evaluator

/-! ## Functions of scripts -/

namespace Node

variable {good : Param → Prop} {n part : Node}

theorem Declares.of_mem_parts (h : n.Declares good) (hpart : part ∈ n.parts) :
    part.Declares good := by
  cases h with
  | leaf => cases hpart
  | sequence hbody => exact hbody part hpart
  | assign htarget hvalue =>
    exact List.forall_mem_cons.mpr ⟨htarget, List.forall_mem_singleton.mpr hvalue⟩ part hpart
  | binary hlhs hrhs =>
    exact List.forall_mem_cons.mpr ⟨hlhs, List.forall_mem_singleton.mpr hrhs⟩ part hpart
  | unary hoperand => exact List.forall_mem_singleton.mpr hoperand part hpart
  | ternary hcondition hyes hno =>
    refine List.forall_mem_cons.mpr ⟨hcondition, ?_⟩ part hpart
    exact List.forall_mem_cons.mpr ⟨hyes, List.forall_mem_singleton.mpr hno⟩
  | call hargs => exact List.forall_mem_map.mpr hargs part hpart
  | chain hvalue hlink =>
    exact List.forall_mem_cons.mpr ⟨hvalue, List.forall_mem_singleton.mpr hlink⟩ part hpart
  | functionDef _ hbody => exact List.forall_mem_singleton.mpr hbody part hpart
  | defaultValue hvalue => exact List.forall_mem_singleton.mpr hvalue part hpart
  | returnValue hvalue => exact hvalue part (Option.mem_toList.mp hpart)
  | ifElse hcondition hyes hno =>
    refine List.forall_mem_cons.mpr ⟨hcondition, ?_⟩ part hpart
    exact List.forall_mem_cons.mpr ⟨hyes, fun u hu => hno u (Option.mem_toList.mp hu)⟩
  | importName => cases hpart

theorem Arises.declares {statements : List Node} (hstatements : ∀ n ∈ statements, n.Declares good)
    (h : Arises statements n) : n.Declares good := by
  induction h with
  | statement hn => exact hstatements _ hn
  | part _ hu ih => exact ih.of_mem_parts hu
  | unchain _ hu ih => exact ih.unchain hu
  | chain _ hu ih =>
    cases ih with
    | chain hvalue hlink => exact hvalue.unchainAs hlink hu
  | plugin owner _ hu ih =>
    cases ih with
    | chain _ hlink => exact hlink.pluginCall hu
  | update _ hu ih =>
    cases ih with
    | assign htarget hlink => exact htarget.unchainAs hlink hu

end Node

/-- A function that comes of a script has defaults apart, and no parameter that takes void. -/
theorem Program.function_of_arises {source : String} {program : Program}
    (hread : Program.ofSource source = .ok program) {s : Span} {defined : String}
    {params : List Param} {body : Node}
    (h : Node.Arises program.statements (.functionDef s defined params body)) :
    (∀ p ∈ params, p.kind ≠ .void) ∧ ∀ name, body.DefaultsApart name true := by
  constructor
  · intro p hp hvoid
    cases h.declares (Program.declares_of_ofSource hread) with
    | functionDef hparams =>
      have hstorable := hparams p hp
      rw [hvoid] at hstorable
      cases hstorable
  · intro name
    obtain ⟨_, hformed⟩ := h.formed (Program.formed_of_ofSource hread)
    obtain ⟨role, hbody⟩ := hformed.of_mem_parts List.mem_cons_self
    exact hbody.statement.defaultsApart name

/-! ## Runs -/

namespace Evaluator

structure DefaultsGiveWay : Prop where
  grown : ∀ host depth env n (m : Machine),
    m.scopes.Grown (((ofDepth host depth).evaluate env n).outcome m).2.scopes
  -- a default stores its value where the parameter lacks one, and nothing elsewhere
  stores : ∀ host parts env s name value v (m n : Machine), env.isGlobal = false →
    m.scopes.lacks env.here name →
    (valueOf parts env value).outcome { m with span := s } = (.ok v, n) → v.isStorable →
    (node host parts env (.defaultValue s name value)).outcome m
      = (.ok (.proceed .void), { n with scopes := n.scopes.assign env name v })
  stores_nothing : ∀ host parts env s name value (m : Machine),
    m.scopes.lacks env.here name = false →
    ((node host parts env (.defaultValue s name value)).outcome m).2 = { m with span := s }
  -- an argument that was passed is not replaced
  passed : ∀ (f : UserFunction) (args : ArgList) name v,
    f.lastAimed? name 0 args.toList = some v → (v = .void → ∀ p ∈ f.params, p.kind ≠ .void) →
    ∀ g host depth m, (guardedCall g name host depth f args).outcome m
      = ((ofDepth host depth).invoke (.user f) args).outcome m
  -- at most one default is filled in
  once : ∀ (f : UserFunction) name, f.body.DefaultsApart name true →
    ∀ args host depth m, ∃ n start, ∀ g : Guard, g.spare n start →
      (guardedCall g name host depth f args).outcome m
        = ((ofDepth host depth).invoke (.user f) args).outcome m
  -- functions of scripts meet the provisos
  scripts : ∀ source program, Program.ofSource source = .ok program →
    ∀ s defined params body,
      Node.Arises program.statements (.functionDef s defined params body) →
      (∀ p ∈ params, p.kind ≠ .void) ∧ ∀ name, body.DefaultsApart name true

/-- However the evaluation of a node ends, the scopes have only grown: no variable is lost, its
binding stays and its value does not become void, and new ones are local.  A default for a parameter
that does not lack a value changes nothing.  During a call of a user function an argument that was
passed for a parameter is therefore never replaced by a default, unless void is passed to a function
that takes it.  And if defaults for the parameter are apart in the body, one of them is filled in at
most: there is one moment, a tree and the machine from which it is come to, such that nobody notices
what is done instead of filling in a default at any other.  The functions that come of scripts have
defaults apart and do not take void. -/
theorem defaults_never_override : DefaultsGiveWay where
  grown := grown_evaluate
  stores host _ _ s _ _ _ _ _ := outcome_default_of_lacks host s
  stores_nothing host _ _ s _ value _ := outcome_default_of_filled host s value
  passed _ _ _ _ := outcome_guardedCall_of_passed
  once _ _ := exists_outcome_guardedCall
  scripts _ _ hread _ _ _ _ := Program.function_of_arises hread

/-- `function pick(opt bool b) {default(b, true); default(b, false); return b;}` -/
def pick : UserFunction :=
  let default (b : Bool) : Node := .defaultValue .nowhere "b" (.leaf .nowhere (.boolean b))
  { name := "pick"
    params := [⟨"b", .boolean, true, .nowhere⟩]
    body := .sequence .nowhere
      [default true, default false, .returnValue .nowhere (some (.identifier .nowhere "b"))]
    home := .global }

theorem defaults_never_override_pick :
    let host : Host := { pluginDir := "", scriptExtension := "" }
    let passed : ArgList := ⟨[], [("b", .boolean false)]⟩
    let env := (Scopes.start.addChild pick.home).1
    let other : Node := .leaf .nowhere (.boolean true)
    (((ofDepth host 9).invoke (.user pick) passed).outcome {}).1 = .ok (.boolean false) ∧
    (∀ g, (guardedCall g "b" host 9 pick passed).outcome {}
      = ((ofDepth host 9).invoke (.user pick) passed).outcome {}) ∧
    (∀ parts, ((node host parts env (.defaultValue .nowhere "b" other)).outcome
      (Machine.entered {} pick passed)).2.scopes.value? env "b" = some (.boolean false)) ∧
    ((node host (ofDepth host 9) env (.defaultValue .nowhere "b" other)).outcome
      (Machine.entered {} pick .empty)).2.scopes.value? env "b" = some (.boolean true) ∧
    (((ofDepth host 9).invoke (.user pick) .empty).outcome {}).1 = .ok (.boolean true) ∧
    ∃ n start, ∀ g : Guard, g.spare n start →
      (guardedCall g "b" host 9 pick .empty).outcome {}
        = ((ofDepth host 9).invoke (.user pick) .empty).outcome {} := by
  intro host passed env other
  have hall := defaults_never_override
  have hbody : pick.body.DefaultsApart "b" true := by
    have leaf {may : Bool} (v : Value) : (Node.leaf .nowhere v).DefaultsApart "b" may :=
      .parts rfl (List.forall_mem_nil _)
    refine .parts rfl (List.forall_mem_cons.mpr ⟨.defaultValue (leaf _), ?_⟩)
    refine List.forall_mem_cons.mpr ⟨.defaultValue (leaf _), List.forall_mem_singleton.mpr ?_⟩
    exact .parts rfl (List.forall_mem_singleton.mpr (leaf _))
  refine ⟨rfl, fun g => ?_, fun parts => ?_, ?_, rfl, ?_⟩
  · exact hall.passed pick passed "b" (.boolean false) rfl nofun g host 9 {}
  · rw [hall.stores_nothing host parts env .nowhere "b" other (Machine.entered {} pick passed) rfl]
    rfl
  · rw [hall.stores host (ofDepth host 9) env .nowhere "b" other (.boolean true)
      (Machine.entered {} pick .empty) _ rfl rfl rfl rfl]
    rfl
  · exact hall.once pick "b" hbody .empty host 9 {}

/-- A function with one parameter and a body that ends in returning it. -/
def returning (kind : ValueKind) (first : Node) : UserFunction :=
  { name := "f"
    params := [⟨"b", kind, true, .nowhere⟩]
    body := .sequence .nowhere
      [first, .returnValue .nowhere (some (.identifier .nowhere "b"))]
    home := .global }

/-- `default(b, x)` where `x` is a block that ends in `false`, with `default(b, true)` in front. -/
def nestedDefault : Node :=
  let literal (b : Bool) : Node := .leaf .nowhere (.boolean b)
  .defaultValue .nowhere "b"
    (.sequence .nowhere [.defaultValue { start := 1 } "b" (literal true), literal false])

/-- A default in the value of another is filled in, and then overridden by the other, so that no one
of them is the only one.  And where a parameter takes void, a void that is passed for it is
replaced. -/
theorem defaults_override :
    let host : Host := { pluginDir := "", scriptExtension := "" }
    let nested := returning .boolean nestedDefault
    let voided := returning .void (.defaultValue .nowhere "b" (.leaf .nowhere (.boolean true)))
    let void : ArgList := ⟨[], [("b", .void)]⟩
    (((ofDepth host 9).invoke (.user nested) .empty).outcome {}).1 = .ok (.boolean false) ∧
    (¬ ∃ n start, ∀ g : Guard, g.spare n start →
      (guardedCall g "b" host 9 nested .empty).outcome {}
        = ((ofDepth host 9).invoke (.user nested) .empty).outcome {}) ∧
    voided.lastAimed? "b" 0 void.toList = some .void ∧
    (((ofDepth host 9).invoke (.user voided) void).outcome {}).1 = .ok (.boolean true) := by
  intro host nested voided void
  have hvalue : (((ofDepth host 9).invoke (.user nested) .empty).outcome {}).1
      = .ok (.boolean false) := rfl
  refine ⟨hvalue, ?_, rfl, rfl⟩
  rintro ⟨n, start, h⟩
  -- an alarm at either of the two defaults is noticed
  have alarmed (place : Nat) (hplace : place = 0 ∨ place = 1) : n.span.start = place := by
    by_contra hother
    let g : Guard := ⟨Eval.fail .defaultOutsideFunction, fun n _ => n.span.start != place⟩
    have hsame := h g (bne_iff_ne.mpr hother)
    have hstopped : ∃ stop, ((guardedCall g "b" host 9 nested .empty).outcome {}).1
        = .error stop := by
      rcases hplace with rfl | rfl <;> exact ⟨_, rfl⟩
    obtain ⟨stop, hstop⟩ := hstopped
    rw [hsame, hvalue] at hstop
    cases hstop
  have hboth := (alarmed 0 (.inl rfl)).symm.trans (alarmed 1 (.inr rfl))
  cases hboth

end Evaluator
end ClipScript
