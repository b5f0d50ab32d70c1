/-
How arguments reach their parameters, completely.

`UserFunction.bind` hands out the unnamed arguments and then the named ones.  As a single pass over
all arguments with their positions (`pass`), in which a position without a parameter would show,
it is easier to reason about, and the two are the same once the number of arguments is right
(`pass_toList`): there are at least as many parameters as there are mandatory ones in front.

The pass stops at the first argument that is refused (`Refuses`), and if none is, it stores them in
order.  Every parameter was declared before, so storing keeps bindings and the last argument
aimed at a name wins.
-/
import ClipScript.Proofs.Binding

namespace ClipScript
namespace UserFunction

def option? (f : UserFunction) (name : String) : Option Param :=
  f.params.find? fun p => p.optional && p.name == name

def lastParam? (f : UserFunction) (name : String) : Option Param :=
  f.params.reverse.find? (·.name == name)

/-- The name of the variable that the argument in position `i` is meant for. -/
def aim? (f : UserFunction) (i : Nat) (arg : Labelled Value) : Option String :=
  match arg.label with
  | none => (f.params[i]?).map (·.name)
  | some name => some name

/-- The last argument aimed at a name, of those from position `i` on. -/
def lastAimed? (f : UserFunction) (name : String) : Nat → List (Labelled Value) → Option Value
  | _, [] => none
  | i, arg :: rest =>
    (f.lastAimed? name (i + 1) rest).or
      (if f.aim? i arg = some name then some arg.content else none)

/-- An argument in position `i` that has the kind of its parameter. -/
inductive Accepts (f : UserFunction) (i : Nat) : Labelled Value → Prop where
  | unnamed {value : Value} {p : Param} : f.params[i]? = some p → value.kind = p.kind →
      Accepts f i ⟨none, value⟩
  | named {name : String} {value : Value} {p : Param} : f.option? name = some p →
      value.kind = p.kind → Accepts f i ⟨some name, value⟩

/-- An argument in position `i` that has another kind than its parameter, or a name that no optional
parameter has, and the fault. -/
inductive Refuses (f : UserFunction) (i : Nat) : Labelled Value → Fault → Prop where
  | unnamed {value : Value} {p : Param} : f.params[i]? = some p → value.kind ≠ p.kind →
      Refuses f i ⟨none, value⟩ (.parameterMismatch (i + 1) f.name p.kind value.kind)
  | named {name : String} {value : Value} {p : Param} : f.option? name = some p →
      value.kind ≠ p.kind →
      Refuses f i ⟨some name, value⟩ (.optionalMismatch name p.kind value.kind)
  | unknown {name : String} {value : Value} : f.option? name = none →
      Refuses f i ⟨some name, value⟩ (.unknownOptional name f.name)

def AcceptsFrom (f : UserFunction) (i : Nat) (args : List (Labelled Value)) : Prop :=
  ∀ j arg, args[j]? = some arg → f.Accepts (i + j) arg

/-- One pass over all arguments from position `i` on.  There is no result if the pass comes to an
unnamed argument in a position without a parameter. -/
def pass (f : UserFunction) :
    Nat → List (Labelled Value) → Variables → Option (Except Fault Unit × Variables)
  | _, [], vars => some (.ok (), vars)
  | i, ⟨none, value⟩ :: rest, vars =>
    match f.params[i]? with
    | none => none
    | some p =>
      if value.kind = p.kind then f.pass (i + 1) rest (vars.assign p.name value)
      else some (.error (.parameterMismatch (i + 1) f.name p.kind value.kind), vars)
  | i, ⟨some name, value⟩ :: rest, vars =>
    match f.option? name with
    | none => some (.error (.unknownOptional name f.name), vars)
    | some p =>
      if value.kind = p.kind then f.pass (i + 1) rest (vars.assign p.name value)
      else some (.error (.optionalMismatch name p.kind value.kind), vars)

variable {f : UserFunction} {vars vars' : Variables}

/-! ## One pass instead of two -/

theorem run_bindNamed_cons (name : String) (value : Value) (rest : List (String × Value))
    (vars : Variables) :
    (f.bindNamed ((name, value) :: rest)).run.run vars =
      match f.option? name with
      | none => (.error (.unknownOptional name f.name), vars)
      | some p =>
        if value.kind = p.kind then (f.bindNamed rest).run.run (vars.assign p.name value)
        else (.error (.optionalMismatch name p.kind value.kind), vars) := by
  rw [bindNamed]
  change StateT.run (ExceptT.run (match f.option? name with | none => _ | some p => _)) vars = _
  cases f.option? name with
  | none => rfl
  | some p =>
    dsimp only
    split
    · rfl
    · next hkind => rw [if_pos (Decidable.not_not.mp hkind)]; rfl

theorem run_bindUnnamed_cons (i : Nat) (p : Param) (params : List Param) (value : Value)
    (values : List Value) (named : List (String × Value)) (vars : Variables) :
    (f.bindUnnamed i (p :: params) (value :: values) >>= fun _ => f.bindNamed named).run.run vars =
      if value.kind = p.kind then
        (f.bindUnnamed (i + 1) params values >>= fun _ => f.bindNamed named).run.run
          (vars.assign p.name value)
      else (.error (.parameterMismatch (i + 1) f.name p.kind value.kind), vars) := by
  rw [bindUnnamed]
  dsimp only
  split
  · rfl
  · next hkind => rw [if_pos (Decidable.not_not.mp hkind)]; rfl

theorem pass_named (i : Nat) (named : List (String × Value)) (vars : Variables) :
    f.pass i (named.map fun (name, value) => ⟨some name, value⟩) vars
      = some ((f.bindNamed named).run.run vars) := by
  induction named generalizing i vars with
  | nil => rfl
  | cons arg rest ih =>
    obtain ⟨name, value⟩ := arg
    rw [List.map_cons, pass, run_bindNamed_cons]
    cases f.option? name with
    | none => rfl
    | some p =>
      dsimp only
      split
      · exact ih _ _
      · rfl

/-- As long as there are parameters for the unnamed arguments, the pass has a result, and it is that
of handing out the unnamed arguments and then the named ones. -/
theorem pass_append_named {i : Nat} {values : List Value} (h : i + values.length ≤ f.params.length)
    (named : List (String × Value)) (vars : Variables) :
    f.pass i (values.map (⟨none, ·⟩) ++ named.map fun (name, value) => ⟨some name, value⟩) vars =
      some ((f.bindUnnamed i (f.params.drop i) values >>= fun _ => f.bindNamed named).run.run
        vars) := by
  induction values generalizing i vars with
  | nil =>
    rw [List.map_nil, List.nil_append, pass_named]
    cases f.params.drop i <;> rfl
  | cons value values ih =>
    rw [List.length_cons] at h
    have hi : i < f.params.length := by omega
    have hnext : f.params[i]? = some f.params[i] := List.getElem?_eq_getElem hi
    rw [List.map_cons, List.cons_append, pass, hnext, List.drop_eq_getElem_cons hi,
      run_bindUnnamed_cons]
    dsimp only
    split
    · exact ih (by omega) _
    · rfl

theorem mandatoryCount_le (f : UserFunction) : f.mandatoryCount ≤ f.params.length :=
  (List.takeWhile_prefix _).length_le

theorem run_bind (f : UserFunction) (args : ArgList) :
    (f.bind args).run.run {} =
      if args.unnamed.length = f.mandatoryCount then
        (f.bindUnnamed 0 f.params args.unnamed >>= fun _ => f.bindNamed args.named).run.run
          (f.declareParams {})
      else
        (.error (.mandatoryCount f.mandatoryCount args.unnamed.length), f.declareParams {}) := by
  rw [bind]
  dsimp only
  split
  · rfl
  · next hcount => rw [if_pos (Decidable.not_not.mp hcount)]; rfl

theorem pass_toList {args : ArgList} (h : args.unnamed.length = f.mandatoryCount) :
    f.pass 0 args.toList (f.declareParams {}) = some ((f.bind args).run.run {}) := by
  have hle : 0 + args.unnamed.length ≤ f.params.length := by
    rw [h, Nat.zero_add]
    exact f.mandatoryCount_le
  rw [run_bind, if_pos h]
  exact pass_append_named hle args.named _

/-! ## One argument after the other -/

theorem name_of_option? {name : String} {p : Param} (h : f.option? name = some p) :
    p.name = name := by
  have hfound := List.find?_some h
  rw [Bool.and_eq_true] at hfound
  exact eq_of_beq hfound.2

/-- What the pass does with an argument: it stores it, or stops at it, or finds no parameter. -/
theorem pass_cons (i : Nat) (arg : Labelled Value) (rest : List (Labelled Value))
    (vars : Variables) :
    (f.Accepts i arg ∧ ∃ p ∈ f.params, f.aim? i arg = some p.name ∧
      f.pass i (arg :: rest) vars = f.pass (i + 1) rest (vars.assign p.name arg.content)) ∨
    (∃ fault, f.Refuses i arg fault ∧ f.pass i (arg :: rest) vars = some (.error fault, vars)) ∨
    f.pass i (arg :: rest) vars = none := by
  obtain ⟨_ | name, value⟩ := arg
  · rw [pass, aim?]
    cases hp : f.params[i]? with
    | none => exact .inr (.inr rfl)
    | some p =>
      dsimp only
      split
      · next hkind => exact .inl ⟨.unnamed hp hkind, p, List.mem_of_getElem? hp, rfl, rfl⟩
      · next hkind => exact .inr (.inl ⟨_, .unnamed hp hkind, rfl⟩)
  · rw [pass, aim?]
    cases hp : f.option? name with
    | none => exact .inr (.inl ⟨_, .unknown hp, rfl⟩)
    | some p =>
      dsimp only
      split
      · next hkind =>
        have hname : some name = some p.name := by rw [name_of_option? hp]
        exact .inl ⟨.named hp hkind, p, List.mem_of_find?_eq_some hp, hname, rfl⟩
      · next hkind => exact .inr (.inl ⟨_, .named hp hkind, rfl⟩)

theorem acceptsFrom_nil (f : UserFunction) (i : Nat) : f.AcceptsFrom i [] := nofun

theorem acceptsFrom_cons {i : Nat} {arg : Labelled Value} {rest : List (Labelled Value)} :
    f.AcceptsFrom i (arg :: rest) ↔ f.Accepts i arg ∧ f.AcceptsFrom (i + 1) rest := by
  constructor
  · intro h
    refine ⟨h 0 arg rfl, fun j later hlater => ?_⟩
    rw [Nat.add_right_comm]
    exact h (j + 1) later hlater
  · rintro ⟨harg, hrest⟩ (_ | j) later hlater
    · cases hlater
      exact harg
    · have hlater := hrest j later hlater
      rwa [Nat.add_right_comm] at hlater

theorem Accepts.not_refuses {i : Nat} {arg : Labelled Value} {fault : Fault}
    (h : f.Accepts i arg) : ¬ f.Refuses i arg fault := by
  intro hrefuses
  cases h with
  | unnamed hp hkind =>
    cases hrefuses with
    | unnamed hq hother => exact hother (hkind.trans (by rw [Option.some.inj (hp.symm.trans hq)]))
  | named hp hkind =>
    cases hrefuses with
    | named hq hother => exact hother (hkind.trans (by rw [Option.some.inj (hp.symm.trans hq)]))
    | unknown hnone => cases hp.symm.trans hnone

theorem acceptsFrom_of_pass {i : Nat} {args : List (Labelled Value)}
    (h : f.pass i args vars = some (.ok (), vars')) : f.AcceptsFrom i args := by
  induction args generalizing i vars with
  | nil => exact f.acceptsFrom_nil i
  | cons arg rest ih =>
    rcases pass_cons i arg rest vars with
      ⟨haccepts, p, -, -, hpass⟩ | ⟨fault, -, hpass⟩ | hpass <;> rw [hpass] at h
    · exact acceptsFrom_cons.mpr ⟨haccepts, ih h⟩
    · cases h
    · cases h

/-- A pass that fails has come to an argument that is refused, and has accepted those before it. -/
theorem refuses_of_pass {i : Nat} {args : List (Labelled Value)} {fault : Fault}
    (h : f.pass i args vars = some (.error fault, vars')) :
    ∃ before arg after, args = before ++ arg :: after ∧ f.AcceptsFrom i before ∧
      f.Refuses (i + before.length) arg fault := by
  induction args generalizing i vars with
  | nil => cases h
  | cons arg rest ih =>
    rcases pass_cons i arg rest vars with
      ⟨haccepts, p, -, -, hpass⟩ | ⟨found, hrefuses, hpass⟩ | hpass <;> rw [hpass] at h
    · obtain ⟨before, later, after, rfl, hbefore, hlater⟩ := ih h
      refine ⟨arg :: before, later, after, rfl, acceptsFrom_cons.mpr ⟨haccepts, hbefore⟩, ?_⟩
      rwa [List.length_cons, ← Nat.add_assoc, Nat.add_right_comm]
    · cases h
      exact ⟨[], arg, rest, rfl, f.acceptsFrom_nil i, hrefuses⟩
    · cases h

/-! ## What the variables hold -/

theorem find?_assign_of_isSome {name : String} (h : (vars.find? name).isSome) (value : Value)
    (other : String) :
    (vars.assign name value).find? other
      = (vars.find? other).map fun v => if other = name then ⟨value, v.binding⟩ else v := by
  obtain ⟨old, hold⟩ := Option.isSome_iff_exists.mp h
  rw [Variables.assign, Table.find?_insert]
  split
  · next hname => rw [hname, hold]; rfl
  · rw [Option.map_id']

/-- Storing the arguments keeps bindings, and the last one aimed at a name is what its variable
holds. -/
theorem find?_of_pass {i : Nat} {args : List (Labelled Value)}
    (hdeclared : ∀ p ∈ f.params, (vars.find? p.name).isSome)
    (h : f.pass i args vars = some (.ok (), vars')) (name : String) :
    vars'.find? name
      = (vars.find? name).map fun v => ⟨(f.lastAimed? name i args).getD v.value, v.binding⟩ := by
  induction args generalizing i vars with
  | nil =>
    cases h
    exact (Option.map_id' ..).symm
  | cons arg rest ih =>
    rcases pass_cons i arg rest vars with
      ⟨-, p, hp, haim, hpass⟩ | ⟨fault, -, hpass⟩ | hpass <;> rw [hpass] at h
    · have hassign := find?_assign_of_isSome (hdeclared p hp) arg.content
      have hstill : ∀ q ∈ f.params, ((vars.assign p.name arg.content).find? q.name).isSome := by
        intro q hq
        rw [hassign, Option.isSome_map]
        exact hdeclared q hq
      rw [ih hstill h, hassign, Option.map_map, lastAimed?, haim]
      refine congrFun (congrArg Option.map (funext fun v => ?_)) _
      -- a later argument aimed at the name wins, and else this one if it is aimed at it
      by_cases hname : name = p.name
      · cases f.lastAimed? name (i + 1) rest <;> simp [hname]
      · simp [hname, Ne.symm hname]
    · cases h
    · cases h

theorem find?_foldl_declare (params : List Param) (vars : Variables) (name : String) :
    (params.foldl (fun vars p => vars.declare p.name .void p.binding) vars).find? name
      = ((params.reverse.find? (·.name == name)).map fun p => ⟨.void, p.binding⟩).or
          (vars.find? name) := by
  induction params generalizing vars with
  | nil => rfl
  | cons p rest ih =>
    rw [List.foldl_cons, ih, Variables.declare, Table.find?_insert, List.reverse_cons,
      List.find?_append]
    cases rest.reverse.find? (·.name == name) with
    | some later => rfl
    | none =>
      by_cases hname : name = p.name
      · simp [hname]
      · simp [hname, Ne.symm hname]

theorem find?_declareParams_eq (f : UserFunction) (name : String) :
    (f.declareParams {}).find? name = (f.lastParam? name).map fun p => ⟨.void, p.binding⟩ := by
  rw [declareParams, find?_foldl_declare]
  exact Option.or_none

theorem isSome_declareParams {p : Param} (h : p ∈ f.params) :
    ((f.declareParams {}).find? p.name).isSome := by
  rw [find?_declareParams_eq, Option.isSome_map, lastParam?, List.find?_isSome]
  exact ⟨p, List.mem_reverse.mpr h, beq_self_eq_true p.name⟩

/-! ## Binding as a whole -/

theorem Refuses.kind {i : Nat} {arg : Labelled Value} {fault : Fault} (h : f.Refuses i arg fault) :
    fault.kind = .type ∨ fault.kind = .unknownParameter := by
  cases h with
  | unnamed => exact .inl rfl
  | named => exact .inl rfl
  | unknown => exact .inr rfl

/-- Binding arguments in a fresh scope, completely, whatever names the parameters share and in
whatever order they stand.  No unnamed argument is without a parameter once their number is right.
Binding succeeds if the number is right and every argument is accepted, and else fails because of
the number or at the first argument that is refused.  When it succeeds, the variables are the
parameters, each with the binding of the last parameter of that name and the last argument aimed at
it, or void. -/
theorem bind_binds (f : UserFunction) (args : ArgList) :
    let outcome := ((f.bind args).run.run {}).1
    let vars := ((f.bind args).run.run {}).2
    (args.unnamed.length = f.mandatoryCount →
      f.pass 0 args.toList (f.declareParams {}) = some (outcome, vars)) ∧
    (outcome = .ok () ↔
      args.unnamed.length = f.mandatoryCount ∧ f.AcceptsFrom 0 args.toList) ∧
    (∀ fault, outcome = .error fault →
      args.unnamed.length ≠ f.mandatoryCount ∧ fault.kind = .arity ∧
        fault = .mandatoryCount f.mandatoryCount args.unnamed.length ∨
      args.unnamed.length = f.mandatoryCount ∧
        (fault.kind = .type ∨ fault.kind = .unknownParameter) ∧
        ∃ before arg after, args.toList = before ++ arg :: after ∧ f.AcceptsFrom 0 before ∧
          f.Refuses before.length arg fault) ∧
    (outcome = .ok () → ∀ name, vars.find? name = (f.lastParam? name).map fun p =>
      ⟨(f.lastAimed? name 0 args.toList).getD .void, p.binding⟩) := by
  intro outcome vars
  by_cases hcount : args.unnamed.length = f.mandatoryCount
  · have hpass : f.pass 0 args.toList (f.declareParams {}) = some (outcome, vars) :=
      pass_toList hcount
    refine ⟨fun _ => hpass, ?_⟩
    cases houtcome : outcome with
    | ok u =>
      rw [houtcome] at hpass
      refine ⟨⟨fun _ => ⟨hcount, acceptsFrom_of_pass hpass⟩, fun _ => rfl⟩, nofun, ?_⟩
      intro _ name
      rw [find?_of_pass (fun p => isSome_declareParams) hpass, find?_declareParams_eq,
        Option.map_map]
      rfl
    | error fault =>
      rw [houtcome] at hpass
      obtain ⟨before, arg, after, hsplit, hbefore, hrefuses⟩ := refuses_of_pass hpass
      rw [Nat.zero_add] at hrefuses
      refine ⟨⟨nofun, fun ⟨_, haccepts⟩ => ?_⟩, ?_, nofun⟩
      · have harg : f.Accepts (0 + before.length) arg :=
          haccepts before.length arg (by simp [hsplit])
        rw [Nat.zero_add] at harg
        exact absurd hrefuses harg.not_refuses
      · rintro _ ⟨⟩
        exact .inr ⟨hcount, hrefuses.kind, before, arg, after, hsplit, hbefore, hrefuses⟩
  · have houtcome : outcome = .error (.mandatoryCount f.mandatoryCount args.unnamed.length) := by
      simp only [outcome, run_bind, if_neg hcount]
    rw [houtcome]
    refine ⟨fun h => absurd h hcount, ⟨nofun, fun h => absurd h.1 hcount⟩, ?_, nofun⟩
    rintro _ ⟨⟩
    exact .inl ⟨hcount, rfl, rfl⟩

/-- A mandatory and an optional parameter share a name, and both get an argument. -/
theorem bind_binds_sharedName :
    let param (optional : Bool) : Param := ⟨"x", .boolean, optional, .nowhere⟩
    let f : UserFunction := ⟨"f", [param false, param true], .sequence .nowhere [], .global⟩
    let args : ArgList := ⟨[.boolean true], [("x", .boolean false)]⟩
    ((f.bind args).run.run {}).1 = .ok () ∧
    ((f.bind args).run.run {}).2.find? "x" = some ⟨.boolean false, .optional⟩ := by
  intro param f args
  obtain ⟨-, -, -, hvars⟩ := bind_binds f args
  exact ⟨rfl, hvars rfl "x"⟩

end UserFunction
end ClipScript
