/-
A named argument, as a user function gets it and as a native function asks for it.

A call may pass several arguments under one name.  Binding stores them one after the other, so an
optional parameter ends up with the last of them, and a native function that asks for the name is
given the first.  Apart from that the two see the same (`option_and_parameter`): an optional
parameter is void if and only if a native function is told that nothing was passed, and if the first
and the last argument of a name have the same value, both get that value.
-/
import ClipScript.Proofs.Arguments
import ClipScript.Proofs.Passing
import Mathlib.Data.List.Nodup
import Mathlib.Data.List.TakeWhile

namespace ClipScript

namespace ArgList

def firstNamed? (args : ArgList) (name : String) : Option Value := args.named.lookup name

def lastNamed? (args : ArgList) (name : String) : Option Value := args.named.reverse.lookup name

theorem mem_named_of_lastNamed? {args : ArgList} {name : String} {v : Value}
    (h : args.lastNamed? name = some v) : (name, v) ∈ args.named := by
  obtain ⟨before, after, hnamed, -⟩ := List.lookup_eq_some_iff.mp h
  rw [← List.mem_reverse, hnamed]
  simp

theorem mem_named_of_firstNamed? {args : ArgList} {name : String} {v : Value}
    (h : args.firstNamed? name = some v) : (name, v) ∈ args.named := by
  obtain ⟨before, after, hnamed, -⟩ := List.lookup_eq_some_iff.mp h
  rw [hnamed]
  simp

theorem firstNamed?_eq_none_iff {args : ArgList} {name : String} :
    args.firstNamed? name = none ↔ args.lastNamed? name = none := by
  simp [firstNamed?, lastNamed?, List.lookup_eq_none_iff]

end ArgList

namespace UserFunction

variable {f : UserFunction}

theorem lastParam?_eq (hdistinct : (f.params.map Param.name).Nodup) {p : Param}
    (hp : p ∈ f.params) : f.lastParam? p.name = some p := by
  have hsome : (f.lastParam? p.name).isSome := by
    rw [lastParam?, List.find?_isSome]
    exact ⟨p, List.mem_reverse.mpr hp, beq_self_eq_true p.name⟩
  obtain ⟨q, hq⟩ := Option.isSome_iff_exists.mp hsome
  have hmem : q ∈ f.params := List.mem_reverse.mp (List.mem_of_find?_eq_some hq)
  have hname : (q.name == p.name) = true :=
    List.find?_some (p := fun q : Param => q.name == p.name) hq
  rw [hq, List.inj_on_of_nodup_map hdistinct hmem hp (eq_of_beq hname)]

theorem option?_eq (hdistinct : (f.params.map Param.name).Nodup) {p : Param} (hp : p ∈ f.params)
    (hoptional : p.optional) : f.option? p.name = some p := by
  have hsome : (f.option? p.name).isSome := by
    rw [option?, List.find?_isSome]
    exact ⟨p, hp, by simp [hoptional]⟩
  obtain ⟨q, hq⟩ := Option.isSome_iff_exists.mp hsome
  have hmem : q ∈ f.params := List.mem_of_find?_eq_some hq
  rw [hq, List.inj_on_of_nodup_map hdistinct hmem hp (name_of_option? hq)]

theorem optional_eq_false {i : Nat} (hi : i < f.mandatoryCount) {q : Param}
    (hq : f.params[i]? = some q) : q.optional = false := by
  have hi : i < (f.params.takeWhile (!·.optional)).length := hi
  have hfront : (f.params.takeWhile (!·.optional))[i]? = some q := by
    rw [List.getElem?_eq_getElem hi, (List.takeWhile_prefix _).getElem hi,
      ← List.getElem?_eq_getElem, hq]
  simpa using List.mem_takeWhile_imp (List.mem_of_getElem? hfront)

theorem lastAimed?_named (name : String) (i : Nat) (named : List (String × Value)) :
    f.lastAimed? name i (named.map fun (label, v) => ⟨some label, v⟩)
      = named.reverse.lookup name := by
  induction named generalizing i with
  | nil => rfl
  | cons arg rest ih =>
    obtain ⟨label, v⟩ := arg
    rw [List.map_cons, lastAimed?, ih, List.reverse_cons, List.lookup_append]
    by_cases hname : name = label
    · simp [aim?, hname]
    · simp [aim?, Ne.symm hname, List.lookup_cons, beq_false_of_ne hname]

theorem lastAimed?_append (name : String) {i : Nat} {values : List Value}
    (h : ∀ j < i + values.length, ∀ q, f.params[j]? = some q → q.name ≠ name)
    (rest : List (Labelled Value)) :
    f.lastAimed? name i (values.map (⟨none, ·⟩) ++ rest)
      = f.lastAimed? name (i + values.length) rest := by
  induction values generalizing i with
  | nil => rfl
  | cons v values ih =>
    have hother : ¬ f.aim? i ⟨none, v⟩ = some name := by
      intro haim
      obtain ⟨q, hq, hname⟩ := Option.map_eq_some_iff.mp haim
      exact h i (by simp) q hq hname
    have hlength : i + 1 + values.length = i + (v :: values).length := by
      rw [List.length_cons]
      omega
    rw [List.map_cons, List.cons_append, lastAimed?, if_neg hother, Option.or_none,
      ih (hlength ▸ h), hlength]

/-- An optional parameter whose name no other parameter has is the target of the arguments passed
under its name, and of no others. -/
theorem lastAimed?_toList (hdistinct : (f.params.map Param.name).Nodup) {p : Param}
    (hp : p ∈ f.params) (hoptional : p.optional) {args : ArgList}
    (hcount : args.unnamed.length = f.mandatoryCount) :
    f.lastAimed? p.name 0 args.toList = args.lastNamed? p.name := by
  have hmandatory : ∀ j < 0 + args.unnamed.length, ∀ q, f.params[j]? = some q →
      q.name ≠ p.name := by
    intro j hj q hq hname
    rw [Nat.zero_add, hcount] at hj
    have hqp : q = p := List.inj_on_of_nodup_map hdistinct (List.mem_of_getElem? hq) hp hname
    rw [← hqp, optional_eq_false hj hq] at hoptional
    cases hoptional
  rw [ArgList.toList, lastAimed?_append p.name hmandatory, lastAimed?_named]
  rfl

theorem kind_of_acceptsFrom {args : ArgList} (h : f.AcceptsFrom 0 args.toList) {p : Param}
    {v : Value} (hp : f.option? p.name = some p) (hv : (p.name, v) ∈ args.named) :
    v.kind = p.kind := by
  have hmem : (⟨some p.name, v⟩ : Labelled Value) ∈ args.toList :=
    List.mem_append_right _ (List.mem_map.mpr ⟨_, hv, rfl⟩)
  obtain ⟨j, hj⟩ := List.mem_iff_getElem?.mp hmem
  cases h j _ hj with
  | named hq hkind =>
    cases hp.symm.trans hq
    exact hkind

theorem option_eq_firstNamed? {args : ArgList} {name : String} {kind : ValueKind}
    (h : ∀ v, args.firstNamed? name = some v → v.kind = kind) :
    args.option name kind = .ok (args.firstNamed? name) := by
  rw [ArgList.option]
  cases hfirst : args.named.lookup name with
  | none => rw [ArgList.firstNamed?, hfirst]
  | some v =>
    have hkind : v.kind = kind := h v hfirst
    rw [ArgList.firstNamed?, hfirst]
    exact if_pos hkind

/-- Where binding succeeds, an optional parameter with a name of its own holds the last argument
passed under that name, or is void, and a native function that asks the same list for that name and
kind is given the first one, or told that there is none.  So the parameter is void if and only if
the native function is told that there is none, and they get the same value if and only if the first
and the last argument have the same value. -/
theorem option_and_parameter (f : UserFunction) (args : ArgList) (p : Param)
    (hdistinct : (f.params.map Param.name).Nodup) (hp : p ∈ f.params) (hoptional : p.optional)
    (hstorable : p.kind.isStorable) (hbind : ((f.bind args).run.run {}).1 = .ok ()) :
    ∃ held passed, ((f.bind args).run.run {}).2.find? p.name = some ⟨held, .optional⟩ ∧
      args.option p.name p.kind = .ok passed ∧
      (held = .void ↔ passed = none) ∧
      ((∀ v, v ≠ .void → (held = v ↔ passed = some v)) ↔
        args.firstNamed? p.name = args.lastNamed? p.name) := by
  have hcount : args.unnamed.length = f.mandatoryCount := by
    by_contra hcount
    rw [run_bind, if_neg hcount] at hbind
    cases hbind
  have hpass : f.pass 0 args.toList (f.declareParams {})
      = some (.ok (), ((f.bind args).run.run {}).2) := by
    rw [pass_toList hcount, ← hbind]
    rfl
  have hkind := fun v hv => kind_of_acceptsFrom (v := v) (acceptsFrom_of_pass hpass)
    (option?_eq hdistinct hp hoptional) hv
  have hne : ∀ v, (p.name, v) ∈ args.named → v ≠ .void := by
    rintro v hv rfl
    rw [← hkind _ hv] at hstorable
    cases hstorable
  refine ⟨(args.lastNamed? p.name).getD .void, args.firstNamed? p.name, ?_, ?_, ?_, ?_⟩
  · rw [find?_of_pass (fun q => isSome_declareParams) hpass, find?_declareParams_eq,
      lastParam?_eq hdistinct hp, lastAimed?_toList hdistinct hp hoptional hcount]
    simp [Param.binding, hoptional]
  · exact option_eq_firstNamed? fun v hv => hkind v (ArgList.mem_named_of_firstNamed? hv)
  · rw [ArgList.firstNamed?_eq_none_iff]
    cases hlast : args.lastNamed? p.name with
    | none => simp
    | some v => simpa using hne v (ArgList.mem_named_of_lastNamed? hlast)
  · cases hlast : args.lastNamed? p.name with
    | none =>
      rw [ArgList.firstNamed?_eq_none_iff.mpr hlast]
      simp [eq_comm]
    | some v =>
      have hv := hne v (ArgList.mem_named_of_lastNamed? hlast)
      constructor
      · intro h
        exact (h v hv).mp rfl
      · rintro h w -
        rw [h, Option.getD_some, Option.some.injEq]

/-- An argument passed once is seen by both, next to one that is not passed. -/
theorem option_and_parameter_passedOnce :
    let param (name : String) : Param := ⟨name, .boolean, true, .nowhere⟩
    let f : UserFunction := ⟨"f", [param "x", param "y"], .sequence .nowhere [], .global⟩
    let args : ArgList := ⟨[], [("x", .boolean false)]⟩
    (∃ held, ((f.bind args).run.run {}).2.find? "x" = some ⟨held, .optional⟩ ∧
      (held = .boolean false ↔ args.option "x" .boolean = .ok (some (.boolean false)))) ∧
    ∃ held, ((f.bind args).run.run {}).2.find? "y" = some ⟨held, .optional⟩ ∧
      (held = .void ↔ args.option "y" .boolean = .ok none) := by
  intro param f args
  have hdistinct : (f.params.map Param.name).Nodup := by decide
  obtain ⟨held, passed, hfind, hoption, -, hsame⟩ :=
    option_and_parameter f args (param "x") hdistinct (by simp [f]) rfl rfl rfl
  obtain ⟨held', passed', hfind', hoption', hvoid, -⟩ :=
    option_and_parameter f args (param "y") hdistinct (by simp [f]) rfl rfl rfl
  refine ⟨⟨held, hfind, ?_⟩, held', hfind', ?_⟩
  · rw [show args.option "x" .boolean = .ok passed from hoption, Except.ok.injEq]
    exact hsame.mpr rfl _ nofun
  · rw [show args.option "y" .boolean = .ok passed' from hoption', Except.ok.injEq]
    exact hvoid

/-- `f(x: true, x: false)` is `false` to a user function and `true` to a native one. -/
theorem option_and_parameter_apart :
    let p : Param := ⟨"x", .boolean, true, .nowhere⟩
    let f : UserFunction := ⟨"f", [p], .sequence .nowhere [], .global⟩
    let args := ArgList.ofPushes [⟨some "x", .boolean true⟩, ⟨some "x", .boolean false⟩]
    (f.params.map Param.name).Nodup ∧ ((f.bind args).run.run {}).1 = .ok () ∧
      ¬ ∀ v, v ≠ .void → ((((f.bind args).run.run {}).2.find? "x").map (·.value) = some v ↔
        args.option "x" .boolean = .ok (some v)) := by
  intro p f args
  refine ⟨by decide, rfl, fun h => ?_⟩
  have hsame : (((f.bind args).run.run {}).2.find? "x").map (·.value) = some (.boolean true) :=
    (h (.boolean true) nofun).mpr rfl
  cases hsame

end UserFunction
end ClipScript
