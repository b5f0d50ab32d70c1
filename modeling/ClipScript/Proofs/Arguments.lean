/-
The arguments that a native function gets, and what it can rely on.

The list of arguments is built by pushes, of which some may be refused (`ArgList.ofPushes`).  A
native function checks the kinds of the unnamed arguments and then asks for them by position and
kind.

`ArgList` keeps unnamed and named arguments apart.  Seen as one list, an argument list is what was
pushed without what was refused (`toList_ofPushes`).  The questions of a native function can be
answered from that one list too: count the arguments in front of the first named one, compare kinds
position by position, take what stands in a position.  Since no unnamed argument follows a named
one, that gives the same answers (`checkKinds_eq_checkList`, `value_eq_entry`).
-/
import ClipScript.ArgList
import Mathlib.Data.List.Basic

namespace ClipScript
namespace ArgList

/-! ## Pushes -/

/-- The list after a push.  One that is refused leaves it as it was. -/
def afterPush (args : ArgList) (arg : Labelled Value) : ArgList :=
  match args.push arg.label arg.content with
  | .ok more => more
  | .error _ => args

/-- The list after pushing arguments one after the other. -/
def ofPushes (pushes : List (Labelled Value)) : ArgList := pushes.foldl afterPush .empty

/-- What is left of a sequence of arguments without the unnamed ones that follow a named one. -/
def kept (pushes : List (Labelled Value)) : List (Labelled Value) :=
  pushes.takeWhile (·.label.isNone) ++ (pushes.dropWhile (·.label.isNone)).filter (·.label.isSome)

variable {args : ArgList}

theorem push_eq_error_iff {arg : Labelled Value} {fault : Fault} :
    args.push arg.label arg.content = .error fault ↔
      (arg.label = none ∧ args.named ≠ []) ∧ fault = .argumentOrder := by
  obtain ⟨_ | name, value⟩ := arg
  · by_cases h : args.named = []
    · simp [push, h]
    · have hpush : args.push none value = .error .argumentOrder := by simp [push, h]
      rw [hpush, Except.error.injEq]
      exact ⟨fun hfault => ⟨⟨rfl, h⟩, hfault.symm⟩, fun hrefused => hrefused.2.symm⟩
  · simp [push]

theorem afterPush_of_error {arg : Labelled Value} {fault : Fault}
    (h : args.push arg.label arg.content = .error fault) : args.afterPush arg = args := by
  rw [afterPush, h]

theorem afterPush_of_ok {arg : Labelled Value} {more : ArgList}
    (h : args.push arg.label arg.content = .ok more) : args.afterPush arg = more := by
  rw [afterPush, h]

theorem named_eq_nil_iff : args.named = [] ↔ ∀ a ∈ args.toList, a.label = none := by
  constructor
  · intro h a ha
    simp only [toList, h, List.map_nil, List.append_nil, List.mem_map] at ha
    obtain ⟨value, -, rfl⟩ := ha
    rfl
  · intro h
    rw [List.eq_nil_iff_forall_not_mem]
    rintro ⟨name, value⟩ hmem
    have hlabel := h ⟨some name, value⟩
      (List.mem_append_right _ (List.mem_map.mpr ⟨_, hmem, rfl⟩))
    cases hlabel

/-- Once there is a named argument, the named ones are what further pushes add. -/
theorem toList_foldl_of_named {pushes : List (Labelled Value)} (h : args.named ≠ []) :
    (pushes.foldl afterPush args).toList = args.toList ++ pushes.filter (·.label.isSome) := by
  induction pushes generalizing args with
  | nil => simp
  | cons arg rest ih =>
    rw [List.foldl_cons]
    cases hpush : args.push arg.label arg.content with
    | error fault =>
      obtain ⟨⟨hlabel, -⟩, -⟩ := push_eq_error_iff.mp hpush
      rw [afterPush_of_error hpush, ih h, List.filter_cons_of_neg (by simp [hlabel])]
    | ok more =>
      have hmore := toList_of_push hpush
      have hnamed : more.named ≠ [] := by
        intro hnil
        refine h (named_eq_nil_iff.mpr fun a ha => named_eq_nil_iff.mp hnil a ?_)
        rw [hmore]
        exact List.mem_append_left _ ha
      have hlabel : arg.label.isSome := by
        rw [Option.isSome_iff_ne_none]
        intro hnone
        rw [push_eq_error_iff.mpr ⟨⟨hnone, h⟩, rfl⟩] at hpush
        cases hpush
      rw [afterPush_of_ok hpush, ih hnamed, hmore, List.filter_cons_of_pos (a := arg) hlabel]
      exact List.append_assoc ..

/-- Before there is a named argument, the unnamed ones in front are added as well. -/
theorem toList_foldl {pushes : List (Labelled Value)} (h : args.named = []) :
    (pushes.foldl afterPush args).toList = args.toList ++ kept pushes := by
  induction pushes generalizing args with
  | nil => simp [kept]
  | cons arg rest ih =>
    have hne : ∀ fault, args.push arg.label arg.content ≠ .error fault :=
      fun fault hpush => (push_eq_error_iff.mp hpush).1.2 h
    obtain ⟨more, hpush⟩ : ∃ more, args.push arg.label arg.content = .ok more := by
      cases hpush : args.push arg.label arg.content with
      | error fault => exact absurd hpush (hne fault)
      | ok more => exact ⟨more, rfl⟩
    have hmore := toList_of_push hpush
    have hnamed : more.named = [] ↔ arg.label = none := by
      rw [named_eq_nil_iff, hmore, List.forall_mem_append, List.forall_mem_singleton]
      exact and_iff_right (named_eq_nil_iff.mp h)
    rw [List.foldl_cons, afterPush_of_ok hpush]
    by_cases hlabel : arg.label = none
    · have hkept : kept (arg :: rest) = arg :: kept rest := by simp [kept, hlabel]
      rw [ih (hnamed.mpr hlabel), hmore, hkept]
      exact List.append_assoc ..
    · have hkept : kept (arg :: rest) = arg :: rest.filter (·.label.isSome) := by
        simp [kept, hlabel, Option.isSome_iff_ne_none]
      rw [toList_foldl_of_named fun hnil => hlabel (hnamed.mp hnil), hmore, hkept]
      exact List.append_assoc ..

theorem toList_ofPushes (pushes : List (Labelled Value)) : (ofPushes pushes).toList = kept pushes :=
  toList_foldl rfl

theorem ofPushes_append (before : List (Labelled Value)) (arg : Labelled Value) :
    ofPushes (before ++ [arg]) = (ofPushes before).afterPush arg := by
  simp [ofPushes]

theorem mem_kept_of_label {pushes : List (Labelled Value)} {a : Labelled Value} (h : a ∈ pushes)
    (hlabel : a.label ≠ none) : a ∈ kept pushes := by
  have hsome : a.label.isSome := Option.isSome_iff_ne_none.mpr hlabel
  rw [← List.takeWhile_append_dropWhile (p := (·.label.isNone)) (l := pushes)] at h
  rcases List.mem_append.mp h with hfront | hrest
  · exact List.mem_append_left _ hfront
  · exact List.mem_append_right _ (List.mem_filter.mpr ⟨hrest, hsome⟩)

theorem named_ofPushes_ne_nil_iff {pushes : List (Labelled Value)} :
    (ofPushes pushes).named ≠ [] ↔ ∃ a ∈ pushes, a.label ≠ none := by
  rw [ne_eq, named_eq_nil_iff, toList_ofPushes]
  constructor
  · intro h
    by_contra hnone
    refine h fun a ha => ?_
    by_contra hlabel
    refine hnone ⟨a, ?_, hlabel⟩
    rcases List.mem_append.mp ha with hfront | hrest
    · exact (List.takeWhile_sublist _).mem hfront
    · exact (List.dropWhile_sublist _).mem (List.mem_filter.mp hrest).1
  · rintro ⟨a, ha, hlabel⟩ hall
    exact hlabel (hall a (mem_kept_of_label ha hlabel))

/-! ## One list -/

/-- The unnamed arguments of a list, in order. -/
def unnamedOf (list : List (Labelled Value)) : List Value :=
  (list.filter (·.label.isNone)).map (·.content)

/-- How many arguments stand in front of the first named one. -/
def leading (list : List (Labelled Value)) : Nat := (list.takeWhile (·.label.isNone)).length

/-- Compares kinds from position `i` on, whether the arguments have names or not. -/
def compareFrom (i : Nat) : List (Labelled Value) → List ValueKind → Except Fault Unit
  | arg :: list, kind :: kinds =>
    if arg.content.kind = kind then compareFrom (i + 1) list kinds
    else .error (.argumentMismatch (i + 1) kind arg.content.kind)
  | _, _ => .ok ()

/-- Fails unless as many arguments as there are kinds stand in front of the first named one, and
these are of the given kinds. -/
def checkList (list : List (Labelled Value)) (kinds : List ValueKind) : Except Fault Unit :=
  if leading list = kinds.length then compareFrom 0 list kinds
  else .error (.argumentCount kinds.length (leading list))

/-- What stands in a position, unless it has a name. -/
def entry (list : List (Labelled Value)) (index : Nat) : Except Fault Value :=
  match list[index]? with
  | some ⟨none, value⟩ => .ok value
  | _ => .error (.missingArgument (index + 1))

theorem toList_eq (args : ArgList) :
    args.toList = args.unnamed.map (⟨none, ·⟩)
      ++ args.named.map fun entry => ⟨some entry.1, entry.2⟩ := rfl

theorem unnamedOf_toList (args : ArgList) : unnamedOf args.toList = args.unnamed := by
  have hunnamed : (args.unnamed.map fun v => (⟨none, v⟩ : Labelled Value)).filter
      (·.label.isNone) = args.unnamed.map (⟨none, ·⟩) := by
    rw [List.filter_eq_self]
    intro a ha
    obtain ⟨value, -, rfl⟩ := List.mem_map.mp ha
    rfl
  have hnamed : (args.named.map fun entry => (⟨some entry.1, entry.2⟩ : Labelled Value)).filter
      (·.label.isNone) = [] := by
    rw [List.filter_eq_nil_iff]
    intro a ha
    obtain ⟨entry, -, rfl⟩ := List.mem_map.mp ha
    exact Bool.false_ne_true
  rw [unnamedOf, toList_eq, List.filter_append, hunnamed, hnamed, List.append_nil, List.map_map]
  exact List.map_id _

/-- No unnamed argument follows a named one. -/
theorem pairwise_toList (args : ArgList) :
    args.toList.Pairwise fun a b => b.label = none → a.label = none := by
  rw [toList_eq, List.pairwise_append]
  refine ⟨?_, ?_, ?_⟩
  · exact List.pairwise_map.mpr (List.pairwise_of_forall fun _ _ _ => rfl)
  · refine List.pairwise_map.mpr (List.pairwise_of_forall fun _ _ h => ?_)
    cases h
  · intro a ha b _ _
    obtain ⟨value, -, rfl⟩ := List.mem_map.mp ha
    rfl

theorem leading_toList (args : ArgList) : leading args.toList = args.unnamed.length := by
  have hnamed : (args.named.map fun entry => (⟨some entry.1, entry.2⟩ : Labelled Value)).takeWhile
      (·.label.isNone) = [] := by
    cases args.named <;> rfl
  rw [leading, toList_eq, List.takeWhile_append_of_pos (by simp), hnamed, List.append_nil,
    List.length_map]

theorem compareFrom_append (i : Nat) {values : List Value} (list : List (Labelled Value))
    {kinds : List ValueKind} (h : kinds.length ≤ values.length) :
    compareFrom i (values.map (⟨none, ·⟩) ++ list) kinds = checkKindsFrom i values kinds := by
  induction values generalizing i kinds with
  | nil =>
    obtain rfl := List.length_eq_zero_iff.mp (Nat.le_zero.mp h)
    cases list <;> rfl
  | cons value values ih =>
    cases kinds with
    | nil => rfl
    | cons kind kinds =>
      rw [List.map_cons, List.cons_append, compareFrom, checkKindsFrom]
      rw [ih (i + 1) (Nat.le_of_succ_le_succ h)]

theorem checkKinds_eq (args : ArgList) (kinds : List ValueKind) :
    args.checkKinds kinds = if args.unnamed.length = kinds.length
      then checkKindsFrom 0 args.unnamed kinds
      else .error (.argumentCount kinds.length args.unnamed.length) := by
  rw [checkKinds, checkCount]
  split <;> rfl

theorem checkKinds_eq_checkList (args : ArgList) (kinds : List ValueKind) :
    args.checkKinds kinds = checkList args.toList kinds := by
  rw [checkKinds_eq, checkList, leading_toList]
  split
  · next h => rw [toList, compareFrom_append 0 _ (Nat.le_of_eq h.symm)]
  · rfl

theorem value_eq_entry (args : ArgList) (index : Nat) :
    args.value index = entry args.toList index := by
  by_cases h : index < args.unnamed.length
  · have hfront : args.toList[index]? = some ⟨none, args.unnamed[index]⟩ := by
      rw [toList, List.getElem?_append_left (by simpa using h), List.getElem?_map,
        List.getElem?_eq_getElem h]
      rfl
    rw [value, entry, hfront, List.getElem?_eq_getElem h]
  · have hafter : args.unnamed.length ≤ index := Nat.le_of_not_lt h
    rw [value, entry, toList, List.getElem?_eq_none hafter,
      List.getElem?_append_right (by simpa using hafter), List.getElem?_map]
    cases args.named[index - (args.unnamed.map fun v => (⟨none, v⟩ : Labelled Value)).length]?
      <;> rfl

/-! ## Reading after a check -/

/-- The accessor for the kind of a value has this value for its answer. -/
inductive Gives (args : ArgList) (index : Nat) : Value → Prop where
  | number {n : Float} : args.number index = .ok n → Gives args index (.number n)
  | boolean {b : Bool} : args.boolean index = .ok b → Gives args index (.boolean b)
  | string {s : String} : args.string index = .ok s → Gives args index (.string s)
  | clip {c : Clip} : args.clip index = .ok c → Gives args index (.clip c)

/-- Every accessor fails with the same fault. -/
structure FailsAt (args : ArgList) (index : Nat) (fault : Fault) : Prop where
  value : args.value index = .error fault
  number : args.number index = .error fault
  boolean : args.boolean index = .error fault
  string : args.string index = .error fault
  clip : args.clip index = .error fault

/-- What a native function that expects arguments of certain kinds can rely on: in each of these
positions there is an unnamed argument of that kind, which its accessor gives, and there are no
further ones. -/
structure Supplies (args : ArgList) (kinds : List ValueKind) : Prop where
  gives : ∀ index kind, kinds[index]? = some kind →
    ∃ v, (unnamedOf args.toList)[index]? = some v ∧ v.kind = kind ∧ args.value index = .ok v ∧
      (kind.isStorable → args.Gives index v)
  fails : ∀ index, kinds.length ≤ index → ∃ fault, fault.kind = .arity ∧ args.FailsAt index fault

theorem checkKindsFrom_eq_ok_iff (i : Nat) {values : List Value} {kinds : List ValueKind}
    (h : values.length = kinds.length) :
    checkKindsFrom i values kinds = .ok () ↔ values.map Value.kind = kinds := by
  induction values generalizing i kinds with
  | nil =>
    obtain rfl := List.length_eq_zero_iff.mp h.symm
    exact ⟨fun _ => rfl, fun _ => rfl⟩
  | cons value values ih =>
    cases kinds with
    | nil => cases h
    | cons kind kinds =>
      rw [checkKindsFrom, List.map_cons, List.cons.injEq]
      by_cases hkind : value.kind = kind
      · rw [if_pos hkind, ih (i + 1) (Nat.succ.inj h)]
        exact (and_iff_right hkind).symm
      · rw [if_neg hkind]
        exact ⟨nofun, fun hkinds => absurd hkinds.1 hkind⟩

theorem checkKinds_eq_ok_iff (args : ArgList) (kinds : List ValueKind) :
    args.checkKinds kinds = .ok () ↔ args.unnamed.map Value.kind = kinds := by
  rw [checkKinds_eq]
  by_cases h : args.unnamed.length = kinds.length
  · rw [if_pos h]
    exact checkKindsFrom_eq_ok_iff 0 h
  · rw [if_neg h]
    refine ⟨nofun, fun hkinds => absurd ?_ h⟩
    rw [← hkinds, List.length_map]

theorem gives_of_value {index : Nat} {v : Value} (h : args.value index = .ok v)
    (hv : v.isStorable) : args.Gives index v := by
  cases v with
  | void => cases hv
  | number n => exact .number (by rw [number, typed, h]; rfl)
  | boolean b => exact .boolean (by rw [boolean, typed, h]; rfl)
  | string s => exact .string (by rw [string, typed, h]; rfl)
  | clip c => exact .clip (by rw [clip, typed, h]; rfl)
  | identifier name => cases hv

theorem failsAt_of_value {index : Nat} {fault : Fault} (h : args.value index = .error fault) :
    args.FailsAt index fault :=
  ⟨h, by rw [number, typed, h]; rfl, by rw [boolean, typed, h]; rfl,
    by rw [string, typed, h]; rfl, by rw [clip, typed, h]; rfl⟩

theorem supplies_of_kinds {kinds : List ValueKind} (h : args.unnamed.map Value.kind = kinds) :
    args.Supplies kinds := by
  constructor
  · intro index kind hkind
    rw [← h, List.getElem?_map, Option.map_eq_some_iff] at hkind
    obtain ⟨v, hv, rfl⟩ := hkind
    have hvalue : args.value index = .ok v := by rw [value, hv]
    refine ⟨v, ?_, rfl, hvalue, gives_of_value hvalue⟩
    rw [unnamedOf_toList, hv]
  · intro index hindex
    have hnone : args.unnamed[index]? = none := by
      rw [← h, List.length_map] at hindex
      exact List.getElem?_eq_none hindex
    exact ⟨.missingArgument (index + 1), rfl, failsAt_of_value (by rw [value, hnone])⟩

/-- What native functions and those who call them can rely on.  A push is refused if the argument
has no name and follows one that has, which leaves the list as it was, and else adds the argument at
the end; so the list is what was pushed, less the unnamed arguments after a named one, and what a
native function asks for could as well be read off that one list.  A check of kinds passes if and
only if these are the kinds of the unnamed arguments in order, and then every position that was
checked has its argument and no other position has one, whatever named arguments there are. -/
theorem native_contract :
    (∀ before arg, (arg.label = none ∧ ∃ earlier ∈ before, earlier.label ≠ none) ∧
        (ofPushes before).push arg.label arg.content = .error .argumentOrder ∧
        ofPushes (before ++ [arg]) = ofPushes before ∨
      ¬ (arg.label = none ∧ ∃ earlier ∈ before, earlier.label ≠ none) ∧
        (ofPushes before).push arg.label arg.content = .ok (ofPushes (before ++ [arg])) ∧
        (ofPushes (before ++ [arg])).toList = (ofPushes before).toList ++ [arg]) ∧
    (∀ pushes, (ofPushes pushes).toList = kept pushes) ∧
    (∀ values, (ofValues values).toList = values.map (⟨none, ·⟩)) ∧
    ∀ args : ArgList, (args.toList.Pairwise fun a b => b.label = none → a.label = none) ∧
      (∀ index, args.value index = entry args.toList index) ∧
      ∀ kinds, args.checkKinds kinds = checkList args.toList kinds ∧
        (args.checkKinds kinds = .ok () ↔ (unnamedOf args.toList).map Value.kind = kinds) ∧
        (args.checkKinds kinds = .ok () → args.Supplies kinds) := by
  refine ⟨fun before arg => ?_, toList_ofPushes, fun values => List.append_nil _, fun args => ?_⟩
  · rw [ofPushes_append, ← named_ofPushes_ne_nil_iff]
    cases hpush : (ofPushes before).push arg.label arg.content with
    | error fault =>
      obtain ⟨hrefused, rfl⟩ := push_eq_error_iff.mp hpush
      exact .inl ⟨hrefused, rfl, afterPush_of_error hpush⟩
    | ok more =>
      refine .inr ⟨fun hrefused => ?_, ?_, ?_⟩
      · rw [push_eq_error_iff.mpr ⟨hrefused, rfl⟩] at hpush
        cases hpush
      · rw [afterPush_of_ok hpush]
      · rw [afterPush_of_ok hpush, toList_of_push hpush]
  · refine ⟨args.pairwise_toList, args.value_eq_entry, fun kinds => ?_⟩
    rw [unnamedOf_toList]
    exact ⟨args.checkKinds_eq_checkList kinds, args.checkKinds_eq_ok_iff kinds,
      fun h => supplies_of_kinds ((args.checkKinds_eq_ok_iff kinds).mp h)⟩

/-- Of `"a"`, `by: true` and `"b"` the last is refused, and after a check for one string the first
is there and nothing else is. -/
theorem native_contract_refusedString :
    let pushes : List (Labelled Value) :=
      [⟨none, .string "a"⟩, ⟨some "by", .boolean true⟩, ⟨none, .string "b"⟩]
    (ofPushes pushes).toList = [⟨none, .string "a"⟩, ⟨some "by", .boolean true⟩] ∧
      (ofPushes pushes).checkKinds [.string] = .ok () ∧
      (ofPushes pushes).Gives 0 (.string "a") ∧
      ∃ fault, fault.kind = .arity ∧ (ofPushes pushes).FailsAt 1 fault := by
  intro pushes
  obtain ⟨-, hkept, -, hall⟩ := native_contract
  have hcheck : (ofPushes pushes).checkKinds [.string] = .ok () := rfl
  have hsupplies := ((hall (ofPushes pushes)).2.2 [.string]).2.2 hcheck
  obtain ⟨v, hv, -, -, hgives⟩ := hsupplies.gives 0 .string rfl
  cases hv
  exact ⟨hkept pushes, hcheck, hgives rfl, hsupplies.fails 1 (Nat.le_refl 1)⟩

end ArgList
end ClipScript
