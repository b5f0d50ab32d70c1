/-
What the variables of a scope may hold.

A variable of the global scope is local and holds a value that can be stored.  In the scope of a
call there are also the optional parameters that were not passed, which are void.  The mandatory
ones are void as well when they are declared, so `Awaits` keeps account of those that have yet to
get their argument.  When binding succeeds none is left (`UserFunction.sound_of_bind`), even if
parameters share a name.
-/
import ClipScript.Proofs.Natives
import ClipScript.Value.Operators

namespace ClipScript

/-- Whatever is found in the table is good. -/
def Table.All {α : Type} (good : α → Prop) (t : Table α) : Prop :=
  ∀ name a, t.find? name = some a → good a

namespace Table

variable {α : Type} {good : α → Prop} {t : Table α}

theorem find?_insert (t : Table α) (name other : String) (a : α) :
    (t.insert name a).find? other = if other = name then some a else t.find? other := by
  by_cases h : other = name
  · rw [if_pos h, h, find?_insert_self]
  · rw [if_neg h, find?_insert_of_ne _ _ h]

theorem All.insert (h : t.All good) (name : String) {a : α} (ha : good a) :
    (t.insert name a).All good := by
  intro other b hb
  rw [find?_insert] at hb
  split at hb
  · cases hb
    exact ha
  · exact h other b hb

theorem All.imp {good' : α → Prop} (h : t.All good) (himp : ∀ a, good a → good' a) : t.All good' :=
  fun name a ha => himp a (h name a ha)

theorem all_iff : t.All good ↔ ∀ entry ∈ t.entries, ∀ a ∈ t.find? entry.1, good a := by
  refine ⟨fun h entry _ a ha => h entry.1 a ha, fun h name a ha => ?_⟩
  obtain ⟨before, after, hentries, -⟩ := List.lookup_eq_some_iff.mp ha
  have hmem : (name, a) ∈ t.entries := by
    rw [hentries]
    simp
  exact h _ hmem a ha

instance [DecidablePred good] : Decidable (t.All good) :=
  decidable_of_iff' _ all_iff

end Table

namespace Variable

/-- A variable of the global scope. -/
def Plain (v : Variable) : Prop := v.binding = .local ∧ v.value.isStorable

/-- A variable of a call: it holds a value that can be stored, or is an optional parameter that was
not passed. -/
def Sound (v : Variable) : Prop :=
  v.value.isStorable ∨ v.binding = .optional ∧ v.value.kind = .void

instance : DecidablePred Plain := fun _ => inferInstanceAs (Decidable (_ ∧ _))

instance : DecidablePred Sound := fun _ => inferInstanceAs (Decidable (_ ∨ _))

theorem Plain.sound {v : Variable} (h : v.Plain) : v.Sound := .inl h.2

theorem Sound.kind_ne {v : Variable} (h : v.Sound) : v.value.kind ≠ .identifier := by
  intro hkind
  rcases h with hstorable | ⟨-, hvoid⟩
  · rw [Value.isStorable, hkind] at hstorable
    cases hstorable
  · rw [hkind] at hvoid
    cases hvoid

end Variable

namespace Variables

variable {vars : Variables}

theorem all_plain_assign (h : vars.All Variable.Plain) (name : String) {v : Value}
    (hv : v.isStorable) : (vars.assign name v).All Variable.Plain := by
  refine h.insert name ⟨?_, hv⟩
  cases hold : vars.find? name with
  | none => rfl
  | some old => exact (h name old hold).1

theorem all_sound_assign (h : vars.All Variable.Sound) (name : String) {v : Value}
    (hv : v.isStorable) : (vars.assign name v).All Variable.Sound :=
  h.insert name (.inl hv)

/-- Variables are in order, except those that wait for an argument of one of the parameters. -/
def Awaits (vars : Variables) (params : List Param) : Prop :=
  ∀ name v, vars.find? name = some v → v.Sound ∨ ∃ p ∈ params, p.name = name

theorem Awaits.assign {p : Param} {params : List Param} (h : vars.Awaits (p :: params)) {v : Value}
    (hv : v.isStorable) : (vars.assign p.name v).Awaits params := by
  intro name w hw
  rw [Variables.assign, Table.find?_insert] at hw
  split at hw
  · cases hw
    exact .inl (.inl hv)
  · next hne =>
    rcases h name w hw with hsound | ⟨q, hq, hname⟩
    · exact .inl hsound
    · rcases List.mem_cons.mp hq with rfl | hq
      · exact absurd hname.symm hne
      · exact .inr ⟨q, hq, hname⟩

end Variables

theorem ok_of_binder {α β : Type} {x : Binder α} {k : α → Binder β} {vars vars' : Variables}
    {b : β} (h : (x >>= k).run.run vars = (.ok b, vars')) :
    ∃ a mid, x.run.run vars = (.ok a, mid) ∧ (k a).run.run mid = (.ok b, vars') := by
  change (match x.run.run vars with
    | (r, mid) => (ExceptT.bindCont k r : StateM Variables _).run mid) = _ at h
  rcases hx : x.run.run vars with ⟨fault | a, mid⟩
  · rw [hx] at h
    cases h
  · rw [hx] at h
    exact ⟨a, mid, rfl, h⟩

namespace UserFunction

variable {f : UserFunction} {vars vars' : Variables}

theorem isStorable_of_kind {p : Param} {v : Value} (hp : p.kind.isStorable)
    (h : ¬ v.kind ≠ p.kind) : v.isStorable := by
  rw [Value.isStorable, Decidable.not_not.mp h]
  exact hp

theorem find?_declareParams (params : List Param) (vars : Variables) {name : String} {v : Variable}
    (h : (params.foldl (fun vars p => vars.declare p.name .void p.binding) vars).find? name
      = some v) :
    (∃ p ∈ params, p.name = name ∧ v = ⟨.void, p.binding⟩) ∨ vars.find? name = some v := by
  induction params generalizing vars with
  | nil => exact .inr h
  | cons p rest ih =>
    rcases ih _ h with ⟨q, hq, hname⟩ | hold
    · exact .inl ⟨q, List.mem_cons_of_mem p hq, hname⟩
    · dsimp only [Variables.declare] at hold
      rw [Table.find?_insert] at hold
      split at hold
      · next hname =>
        cases hold
        exact .inl ⟨p, List.mem_cons_self, hname.symm, rfl⟩
      · exact .inr hold

/-- A parameter without an argument is one of the mandatory ones in front, or is optional. -/
theorem awaits_declareParams (horder : f.checkOrder = .ok ()) :
    (f.declareParams {}).Awaits (f.params.take f.mandatoryCount) := by
  intro name v hv
  rcases find?_declareParams f.params {} hv with ⟨p, hp, hname, rfl⟩ | hnone
  · by_cases hoptional : p.optional
    · exact .inl (.inr ⟨by rw [Param.binding, if_pos hoptional], rfl⟩)
    · refine .inr ⟨p, ?_, hname⟩
      rw [← List.take_append_drop f.mandatoryCount f.params, List.mem_append] at hp
      refine hp.resolve_right fun hlate => ?_
      have hany : (f.params.drop f.mandatoryCount).any (!·.optional) :=
        List.any_eq_true.mpr ⟨p, hlate, by simpa using hoptional⟩
      rw [checkOrder, if_pos hany] at horder
      cases horder
  · cases hnone

theorem sound_of_bindUnnamed {i : Nat} {params : List Param} {values : List Value}
    (hparams : ∀ p ∈ params, p.kind.isStorable) (hvars : vars.Awaits (params.take values.length))
    (h : (f.bindUnnamed i params values).run.run vars = (.ok (), vars')) :
    vars'.All Variable.Sound := by
  have hdone : ∀ {vars : Variables}, vars.Awaits [] → vars.All Variable.Sound :=
    fun hvars name v hv => (hvars name v hv).resolve_right fun ⟨_, hp, _⟩ => nomatch hp
  induction params generalizing i values vars with
  | nil =>
    cases h
    exact hdone (by simpa using hvars)
  | cons p rest ih =>
    cases values with
    | nil =>
      cases h
      exact hdone hvars
    | cons v values =>
      rw [List.forall_mem_cons] at hparams
      rw [bindUnnamed] at h
      split at h
      · cases h
      · next hkind =>
        -- the parameter that gets the value is the first of those that wait
        obtain ⟨_, mid, hassign, h⟩ := ok_of_binder h
        cases hassign
        exact ih hparams.2 (hvars.assign (isStorable_of_kind hparams.1 hkind)) h

theorem sound_of_bindNamed {named : List (String × Value)}
    (hparams : ∀ p ∈ f.params, p.kind.isStorable) (hvars : vars.All Variable.Sound)
    (h : (f.bindNamed named).run.run vars = (.ok (), vars')) : vars'.All Variable.Sound := by
  induction named generalizing vars with
  | nil =>
    cases h
    exact hvars
  | cons arg rest ih =>
    obtain ⟨name, v⟩ := arg
    rw [bindNamed] at h
    split at h
    · cases h
    · next p hp =>
      split at h
      · cases h
      · next hkind =>
        obtain ⟨_, mid, hassign, h⟩ := ok_of_binder h
        cases hassign
        have hstorable := hparams p (List.mem_of_find?_eq_some hp)
        exact ih (Variables.all_sound_assign hvars p.name (isStorable_of_kind hstorable hkind)) h

/-- When all arguments are bound, nothing is void but optional parameters. -/
theorem sound_of_bind {args : ArgList} (horder : f.checkOrder = .ok ())
    (hparams : ∀ p ∈ f.params, p.kind.isStorable)
    (h : (f.bind args).run.run {} = (.ok (), vars')) : vars'.All Variable.Sound := by
  obtain ⟨_, declared, hdeclare, h⟩ := ok_of_binder h
  cases hdeclare
  dsimp only at h
  split at h
  · cases h
  · next hcount =>
    obtain ⟨_, mid, hunnamed, h⟩ := ok_of_binder h
    have hawaits := awaits_declareParams horder
    rw [← Decidable.not_not.mp hcount] at hawaits
    exact sound_of_bindNamed hparams (sound_of_bindUnnamed hparams hawaits hunnamed) h

end UserFunction
end ClipScript
