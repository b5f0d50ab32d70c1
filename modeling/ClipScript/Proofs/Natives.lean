/-
What native functions may do.

A native function can ask for the line it was called from, and it can have a script run in the
global scope.  Results about places and about scopes hold where native functions do not: `Within`
limits what they do, from single actions up to everything that a machine has at hand.  The built-in
functions do neither (`Machine.within_initial`).
-/
import ClipScript.Builtins
import ClipScript.Machine

namespace ClipScript

namespace Scopes

theorem get_modify (s : Scopes) (id other : ScopeId) (change : Scope → Scope) :
    (s.modify id change).get other
      = if other = id ∧ s.contains id then change (s.get id) else s.get other := by
  by_cases hother : other = id
  · subst hother
    by_cases hin : s.contains other
    · rw [get_modify_self s change hin, if_pos ⟨rfl, hin⟩]
    · rw [if_neg fun h => hin h.2]
      have hout : s.all.size ≤ other := by simpa [contains] using hin
      simp [get, modify, hout]
  · rw [get_modify_of_ne s change hother, if_neg fun h => hother h.1]

/-- An added scope is empty, as is everything that is not in use. -/
theorem get_addChild (s : Scopes) (env : Env) (id : ScopeId) :
    (s.addChild env).2.get id = s.get id := by
  simp only [addChild, get, Array.getD_eq_getD_getElem?, Array.getElem?_push]
  split
  · next h => rw [h, Array.getElem?_eq_none (Nat.le_refl _)]; rfl
  · rfl

@[simp] theorem size_modify (s : Scopes) (id : ScopeId) (change : Scope → Scope) :
    (s.modify id change).all.size = s.all.size := by
  simp [modify]

@[simp] theorem size_addChild (s : Scopes) (env : Env) :
    (s.addChild env).2.all.size = s.all.size + 1 := by
  simp [addChild]

theorem contains_modify (s : Scopes) (id other : ScopeId) (change : Scope → Scope) :
    (s.modify id change).contains other = s.contains other := by
  rw [Scopes.contains, Scopes.contains, size_modify]

end Scopes

/-! ## Everything at hand

What holds of all native functions of a plugin, of a registry, of a host, and of all functions of a
store. -/

def Plugin.All (good : Native → Prop) (plugin : Plugin) : Prop :=
  ∀ name native, plugin.find? name = some native → good native

def Registry.All (good : Native → Prop) (r : Registry) : Prop :=
  ∀ entry ∈ r.plugins, entry.2.All good

def Host.All (good : Native → Prop) (host : Host) : Prop :=
  ∀ name path plugin, host.load name path = .ok plugin → plugin.All good

namespace Registry.All

variable {good : Native → Prop} {r : Registry}

theorem empty : Registry.empty.All good := nofun

theorem register {plugin : Plugin} (h : r.All good) (hplugin : plugin.All good) (name : String) :
    (r.register name plugin).All good := by
  intro entry hentry
  rcases List.mem_append.mp hentry with hold | hnew
  · exact h entry hold
  · rw [List.mem_singleton.mp hnew]
    exact hplugin

theorem resolve {owner function : String} {native : Native} (h : r.All good)
    (hr : r.resolve owner function = .ok native) : good native := by
  unfold Registry.resolve at hr
  split at hr
  · cases hr
  · next plugin hplugin =>
    have hmem : (owner, plugin) ∈ r.plugins := by
      rw [List.lookup_eq_some_iff] at hplugin
      obtain ⟨before, after, hr, -⟩ := hplugin
      rw [hr]
      simp
    split at hr
    · cases hr
    · next found hfound =>
      cases hr
      exact h _ hmem function native hfound

end Registry.All

def Scopes.All (good : Function → Prop) (s : Scopes) : Prop :=
  ∀ id name f, (s.get id).functions.find? name = some f → good f

namespace Scopes.All

variable {good : Function → Prop} {s : Scopes}

theorem start : Scopes.start.All good := by
  intro id name f hf
  match id with
  | 0 | _ + 1 => cases hf

theorem changeVars (h : s.All good) (here : ScopeId) (change : Variables → Variables) :
    (s.modify here fun scope => { scope with vars := change scope.vars }).All good := by
  intro id name f hf
  rw [get_modify] at hf
  split at hf
  · exact h here name f hf
  · exact h id name f hf

theorem define (h : s.All good) (env : Env) (name : String) {f : Function} (hf : good f) :
    (s.define env name f).All good := by
  intro id other g hg
  rw [Scopes.define, get_modify] at hg
  split at hg
  · by_cases hname : other = name
    · subst hname
      rw [Table.find?_insert_self] at hg
      cases hg
      exact hf
    · rw [Table.find?_insert_of_ne _ _ hname] at hg
      exact h env.here other g hg
  · exact h id other g hg

theorem addChild (h : s.All good) (env : Env) : (s.addChild env).2.All good := by
  intro id name f hf
  rw [get_addChild] at hf
  exact h id name f hf

theorem function? (h : s.All good) {env : Env} {name : String} {f : Function}
    (hf : s.function? env name = some f) : good f := by
  rw [Scopes.function?] at hf
  obtain ⟨id, -, hid⟩ := List.exists_of_findSome?_eq_some hf
  exact h id name f hid

end Scopes.All

/-- The actions that ask for the current line only if `line` holds, and run scripts only if
`script` does.  To ask for the place is harmless where the answer does not depend on the line. -/
inductive Action.Within (line script : Prop) : Action → Prop where
  | done (result : Except Fault Value) : Within line script (.done result)
  | message {text : String} {next : Action} : Within line script next →
      Within line script (.message text next)
  | warn {text : String} {next : Action} : Within line script next →
      Within line script (.warn text next)
  | place {next : Nat → Option String → Action} : (∀ l f, Within line script (next l f)) →
      (line ∨ ∀ l l' f, next l f = next l' f) → Within line script (.place next)
  | call {name : String} {args : ArgList} {missing : Action} {next : Value → Action} :
      Within line script missing → (∀ v, Within line script (next v)) →
      Within line script (.call name args missing next)
  | run {source : String} {next : Action} : script → Within line script next →
      Within line script (.run source next)

theorem Action.within_true (action : Action) : action.Within True True := by
  induction action with
  | done result => exact .done result
  | message text next ih => exact .message ih
  | warn text next ih => exact .warn ih
  | place next ih => exact .place ih (.inl trivial)
  | call name args missing next ihmissing ihnext => exact .call ihmissing ihnext
  | run source next ih => exact .run trivial ih

def Native.Within (line script : Prop) (native : Native) : Prop :=
  ∀ args, (native args).Within line script

def Plugin.Within (line script : Prop) (plugin : Plugin) : Prop :=
  ∀ name native, plugin.find? name = some native → Native.Within line script native

def Registry.Within (line script : Prop) (r : Registry) : Prop :=
  ∀ entry ∈ r.plugins, entry.2.Within line script

def Host.Within (line script : Prop) (host : Host) : Prop :=
  ∀ name path plugin, host.load name path = .ok plugin → plugin.Within line script

theorem Plugin.within_true (plugin : Plugin) : plugin.Within True True :=
  fun _ native _ args => (native args).within_true

theorem Registry.within_true (r : Registry) : r.Within True True :=
  fun entry _ => entry.2.within_true

theorem Host.within_true (host : Host) : host.Within True True :=
  fun _ _ plugin _ => plugin.within_true

theorem Registry.Within.register {line script : Prop} {r : Registry} {plugin : Plugin}
    (h : r.Within line script) (hplugin : plugin.Within line script) (name : String) :
    (r.register name plugin).Within line script :=
  (show r.All (Native.Within line script) from h).register hplugin name

theorem Registry.Within.resolve {line script : Prop} {r : Registry} {owner function : String}
    {native : Native} (h : r.Within line script) (hr : r.resolve owner function = .ok native) :
    native.Within line script :=
  (show r.All (Native.Within line script) from h).resolve hr

def Function.Within (line script : Prop) : Function → Prop
  | .core _ native => native.Within line script
  | .user _ => True

def Scopes.Within (line script : Prop) (s : Scopes) : Prop :=
  ∀ id name f, (s.get id).functions.find? name = some f → f.Within line script

/-- Every function at hand, in a scope or in a plugin, keeps within limits. -/
structure Machine.Within (line script : Prop) (m : Machine) : Prop where
  scopes : m.scopes.Within line script
  plugins : m.plugins.Within line script

namespace Scopes.Within

variable {line script : Prop} {s : Scopes}

theorem start : Scopes.start.Within line script :=
  (All.start : Scopes.start.All (Function.Within line script))

theorem changeVars (h : s.Within line script) (here : ScopeId) (change : Variables → Variables) :
    (s.modify here fun scope => { scope with vars := change scope.vars }).Within line script :=
  (show s.All (Function.Within line script) from h).changeVars here change

theorem define (h : s.Within line script) (env : Env) (name : String) {f : Function}
    (hf : f.Within line script) : (s.define env name f).Within line script :=
  (show s.All (Function.Within line script) from h).define env name hf

theorem addChild (h : s.Within line script) (env : Env) :
    (s.addChild env).2.Within line script :=
  (show s.All (Function.Within line script) from h).addChild env

theorem function? (h : s.Within line script) {env : Env} {name : String} {f : Function}
    (hf : s.function? env name = some f) : f.Within line script :=
  (show s.All (Function.Within line script) from h).function? hf

end Scopes.Within

theorem Action.Within.andThen {line script : Prop} {α : Type} {check : Except Fault α}
    {next : α → Action} (h : ∀ a, (next a).Within line script) :
    (Action.andThen check next).Within line script := by
  cases check with
  | error f => exact .done _
  | ok a => exact h a

theorem Builtins.within {line script : Prop} :
    ∀ entry ∈ Builtins.all, Native.Within line script entry.2 := by
  have hprint : Native.Within line script print := by
    intro args
    refine .andThen fun _ => .andThen fun v => ?_
    split
    · exact .message (.done _)
    · exact .done _
  have htypeof : Native.Within line script typeof :=
    fun args => .andThen fun _ => .andThen fun v => .done _
  have hstr : Native.Within line script str := by
    intro args
    refine .andThen fun _ => .andThen fun v => ?_
    split <;> exact .done _
  have hassert : Native.Within line script assert := by
    intro args
    refine .andThen fun _ => .andThen fun message => .andThen fun holds => ?_
    split <;> exact .done _
  simp only [all, List.forall_mem_cons]
  exact ⟨hprint, htypeof, hstr, hassert, nofun⟩

theorem Machine.within_initial {line script : Prop} :
    ({ scopes := .initial } : Machine).Within line script := by
  refine ⟨?_, ?_⟩
  · exact List.foldlRecOn Builtins.all _ Scopes.Within.start fun s hs entry hentry =>
      hs.define .global entry.1 (Builtins.within entry hentry)
  · intro entry hentry
    cases hentry

end ClipScript
