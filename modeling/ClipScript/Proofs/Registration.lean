/-
Plugins are registered once and for good.

A run changes the registry in one way only.  An import of a name that is not in it finds the library
of a plugin, the library can be loaded, and the plugin is put at the end (`Registry.Loads`).  What a
run does to the registry is a sequence of such steps (`Registry.Grows`), so the registry only gets
longer, no name is in it twice, and what a registered plugin answers never changes.

That it takes an import of the name is said with an evaluator that passes over some imports:
`Evaluator.importingOnly`.  A run that passes over the imports of a name registers nothing under it.
All this is one contract, in which the worlds are the registries (`registering`).
-/
import ClipScript.Proofs.Contract.Evaluation
import ClipScript.Proofs.Storable
import Mathlib.Data.List.Nodup
import Mathlib.Logic.Relation

namespace ClipScript

namespace Registry

/-- A plugin is loaded that was not, under one of the names that may be imported. -/
inductive Loads (host : Host) (imported : String → Prop) : Registry → Registry → Prop where
  | load {r : Registry} {name path : String} {plugin : Plugin} : imported name →
      r.contains name = false →
      ImportTarget.locate host.files host.pluginDir name host.scriptExtension
        = .ok (.plugin path) →
      host.load name path = .ok plugin → Loads host imported r (r.register name plugin)

/-- Plugins are loaded one after the other. -/
def Grows (host : Host) (imported : String → Prop) : Registry → Registry → Prop :=
  Relation.ReflTransGen (Loads host imported)

variable {host : Host} {imported : String → Prop} {r r' : Registry}

theorem not_mem_names_of_contains {name : String} (h : r.contains name = false) :
    name ∉ r.names := by
  intro hmem
  rw [contains, List.contains_iff_mem.mpr hmem] at h
  cases h

theorem names_subset_of_isPrefix (h : r.plugins <+: r'.plugins) : r.names ⊆ r'.names :=
  (h.map Prod.fst).subset

theorem Grows.isPrefix (h : Grows host imported r r') : r.plugins <+: r'.plugins := by
  induction h with
  | refl => exact List.prefix_refl _
  | tail _ hstep ih =>
    cases hstep with
    | load => exact ih.trans (List.prefix_append _ _)

theorem Grows.nodup (h : Grows host imported r r') (hr : r.names.Nodup) : r'.names.Nodup := by
  induction h with
  | refl => exact hr
  | tail _ hstep ih =>
    cases hstep with
    | load _ hnew _ _ =>
      rw [names_register, ← List.concat_eq_append]
      exact ih.concat (not_mem_names_of_contains hnew)

/-- What is in a registry was there before, or it was found and loaded under a name that may be
imported and had no plugin before. -/
theorem Grows.exists_of_mem (h : Grows host imported r r') {name : String} {plugin : Plugin}
    (hmem : (name, plugin) ∈ r'.plugins) :
    (name, plugin) ∈ r.plugins ∨
      imported name ∧ name ∉ r.names ∧ ∃ path,
        ImportTarget.locate host.files host.pluginDir name host.scriptExtension
          = .ok (.plugin path) ∧ host.load name path = .ok plugin := by
  induction h with
  | refl => exact .inl hmem
  | tail hbefore hstep ih =>
    cases hstep with
    | load hname hout hlocate hload =>
      rcases List.mem_append.mp hmem with hold | hnew
      · exact ih hold
      · cases List.mem_singleton.mp hnew
        have hearlier := names_subset_of_isPrefix (Grows.isPrefix hbefore)
        exact .inr ⟨hname, fun hin => not_mem_names_of_contains hout (hearlier hin), _, hlocate,
          hload⟩

theorem resolve_of_isPrefix (h : r.plugins <+: r'.plugins) {name : String} (hname : name ∈ r.names)
    (function : String) : r'.resolve name function = r.resolve name function := by
  obtain ⟨rest, hrest⟩ := h
  obtain ⟨entry, hentry, rfl⟩ := List.mem_map.mp hname
  have hsome : (r.plugins.lookup entry.1).isSome :=
    List.lookup_isSome_iff.mpr ⟨entry, hentry, beq_self_eq_true _⟩
  have hlookup : r'.plugins.lookup entry.1 = r.plugins.lookup entry.1 := by
    rw [← hrest, List.lookup_append, Option.or_of_isSome hsome]
  rw [resolve, resolve, hlookup]

end Registry

/-- Plugins are loaded under names that may be imported, and the registry changes in no other
way. -/
def registering (host : Host) (imported : String → Prop) : Contract where
  World := Registry
  order := {
    le := Registry.Grows host imported
    le_refl := fun _ => .refl
    le_trans := fun _ _ _ => .trans }
  free := True
  holds W _ r := r = W
  own _ _ := True
  callable _ _ _ := True
  own_mono _ _ := trivial
  own_global _ := trivial
  callable_mono _ _ := trivial
  core _ := .inl trivial
  user _ := trivial
  function? _ _ _ _ := trivial
  resolve _ _ _ := trivial
  assign _ h _ _ := ⟨_, .refl, h⟩
  define _ _ h _ := ⟨_, .refl, h⟩
  enter _ h _ := ⟨_, .refl, trivial, h⟩

theorem hosts_registering {host : Host} {imported : String → Prop} {name : String}
    (h : imported name) : (registering host imported).Hosts host name := by
  rintro W s r path plugin rfl hnew hlocate hload
  exact ⟨r.register name plugin, .single (.load h hnew hlocate hload), rfl⟩

namespace Evaluator

/-- An evaluator that passes over the imports of all other names, for nodes and calls nested at most
`n` deep. -/
def importingOnly (imported : String → Prop) [DecidablePred imported] (host : Host) :
    Nat → Evaluator
  | 0 => .inert
  | n + 1 =>
    { evaluate := fun env tree =>
        if ∀ name ∈ tree.imported?, imported name then
          (importingOnly imported host n).node host env tree
        else return .proceed .void
      invoke := (importingOnly imported host n).call }

theorem importingOnly_true (host : Host) (depth : Nat) :
    importingOnly (fun _ => True) host depth = ofDepth host depth := by
  induction depth with
  | zero => rfl
  | succ depth ih =>
    have hevaluate : (importingOnly (fun _ => True) host (depth + 1)).evaluate
        = (ofDepth host depth).node host := by
      funext env tree
      rw [← ih]
      exact if_pos fun _ _ => trivial
    have hinvoke : (importingOnly (fun _ => True) host (depth + 1)).invoke
        = (ofDepth host depth).call := by
      rw [importingOnly, ih]
    exact congrArg₂ Evaluator.mk hevaluate hinvoke

variable {imported : String → Prop} [DecidablePred imported]

theorem parts_importingOnly (host : Host) (depth : Nat) (active : List Env)
    (scripts : List String) :
    (registering host imported).Parts active scripts (fun _ => True)
      (importingOnly imported host depth) (importingOnly imported host depth) := by
  induction depth generalizing active scripts with
  | zero => exact .inert trivial
  | succ depth ih =>
    refine ⟨fun {W env n} _ _ => ?_, fun hf args => Contract.Parts.call (fun _ => ih ..) hf args⟩
    show (registering host imported).Agrees scripts W
      (if ∀ name ∈ n.imported?, imported name then _ else _)
      (if ∀ name ∈ n.imported?, imported name then _ else _)
    split
    · next hnames =>
      exact Contract.Parts.node_of_free trivial
        (fun name hname => hosts_registering (hnames name hname))
        (fun scripts => ih (env :: active) scripts) trivial List.mem_cons_self
    · exact Contract.Agrees.pure _

/-- A run loads plugins one after the other, under names whose imports it does not pass over. -/
theorem grows_runSource (host : Host) (depth : Nat) (source : String) (m : Machine) :
    Registry.Grows host imported m.plugins
      (((importingOnly imported host depth).runSource source).outcome m).2.plugins := by
  have hparts : (registering host imported).Parts [] m.importing (fun _ => True) _ _ :=
    parts_importingOnly host depth [] m.importing
  have hready : (registering host imported).Ready m.importing m.plugins m := ⟨rfl, rfl⟩
  obtain ⟨-, hkeeps⟩ := hparts.runSource source le_rfl hready
  obtain ⟨W', hgrows, hafter⟩ := hkeeps.ready
  rw [hafter.holds]
  exact hgrows

end Evaluator

namespace Interpreter

def runUnder (i : Interpreter) (host : Host) (source : String) : Interpreter :=
  ({ i with host }.runSource source).2

/-- Runs one script after the other, each with what is found outside at its time, whether they fail
or not. -/
def runsUnder (i : Interpreter) (runs : List (Host × String)) : Interpreter :=
  runs.foldl (fun i run => i.runUnder run.1 run.2) i

/-- A run with the imports of a name passed over. -/
def runWithout (i : Interpreter) (name : String) (host : Host) (source : String) : Interpreter :=
  (i.perform ((Evaluator.importingOnly (· ≠ name) host i.depth).runSource source)).2

/-- A run brings a plugin: its file is found and can be loaded, and it takes an import of the name
to have it registered. -/
structure Brings (i : Interpreter) (host : Host) (source name : String) (plugin : Plugin) :
    Prop where
  loaded : ∃ path,
    ImportTarget.locate host.files host.pluginDir name host.scriptExtension = .ok (.plugin path) ∧
      host.load name path = .ok plugin
  registered : (name, plugin) ∈ (i.runUnder host source).machine.plugins.plugins
  imported : name ∉ (i.runWithout name host source).machine.plugins.names

theorem grows_runUnder (i : Interpreter) (host : Host) (source : String) :
    Registry.Grows host (fun _ => True) i.machine.plugins
      (i.runUnder host source).machine.plugins := by
  have hgrows : Registry.Grows host (fun _ => True) _ _ :=
    Evaluator.grows_runSource host i.depth source i.machine
  rw [Evaluator.importingOnly_true] at hgrows
  exact hgrows

theorem isPrefix_runsUnder (i : Interpreter) (runs : List (Host × String)) :
    i.machine.plugins.plugins <+: (i.runsUnder runs).machine.plugins.plugins := by
  induction runs generalizing i with
  | nil => exact List.prefix_refl _
  | cons run rest ih => exact (i.grows_runUnder run.1 run.2).isPrefix.trans (ih _)

theorem nodup_runsUnder {i : Interpreter} (h : i.machine.plugins.names.Nodup)
    (runs : List (Host × String)) : (i.runsUnder runs).machine.plugins.names.Nodup := by
  induction runs generalizing i with
  | nil => exact h
  | cons run rest ih => exact ih ((i.grows_runUnder run.1 run.2).nodup h)

theorem not_mem_names_runWithout {i : Interpreter} {name : String}
    (h : name ∉ i.machine.plugins.names) (host : Host) (source : String) :
    name ∉ (i.runWithout name host source).machine.plugins.names := by
  have hgrows : Registry.Grows host (· ≠ name) _ (i.runWithout name host source).machine.plugins :=
    Evaluator.grows_runSource host i.depth source i.machine
  intro hmem
  obtain ⟨⟨found, plugin⟩, hentry, rfl⟩ := List.mem_map.mp hmem
  rcases hgrows.exists_of_mem hentry with hold | ⟨hne, -⟩
  · exact h (List.mem_map_of_mem hold)
  · exact hne rfl

/-- A plugin that is registered after a run was so before it, or the run brings it. -/
theorem mem_or_brings {i : Interpreter} {host : Host} {source name : String} {plugin : Plugin}
    (h : (name, plugin) ∈ (i.runUnder host source).machine.plugins.plugins) :
    (name, plugin) ∈ i.machine.plugins.plugins ∨ i.Brings host source name plugin := by
  rcases (i.grows_runUnder host source).exists_of_mem h with hold | ⟨-, hout, hloaded⟩
  · exact .inl hold
  · exact .inr ⟨hloaded, h, not_mem_names_runWithout hout host source⟩

theorem mem_or_exists_brings {i : Interpreter} {runs : List (Host × String)} {name : String}
    {plugin : Plugin} (h : (name, plugin) ∈ (i.runsUnder runs).machine.plugins.plugins) :
    (name, plugin) ∈ i.machine.plugins.plugins ∨
      ∃ earlier run later, runs = earlier ++ run :: later ∧
        (i.runsUnder earlier).Brings run.1 run.2 name plugin := by
  induction runs generalizing i with
  | nil => exact .inl h
  | cons run rest ih =>
    rcases ih (i := i.runUnder run.1 run.2) h with hfirst | ⟨earlier, found, later, hsplit, hbrings⟩
    · rcases mem_or_brings hfirst with hold | hbrings
      · exact .inl hold
      · exact .inr ⟨[], run, rest, rfl, hbrings⟩
    · exact .inr ⟨run :: earlier, found, later, by rw [hsplit]; rfl, hbrings⟩

theorem plugins_fresh (host : Host) (depth : Nat) (natives : List (String × Native)) :
    (fresh host depth natives).machine.plugins = .empty := by
  let empty (i : Interpreter) : Prop := i.machine.plugins = .empty
  exact List.foldlRecOn natives _ (motive := empty) rfl fun _ hi _ _ => hi

/-- Let scripts be run one after the other, failing or not, each with the files and the way of
loading plugins of its time.  The registry only grows at its end, no name is in it twice, and every
plugin in it was brought by one of the runs: its library was found and loaded, on an import of its
name.  So whatever is run next, a plugin that is registered answers for its name as before. -/
theorem registry_append_only (host : Host) (depth : Nat) (natives : List (String × Native))
    (runs more : List (Host × String)) :
    let start := fresh host depth natives
    let i := start.runsUnder runs
    let j := i.runsUnder more
    i.machine.plugins.plugins <+: j.machine.plugins.plugins ∧
    i.machine.plugins.names.Nodup ∧
    (∀ name plugin, (name, plugin) ∈ i.machine.plugins.plugins →
      ∃ earlier run later, runs = earlier ++ run :: later ∧
        (start.runsUnder earlier).Brings run.1 run.2 name plugin) ∧
    ∀ name ∈ i.machine.plugins.names, ∀ function,
      j.machine.plugins.resolve name function = i.machine.plugins.resolve name function := by
  intro start i j
  have hempty : start.machine.plugins = .empty := plugins_fresh host depth natives
  have hgrown : i.machine.plugins.plugins <+: j.machine.plugins.plugins :=
    i.isPrefix_runsUnder more
  have hnodup : start.machine.plugins.names.Nodup := by
    rw [hempty]
    exact List.nodup_nil
  refine ⟨hgrown, nodup_runsUnder hnodup runs, fun name plugin hmem => ?_,
    fun name hname function => Registry.resolve_of_isPrefix hgrown hname function⟩
  rcases mem_or_exists_brings hmem with hold | hbrings
  · rw [hempty] at hold
    cases hold
  · exact hbrings

end Interpreter
end ClipScript
