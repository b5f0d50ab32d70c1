/-
How a plugin came to be known makes no difference to a script.

A parser that has seen the import of a plugin reads `p.f(x)` as a call.  One that has not leaves it
to the evaluator, which finds out when it reaches the chain.  The two readings of a script come to
the same end where `p` is a plugin and nothing else, if the script groups its calls so that the
chain is there to be found (`Node.Apt`) and no text that is run on its behalf takes the name away
(`TextSpares`).

Either reading takes at most twice the depth of the other, so one run comes to an end if and only if
the other does.
-/
import ClipScript.Proofs.Inertness
import ClipScript.Proofs.Order
import ClipScript.Proofs.Parser.Knowing
import ClipScript.Proofs.Regime.Regrouped

namespace ClipScript

/-- An error, with the line and the function it is attributed to. -/
structure Failure where
  fault : Fault
  origin? : Option (Nat × Option String)
deriving DecidableEq, Repr

def Stop.failure? : Stop → Option Failure
  | .error e => some ⟨e.fault, e.origin.map fun o => (o.span.line, o.function)⟩
  | .tooDeep => none

/-- How a run ended: whether it failed and with what, the variables of all scopes, and what was
said. -/
structure Ending where
  result : Except (Option Failure) Unit
  vars : ScopeId → Variables
  reports : Array Report

def Ending.of (o : Except Stop Unit × Machine) : Ending :=
  ⟨o.1.mapError Stop.failure?, fun id => (o.2.scopes.get id).vars, o.2.reports⟩

/-- Statements, run from a machine, come to an end, and this is what there is to see of it. -/
def Evaluator.EndsIn (host : Host) (statements : List Node) (m : Machine) (ending : Ending) :
    Prop :=
  ∃ o, Ends host (fun ev => ev.runAll statements) m o ∧ Ending.of o = ending

namespace Evaluator

/-- What there is to see of a run with a certain depth, unless it is given up. -/
def endingAt (host : Host) (depth : Nat) (statements : List Node) (m : Machine) : Option Ending :=
  match (runAll (ofDepth host depth) statements).outcome m with
  | (.error .tooDeep, _) => none
  | o => some (.of o)

theorem endsIn_iff_of_endingAt {host : Host} {depth : Nat} {statements : List Node} {m : Machine}
    {ending : Ending} (h : endingAt host depth statements m = some ending) (other : Ending) :
    EndsIn host statements m other ↔ other = ending := by
  unfold endingAt at h
  split at h
  · cases h
  · next hne =>
    cases h
    have hends : Ends host (fun ev => ev.runAll statements) m
        ((runAll (ofDepth host depth) statements).outcome m) :=
      ⟨depth, rfl, fun hdeep => hne _ (Prod.ext hdeep rfl)⟩
    constructor
    · rintro ⟨o, ho, rfl⟩
      rw [ho.unique (lawful_runAll statements) hends]
    · rintro rfl
      exact ⟨_, hends, rfl⟩

end Evaluator

theorem TextSpares.of_binds {p source : String}
    (h : (Program.ofSource source).toOption.all
      fun program => decide (∀ n ∈ program.statements, ∀ u ∈ n.subtrees, p ∉ u.binds)) :
    TextSpares p source := by
  intro program hread n hn
  rw [hread] at h
  exact .of_binds (of_decide_eq_true h n hn)

/-- The name is that of a plugin, and in no scope that of anything else. -/
structure Machine.Offers (p : String) (m : Machine) : Prop where
  plugin : m.plugins.contains p
  global : m.scopes.contains 0
  lacks : ∀ id, (m.scopes.get id).Lacks p

/-- Functions other than those of scripts run no texts that bind `p`. -/
def Function.Spares (p : String) : Function → Prop
  | .core _ native => native.Spares p
  | .user _ => True

structure Machine.Spares (p : String) (m : Machine) : Prop where
  functions : m.scopes.All (Function.Spares p)
  plugins : m.plugins.All (Native.Spares p)

/-- No plugin that can be loaded and no script that can be imported binds `p`. -/
structure Host.Spares (p : String) (host : Host) : Prop where
  plugins : host.All (Native.Spares p)
  scripts : ∀ {name path source},
    ImportTarget.locate host.files host.pluginDir name host.scriptExtension = .ok (.script path) →
    host.files.readText path = .ok source → TextSpares p source

namespace Regrouping

open Node (Regrouped)

variable {p : String} {host : Host} {m : Machine}

theorem hosts_of_spares (h : host.Spares p) : (regime p).Hosts host :=
  ⟨h.plugins, fun _ _ _ _ => trivial, fun _ hlocate hread => h.scripts hlocate hread⟩

def World.guarding (s : Scopes) : World := ⟨fun id => if s.contains id then some .guarded else none⟩

theorem machines_self (hoffers : m.Offers p) (hspares : m.Spares p) :
    (regime p).Machines (World.guarding m.scopes) m m := by
  have hfunctions : ∀ id name,
      Option.Rel (Function.Akin (Native.Spares p) (User p (World.guarding m.scopes)))
        ((m.scopes.get id).functions.find? name) ((m.scopes.get id).functions.find? name) := by
    intro id name
    cases hfound : (m.scopes.get id).functions.find? name with
    | none => exact .none
    | some f =>
      have hf := hspares.functions id name f hfound
      cases f with
      | core name native => exact .some (.core hf)
      | user f => exact .some (.user (.same _ f))
  refine ⟨⟨⟨rfl, Nat.zero_le _, hfunctions, fun _ _ => rfl⟩, fun id hid => ?_, ?_,
    fun id _ => hoffers.lacks id⟩, .refl _, rfl, rfl, rfl, hspares.plugins, hoffers.plugin, rfl⟩
  · exact if_neg (by rw [hid]; decide)
  · exact if_pos hoffers.global

theorem statement_of_regrouped {n n' : Node} (h : Regrouped p (.tree .written) n n') :
    (regime p).Statement n n' :=
  ⟨h.span, h.unchain⟩

theorem failure?_eq {e e' : RuntimeError} (h : (regime p).Errors e e') :
    (Stop.error e).failure? = (Stop.error e').failure? := by
  obtain ⟨fault, origin⟩ := e
  obtain ⟨fault', origin'⟩ := e'
  obtain ⟨hfault, -, horigin⟩ := h
  cases hfault
  cases horigin with
  | none => rfl
  | @some o o' ho =>
    have hline : o.span.line = o'.span.line := ho.1.line
    simp only [Stop.failure?, Option.map_some, hline, ho.2]

theorem ending_of_follows {W : World} {o o' : Except Stop Unit × Machine}
    (h : (regime p).Follows (fun _ => Eq) W o o') (hended : o.1 ≠ .error .tooDeep) :
    o'.1 ≠ .error .tooDeep ∧ Ending.of o = Ending.of o' := by
  have seen : ∀ {W : World} {m m' : Machine} {r r' : Except Stop Unit},
      (regime p).Machines W m m' → r.mapError Stop.failure? = r'.mapError Stop.failure? →
      Ending.of (r, m) = Ending.of (r', m') := by
    intro W m m' r r' hmm' hr
    have hvars : (fun id => (m.scopes.get id).vars) = fun id => (m'.scopes.get id).vars :=
      funext ((regime p).vars hmm'.scopes)
    simp only [Ending.of, hr, hvars, hmm'.reports]
  cases h with
  | value _ _ hmm' =>
    refine ⟨?_, seen hmm' rfl⟩
    intro hdeep
    cases hdeep
  | error _ he hmm' =>
    refine ⟨?_, seen hmm' (congrArg Except.error (failure?_eq he))⟩
    intro hdeep
    cases hdeep
  | tooDeep => exact absurd rfl hended
  | gaveUp => exact absurd rfl hended

theorem endsIn_of_regrouped {statements statements' : List Node} {ending : Ending}
    (hhost : host.Spares p) (hoffers : m.Offers p) (hspares : m.Spares p)
    (h : List.Forall₂ (Regrouped p (.tree .written)) statements statements')
    (hends : Evaluator.EndsIn host statements m ending) :
    Evaluator.EndsIn host statements' m ending := by
  obtain ⟨o, ⟨depth, rfl, hended⟩, rfl⟩ := hends
  have hparts := parts_ofDepth (hosts_of_spares hhost) depth (2 * depth) le_rfl
  have hfollows := hparts.runAll (h.imp fun _ _ => statement_of_regrouped) le_rfl
    (machines_self hoffers hspares)
  obtain ⟨hended', hsame⟩ := ending_of_follows hfollows hended
  exact ⟨_, ⟨2 * depth, rfl, hended'⟩, hsame.symm⟩

end Regrouping

namespace Evaluator

/-- Let `p` be a plugin and nothing else.  A script that leaves the name alone, and groups its calls
so that chains on it are found, comes to the same end whether or not it is read as behind an import
of `p`, whatever else was imported.  So do both readings or neither come to an end. -/
theorem recognition_immaterial {p : String} {names : List String} {source : String}
    {known unknown : Program} (hknown : Program.ofSourceKnowing (p :: names) source = .ok known)
    (hunknown : Program.ofSourceKnowing names source = .ok unknown)
    (hapt : ∀ n ∈ unknown.statements, n.Apt p) {host : Host} (hhost : host.Spares p) {m : Machine}
    (hoffers : m.Offers p) (hspares : m.Spares p) (ending : Ending) :
    EndsIn host known.statements m ending ↔ EndsIn host unknown.statements m ending := by
  have hregrouped : List.Forall₂ (Node.Regrouped p (.tree .written)) known.statements
      unknown.statements := by
    have hfits := Program.forall₂_fits hknown hunknown
    exact List.forall₂_iff_zip.mpr ⟨hfits.length_eq, fun hx =>
      Node.regrouped_all_of_fits hfits hapt _ hx⟩
  have hback : List.Forall₂ (Node.Regrouped p (.tree .written)) unknown.statements
      known.statements := by
    refine List.Forall₂.flip (hregrouped.imp ?_)
    exact fun _ _ h => h.symm
  exact ⟨Regrouping.endsIn_of_regrouped hhost hoffers hspares hregrouped,
    Regrouping.endsIn_of_regrouped hhost hoffers hspares hback⟩

section Example

/-- A plugin that can give an answer and run a text. -/
def lending (text : String) : Plugin :=
  .ofTable ((Table.insert {} "answer" fun _ => .value (.number 42)).insert "lend"
    fun _ => .run text (.value .void))

/-- A machine before its first run, but for the plugin. -/
def offering (text : String) : Machine :=
  { scopes := .initial, plugins := Registry.empty.register "fx" (lending text) }

theorem offers_offering (text : String) : (offering text).Offers "fx" := by
  refine ⟨rfl, rfl, fun id => ?_⟩
  cases id with
  | zero => exact ⟨rfl, rfl⟩
  | succ id => exact ⟨rfl, rfl⟩

theorem spares_offering {text : String} (h : TextSpares "fx" text) :
    (offering text).Spares "fx" := by
  have hinitial : Scopes.initial.All (Function.Spares "fx") :=
    List.foldlRecOn Builtins.all _ .start fun s hs entry hentry =>
      hs.define .global entry.1 (f := .core entry.1 entry.2)
        (Builtins.keeps (fun _ => trivial) entry hentry)
  have hempty : (.empty : Table Native).All (Native.Spares "fx") := by
    intro name native hnative
    cases hnative
  have hplugin : (lending text).All (Native.Spares "fx") :=
    (hempty.insert "answer" fun _ => .value (.number 42)).insert "lend"
      fun _ => .run h (.value .void)
  exact ⟨hinitial, Registry.All.empty.register hplugin "fx"⟩

theorem spares_bareHost (p : String) : bareHost.Spares p := by
  refine ⟨fun name path plugin hload => ?_, fun _ hread => ?_⟩
  · cases hload
  · obtain ⟨place, content, hentry, -⟩ := FileTree.exists_of_readText hread
    cases hentry

/-- A script with calls of a plugin in the body of a function, as a statement, in an argument, and
with links behind them. -/
def mixedScript : String :=
  "function f(num n) \x7b return fx.answer(n).str; \x7d fx.lend(); x = fx.answer(fx.answer(y)).f();"

/-- Both readings of the script come to an end, with no failure, and to the same one. -/
theorem recognition_immaterial_mixedScript :
    ∃ known unknown, Program.ofSourceKnowing ["fx"] mixedScript = .ok known ∧
      Program.ofSourceKnowing [] mixedScript = .ok unknown ∧
      (∃ ending, EndsIn bareHost known.statements (offering "y = 7;") ending ∧
        ending.result.isOk) ∧
      ∀ ending, EndsIn bareHost known.statements (offering "y = 7;") ending
        ↔ EndsIn bareHost unknown.statements (offering "y = 7;") ending := by
  have hknown : (Program.ofSourceKnowing ["fx"] mixedScript).toOption.any fun q =>
      (endingAt bareHost 20 q.statements (offering "y = 7;")).any (·.result.isOk) := by
    decide +kernel
  have hunknown : (Program.ofSourceKnowing [] mixedScript).toOption.any fun q =>
      decide (∀ n ∈ q.statements, n.Apt "fx") := by
    decide +kernel
  have hspares : TextSpares "fx" "y = 7;" := .of_binds (by decide +kernel)
  obtain ⟨known, hread, hends⟩ := Program.exists_of_any hknown
  obtain ⟨unknown, hread', hapt⟩ := Program.exists_of_any hunknown
  obtain ⟨ending, hending, hok⟩ := (Option.any_eq_true _ _).mp hends
  refine ⟨known, unknown, hread, hread',
    ⟨ending, (endsIn_iff_of_endingAt hending ending).mpr rfl, hok⟩, fun ending => ?_⟩
  exact recognition_immaterial hread hread' (of_decide_eq_true hapt) (spares_bareHost "fx")
    (offers_offering _) (spares_offering hspares) ending

/-- Both readings of a text leave the name `fx` alone, and yet they come to different ends. -/
def ToldApart (m : Machine) (source : String) : Prop :=
  ∃ known unknown, Program.ofSourceKnowing ["fx"] source = .ok known ∧
    Program.ofSourceKnowing [] source = .ok unknown ∧
    (∀ n ∈ unknown.statements, ∀ u ∈ n.subtrees, "fx" ∉ u.binds) ∧
    ¬ ∀ ending, EndsIn bareHost known.statements m ending
      ↔ EndsIn bareHost unknown.statements m ending

theorem toldApart_of_isOk {m : Machine} {source : String} (success : Bool)
    (hknown : (Program.ofSourceKnowing ["fx"] source).toOption.any fun q =>
      (endingAt bareHost 20 q.statements m).any (·.result.isOk == success))
    (hunknown : (Program.ofSourceKnowing [] source).toOption.any fun q =>
      decide (∀ n ∈ q.statements, ∀ u ∈ n.subtrees, "fx" ∉ u.binds) &&
        (endingAt bareHost 20 q.statements m).any (·.result.isOk != success)) :
    ToldApart m source := by
  obtain ⟨known, hread, hends⟩ := Program.exists_of_any hknown
  obtain ⟨unknown, hread', hcheck⟩ := Program.exists_of_any hunknown
  rw [Bool.and_eq_true, decide_eq_true_iff] at hcheck
  obtain ⟨hbinds, hends'⟩ := hcheck
  obtain ⟨ending, hending, hok⟩ := (Option.any_eq_true _ _).mp hends
  obtain ⟨ending', hending', hok'⟩ := (Option.any_eq_true _ _).mp hends'
  refine ⟨known, unknown, hread, hread', hbinds, fun hsame => ?_⟩
  have hrun := (endsIn_iff_of_endingAt hending ending).mpr rfl
  rw [hsame, endsIn_iff_of_endingAt hending'] at hrun
  rw [← hrun, bne, hok] at hok'
  cases hok'

/-- Without the further conditions the two readings can be told apart. -/
theorem recognition_matters :
    bareHost.Spares "fx" ∧ (∀ text, (offering text).Offers "fx") ∧
    (offering "y = 7;").Spares "fx" ∧
    -- the operator takes the name alone, the name is a link, and the faulty chain is never reached
    (∀ source ∈ ["x = -fx.answer();", "x = 5.fx.answer();", "if (false) fx.answer().(5);"],
      ToldApart (offering "y = 7;") source) ∧
    -- the text that is run in between takes the name away
    ToldApart (offering "fx = 7;") "fx.lend(); x = fx.answer();" := by
  have hspares : TextSpares "fx" "y = 7;" := .of_binds (by decide +kernel)
  refine ⟨spares_bareHost "fx", offers_offering, spares_offering hspares, ?_, ?_⟩
  · simp only [List.forall_mem_cons]
    refine ⟨?_, ?_, ?_, List.forall_mem_nil _⟩
    · exact toldApart_of_isOk true (by decide +kernel) (by decide +kernel)
    · exact toldApart_of_isOk true (by decide +kernel) (by decide +kernel)
    · exact toldApart_of_isOk false (by decide +kernel) (by decide +kernel)
  · exact toldApart_of_isOk true (by decide +kernel) (by decide +kernel)

end Example
end Evaluator
end ClipScript
