/-
Imports cannot loop.

Without functions written in the language, and with native functions that ask nothing of the
interpreter, there are two ways to nest deeper: a part of a tree, or the call that takes the place
of a chain, nests less deep than the tree (`Node.Plain`); and an imported script is on the list of
those being imported while it runs, so it is not imported again below itself.  Only scripts of
finitely many names can be imported at all, hence a run nests to a bounded depth, and it ends
(`Evaluator.run_ends`).

The contract for this is `standalone`, which is not free: it has no functions of scripts, and no run
is given up.
-/
import ClipScript.Proofs.Contract.Evaluation
import ClipScript.Proofs.Inertness
import ClipScript.Proofs.Node.Plain
import ClipScript.Proofs.Order

namespace ClipScript

def Function.Alone : Function → Prop
  | .core _ native => Native.Alone native
  | .user _ => False

theorem Action.Alone.andThen {α : Type} {check : Except Fault α} {next : α → Action}
    (h : ∀ a, (next a).Alone) : (Action.andThen check next).Alone := by
  cases check with
  | error f => exact .done _
  | ok a => exact h a

theorem Builtins.alone : ∀ entry ∈ Builtins.all, Native.Alone entry.2 := by
  have hprint : Native.Alone print := by
    intro args
    refine .andThen fun _ => .andThen fun v => ?_
    split
    · exact .message (.done _)
    · exact .done _
  have htypeof : Native.Alone typeof := fun args => .andThen fun _ => .andThen fun v => .done _
  have hstr : Native.Alone str := by
    intro args
    refine .andThen fun _ => .andThen fun v => ?_
    split <;> exact .done _
  have hassert : Native.Alone assert := by
    intro args
    refine .andThen fun _ => .andThen fun message => .andThen fun holds => ?_
    split <;> exact .done _
  simp only [all, List.forall_mem_cons]
  exact ⟨hprint, htypeof, hstr, hassert, List.forall_mem_nil _⟩

theorem Scopes.alone_initial : Scopes.initial.All Function.Alone :=
  List.foldlRecOn Builtins.all _ .start fun _ hs entry hentry =>
    hs.define .global entry.1 (f := .core entry.1 entry.2) (Builtins.alone entry hentry)

/-- All functions at hand are native and ask nothing of the interpreter. -/
def standalone : Contract where
  World := Unit
  order := PUnit.instLinearOrder.toPreorder
  free := False
  holds _ s r := s.All Function.Alone ∧ r.All Native.Alone
  own _ _ := True
  callable _ _ f := f.Alone
  own_mono _ _ := trivial
  own_global _ := trivial
  callable_mono _ h := h
  core h := .inr h
  user h := h
  function? h _ _ hf := h.1.function? hf
  resolve _ h hresolve := h.2.resolve hresolve
  assign name h _ _ := ⟨(), le_rfl, h.1.changeVars _ fun vars => vars.assign name _, h.2⟩
  define _ hfree := hfree.elim
  enter _ _ h := h.elim

theorem hosts_standalone {host : Host} (h : host.All Native.Alone) (name : String) :
    standalone.Hosts host name :=
  fun hholds _ _ hload => ⟨(), le_rfl, hholds.1, hholds.2.register (h _ _ _ hload) name⟩

/-- What the evaluation of a plain tree hands on nests less deep. -/
theorem Node.Plain.hands {imported : String → Prop} {k : Nat} {n : Node}
    (h : n.Plain imported (k + 1)) : standalone.Hands (Node.Plain imported k) n := by
  cases h with
  | leaf | importName _ => trivial
  | sequence hbody => exact hbody
  | @assign _ _ _ op _ hop htarget hvalue =>
    cases op with
    | chain => exact absurd rfl hop
    | _ => exact ⟨htarget, hvalue⟩
  | assignChain htarget hlink => exact fun u hu => htarget.unchainAs hlink hu
  | binary hlhs hrhs => exact ⟨hlhs, hrhs⟩
  | unary hoperand => exact hoperand
  | ternary hcondition hyes hno => exact ⟨hcondition, hyes, hno⟩
  | call hargs => exact hargs
  | chain hvalue hlink =>
    refine ⟨fun u hu => hvalue.unchainAs hlink hu, fun owner _ u hu => ?_⟩
    exact (hlink.pluginCall hu).mono (Nat.add_le_add_right hvalue.pos _)
  | defaultValue hvalue => exact hvalue
  | returnValue hvalue => exact hvalue
  | ifElse hcondition hyes hno => exact ⟨hcondition, hyes, hno⟩

/-- How many of these scripts are not being imported. -/
def remaining (paths scripts : List String) : Nat :=
  (paths.filter fun path => !scripts.any (Path.same path)).length

theorem remaining_cons_lt {paths scripts : List String} {path : String} (hpath : path ∈ paths)
    (hout : scripts.any (Path.same path) = false) :
    remaining paths (path :: scripts) < remaining paths scripts := by
  have hsplit : paths.filter (fun p => !(path :: scripts).any (Path.same p))
      = (paths.filter fun p => !scripts.any (Path.same p)).filter fun p => !Path.same p path := by
    rw [List.filter_filter]
    refine List.filter_congr fun p _ => ?_
    rw [List.any_cons, Bool.not_or]
  rw [remaining, hsplit]
  refine List.length_filter_lt_length_iff_exists.mpr ⟨path, ?_, ?_⟩
  · rw [List.mem_filter, hout]
    exact ⟨hpath, rfl⟩
  · simp [Path.same]

/-- Scripts that are found under certain names are among these paths, and nest at most `bound`
deep. -/
def Host.Bounds (host : Host) (imported : String → Prop) (paths : List String) (bound : Nat) :
    Prop :=
  ∀ {name path source program}, imported name →
    ImportTarget.locate host.files host.pluginDir name host.scriptExtension = .ok (.script path) →
    host.files.readText path = .ok source → Program.ofSource source = .ok program →
    path ∈ paths ∧ ∀ n ∈ program.statements, n.Plain imported bound

namespace Evaluator

variable {host : Host} {imported : String → Prop} {paths scripts : List String} {bound : Nat}

/-- Trees that nest `k` deep take `k` levels and one more to call a function, and on top of that
what each script takes that can still be imported. -/
theorem parts_of_depth (hhost : host.All Native.Alone) (hbounds : host.Bounds imported paths bound)
    {depth k : Nat} (hdepth : k + 1 + remaining paths scripts * (bound + 1) ≤ depth)
    (active : List Env) :
    standalone.Parts active scripts (Node.Plain imported k) (ofDepth host depth)
      (ofDepth host depth) := by
  induction depth generalizing scripts k active with
  | zero => omega
  | succ depth ih =>
    refine ⟨fun {W env n} _ hn => ?_, fun hf args => Contract.Parts.call False.elim hf args⟩
    obtain ⟨j, rfl⟩ : ∃ j, k = j + 1 := ⟨k - 1, by have := hn.pos; omega⟩
    have hbelow : standalone.Parts (env :: active) scripts (Node.Plain imported j)
        (ofDepth host depth) (ofDepth host depth) := ih (by omega) _
    refine hbelow.node trivial List.mem_cons_self hn.hands fun {W' name} hname => ?_
    refine Contract.Parts.importNamed (hosts_standalone hhost name) ?_
    intro W'' path source program hlocate hout hread hprogram
    have himported : imported name := by
      cases hn with
      | importName h =>
        cases hname
        exact h
      | _ => cases hname
    obtain ⟨hpath, hplain⟩ := hbounds himported hlocate hread hprogram
    -- one script less remains, and what it would have taken is enough for this one
    have hless : (remaining paths (path :: scripts) + 1) * (bound + 1)
        ≤ remaining paths scripts * (bound + 1) :=
      Nat.mul_le_mul_right _ (remaining_cons_lt hpath hout)
    rw [Nat.succ_mul] at hless
    have hscript : standalone.Parts (env :: active) (path :: scripts) (Node.Plain imported bound)
        (ofDepth host depth) (ofDepth host depth) := ih (by omega) _
    exact hscript.runAll fun n hn u hu => (hplain n hn).unchain hu

end Evaluator

/-- The programs of all files that can be read as scripts. -/
def FileTree.programs (t : FileTree) : List Program :=
  t.entries.filterMap fun entry =>
    match entry.2 with
    | .directory => none
    | .file content => (String.fromUTF8? content).bind fun text => (Program.ofSource text).toOption

theorem FileTree.mem_programs {t : FileTree} {path source : String} {program : Program}
    (hread : t.readText path = .ok source) (hprogram : Program.ofSource source = .ok program) :
    program ∈ t.programs := by
  obtain ⟨place, content, hentry, htext⟩ := exists_of_readText hread
  refine List.mem_filterMap.mpr ⟨_, hentry, ?_⟩
  show (String.fromUTF8? content).bind _ = _
  rw [htext, Option.bind_some, hprogram]
  rfl

/-- The names that are imported somewhere in these trees. -/
def Node.importedNames (nodes : List Node) : List String :=
  (nodes.flatMap Node.subtrees).filterMap Node.imported?

theorem Node.mem_importedNames {nodes : List Node} {n u : Node} {name : String} (hn : n ∈ nodes)
    (hu : u ∈ n.subtrees) (hname : name ∈ u.imported?) : name ∈ importedNames nodes :=
  List.mem_filterMap.mpr ⟨u, List.mem_flatMap.mpr ⟨n, hn, hu⟩, hname⟩

/-- No function is defined anywhere in the trees. -/
def Node.DefineNothing (nodes : List Node) : Prop :=
  ∀ n ∈ nodes, ∀ u ∈ n.subtrees, u.isDefinition = false

instance (nodes : List Node) : Decidable (Node.DefineNothing nodes) :=
  inferInstanceAs (Decidable (∀ n ∈ nodes, ∀ u ∈ n.subtrees, _))

/-- No function is defined in any script that an import can find. -/
def Host.DefinesNothing (host : Host) : Prop :=
  ∀ {name path source program},
    ImportTarget.locate host.files host.pluginDir name host.scriptExtension = .ok (.script path) →
    host.files.readText path = .ok source → Program.ofSource source = .ok program →
    Node.DefineNothing program.statements

theorem ImportTarget.eq_scriptPath_of_locate {files : FileTree} {dir name extension path : String}
    (h : locate files dir name extension = .ok (.script path)) :
    path = scriptPath dir name extension := by
  dsimp only [locate] at h
  split at h
  · cases h
  · cases h
    rfl
  · cases h
  · cases h

/-- The scripts of all names that occur are found under finitely many paths, and one depth is enough
for all of them and for the statements. -/
theorem Host.exists_bounds {host : Host} {statements : List Node}
    (hstatements : Node.DefineNothing statements) (hscripts : host.DefinesNothing) :
    ∃ imported paths bound, host.Bounds imported paths bound ∧
      ∀ n ∈ statements, n.Plain imported bound := by
  let nodes := statements ++ host.files.programs.flatMap Program.statements
  let imported (name : String) : Prop := name ∈ Node.importedNames nodes
  obtain ⟨bound, hbound⟩ := Node.exists_bound imported nodes
  have hplain : ∀ n ∈ nodes, (∀ u ∈ n.subtrees, u.isDefinition = false) →
      n.Plain imported bound := by
    refine fun n hn hnone => hbound n hn (Node.exists_plain fun u hu => ⟨hnone u hu, ?_⟩)
    exact fun name hname => Node.mem_importedNames hn hu hname
  refine ⟨imported, (Node.importedNames nodes).map fun name =>
    ImportTarget.scriptPath host.pluginDir name host.scriptExtension, bound, ?_, fun n hn => ?_⟩
  · intro name path source program hname hlocate hread hprogram
    refine ⟨?_, fun n hn => hplain n ?_ (hscripts hlocate hread hprogram n hn)⟩
    · rw [ImportTarget.eq_scriptPath_of_locate hlocate]
      exact List.mem_map_of_mem hname
    · exact List.mem_append_right _
        (List.mem_flatMap.mpr ⟨program, FileTree.mem_programs hread hprogram, hn⟩)
  · exact hplain n (List.mem_append_left _ hn) (hstatements n hn)

namespace Evaluator

/-- Where no functions are written in the language and native functions ask nothing of the
interpreter, every run comes to an end, with success or with an error, whatever the scripts import
and however often. -/
theorem run_ends {host : Host} {statements : List Node} {m : Machine}
    (hstatements : Node.DefineNothing statements) (hscripts : host.DefinesNothing)
    (hscopes : m.scopes.All Function.Alone) (hplugins : m.plugins.All Native.Alone)
    (hhost : host.All Native.Alone) :
    (∃ n, Ends host (fun ev => ev.runAll statements) m (.ok (), n)) ∨
      ∃ e n, Ends host (fun ev => ev.runAll statements) m (.error (.error e), n) := by
  obtain ⟨imported, paths, bound, hbounds, hplain⟩ := Host.exists_bounds hstatements hscripts
  let depth := bound + 1 + remaining paths m.importing * (bound + 1)
  have hparts : standalone.Parts [] m.importing (Node.Plain imported bound) (ofDepth host depth)
      (ofDepth host depth) := parts_of_depth hhost hbounds (Nat.le_refl _) []
  have hrun : standalone.Agrees m.importing () (runAll (ofDepth host depth) statements)
      (runAll (ofDepth host depth) statements) :=
    hparts.runAll fun n hn u hu => (hplain n hn).unchain hu
  obtain ⟨-, hkeeps⟩ := hrun le_rfl (m := m) ⟨⟨hscopes, hplugins⟩, rfl⟩
  have hdeep := hkeeps.ne_tooDeep id
  have hends : Ends host (fun ev => ev.runAll statements) m
      ((runAll (ofDepth host depth) statements).outcome m) :=
    ⟨depth, rfl, hdeep⟩
  generalize (runAll (ofDepth host depth) statements).outcome m = o at hends hdeep
  obtain ⟨r, n⟩ := o
  cases r with
  | ok _ => exact .inl ⟨n, hends⟩
  | error stop =>
    cases stop with
    | error e => exact .inr ⟨e, n, hends⟩
    | tooDeep => exact absurd rfl hdeep

/-- Two scripts that import each other, one of them through a third that imports itself. -/
def circleTexts : List String :=
  ["import b;", "x = 1.str; import c; import a;", "import c; import c;"]

def circle : Host where
  pluginDir := ""
  scriptExtension := "clip"
  files.entries := List.zip [["a.clip"], ["b.clip"], ["c.clip"]]
    (circleTexts.map fun text => .file text.toUTF8)

theorem run_ends_circle :
    let statements : List Node := [.importName .nowhere "a", .importName .nowhere "b"]
    let m : Machine := { scopes := .initial }
    Node.DefineNothing statements ∧ circle.DefinesNothing ∧
    ((∃ n, Ends circle (fun ev => ev.runAll statements) m (.ok (), n)) ∨
      ∃ e n, Ends circle (fun ev => ev.runAll statements) m (.error (.error e), n)) := by
  intro statements m
  have hstatements : Node.DefineNothing statements := by decide
  have hscripts : circle.DefinesNothing := by
    have hparse : ∀ text ∈ circleTexts, ∀ program ∈ (Program.ofSource text).toOption,
        Node.DefineNothing program.statements := by
      decide +kernel
    intro name path source program _ hread hprogram
    obtain ⟨place, content, hentry, htext⟩ := FileTree.exists_of_readText hread
    obtain ⟨text, hmem, rfl⟩ : ∃ text ∈ circleTexts, content = text.toUTF8 := by
      have hfile := (List.of_mem_zip hentry).2
      obtain ⟨text, hmem, hcontent⟩ := List.mem_map.mp hfile
      exact ⟨text, hmem, (FileEntry.file.inj hcontent).symm⟩
    rw [fromUTF8?_toUTF8] at htext
    rw [← Option.some.inj htext] at hprogram
    refine hparse text hmem program ?_
    rw [hprogram]
    rfl
  refine ⟨hstatements, hscripts, run_ends hstatements hscripts Scopes.alone_initial .empty ?_⟩
  intro name path plugin hload
  cases hload

end Evaluator
end ClipScript
