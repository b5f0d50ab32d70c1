/-
Arguments and parameters are in order when it comes to using them.

Adding an argument to a list and defining a function are checked for order while a script runs.  The
checks are never of consequence: scripts are read as trees in good form, and replacing chains by
calls keeps it.  `Interpreter.order_checks_pass` says so for all scripts that are run one after the
other, imported ones included.  An error about order is one of a text that cannot be read.

`Evaluator.overseen` looks at every tree before it is evaluated.  That it never raises an alarm is
the statement about single calls and definitions.
-/
import ClipScript.Proofs.Regime.Formed

namespace ClipScript

/-- The arguments of a call and the parameters of a definition are in order. -/
def Node.InOrder : Node → Prop
  | .call _ _ args => Labelled.Ordered args
  | .functionDef _ name params body =>
    ∀ home, ({ name, params, body, home } : UserFunction).checkOrder = .ok ()
  | _ => True

theorem Node.inOrder_functionDef {s : Span} {name : String} {params : List Param} {body : Node} :
    (Node.functionDef s name params body).InOrder ↔ Param.Ordered params :=
  ⟨fun h => (UserFunction.checkOrder_eq_ok_iff _).mp (h .global),
    fun h _ => (UserFunction.checkOrder_eq_ok_iff _).mpr h⟩

instance : DecidablePred Node.InOrder
  | .call _ _ args => inferInstanceAs (Decidable (Labelled.Ordered args))
  | .functionDef _ _ _ _ => decidable_of_iff _ Node.inOrder_functionDef.symm
  | .leaf _ _ | .importName _ _ | .sequence _ _ | .assign _ _ _ _ | .binary _ _ _ _ | .unary _ _ _
  | .ternary _ _ _ _ | .chain _ _ _ | .defaultValue _ _ _ | .returnValue _ _ | .ifElse _ _ _ _ =>
    .isTrue trivial

theorem Node.Formed.inOrder {imported : String → Prop} {role : Role} {n : Node}
    (h : n.Formed imported role) : n.InOrder := by
  induction h with
  | alone _ ih => exact ih
  | call horder _ => exact horder
  | functionDef horder _ => exact inOrder_functionDef.mpr horder
  | _ => trivial

/-- An evaluator that raises an alarm instead of evaluating a call or a definition that is not in
order. -/
def Evaluator.overseen (alarm : Eval Flow) (host : Host) : Nat → Evaluator
  | 0 => .inert
  | n + 1 =>
    { evaluate := fun env tree =>
        if tree.InOrder then (overseen alarm host n).node host env tree else alarm
      invoke := (overseen alarm host n).call }

/-- The texts that come to be run: those that are given, and the scripts that they import. -/
inductive Host.Reaches (host : Host) (given : String → Prop) : String → Prop where
  | given {source : String} : given source → Reaches host given source
  | script {source text name path : String} {program : Program} {n u : Node} :
      Reaches host given source → Program.ofSource source = .ok program →
      n ∈ program.statements → u ∈ n.subtrees → name ∈ u.imported? →
      ImportTarget.locate host.files host.pluginDir name host.scriptExtension
        = .ok (.script path) →
      host.files.readText path = .ok text → Reaches host given text

theorem Action.Keeps.mono {fault fault' : Fault → Prop} {text text' : String → Prop}
    (hfault : ∀ f, fault f → fault' f) (htext : ∀ source, text source → text' source)
    {action : Action} (h : action.Keeps fault text) : action.Keeps fault' text' := by
  induction h with
  | value v => exact .value v
  | fault hf => exact .fault (hfault _ hf)
  | message _ ih => exact .message ih
  | warn _ ih => exact .warn ih
  | place _ ih => exact .place ih
  | call _ _ ihmissing ihnext => exact .call ihmissing ihnext
  | run hsource _ ih => exact .run (htext _ hsource) ih

namespace Corpus

variable (host : Host) (given : String → Prop)

/-- The texts that come to be run.  A fault about order is one of a text that cannot be read. -/
def reached : Corpus where
  fault f := f.Orderly ∨
    ∃ text e, host.Reaches given text ∧ Program.ofSource text = .error e ∧ e.fault = f
  text := host.Reaches given
  imported name := ∀ path text,
    ImportTarget.locate host.files host.pluginDir name host.scriptExtension = .ok (.script path) →
    host.files.readText path = .ok text → host.Reaches given text
  fault_of_orderly h := .inl h
  unread htext hread := .inr ⟨_, _, htext, hread, rfl⟩
  imports htext hread _ hn _ hu _ hname _ _ hlocate hfile :=
    .script htext hread hn hu hname hlocate hfile

variable {host given}

theorem keeps_reached {native : Native} (h : Native.Keeps Fault.Orderly given native) :
    Native.Keeps (reached host given).fault (reached host given).text native :=
  fun args => (h args).mono (fun _ => .inl) fun _ => .given

theorem hosts_reached (hnatives : host.All (Native.Keeps Fault.Orderly given))
    (hload : ∀ name path, Orderly (host.load name path)) :
    (reached host given).regime.Hosts host where
  natives name path plugin hplugin function native hnative :=
    keeps_reached (hnatives name path plugin hplugin function native hnative)
  load name path f hf := .inl (hload name path f hf)
  script hname hlocate hread := hname _ _ hlocate hread

theorem parts_overseen (hhost : (reached host given).regime.Hosts host) (alarm : Eval Flow)
    (depth : Nat) :
    (reached host given).regime.Parts (.ofDepth host depth) (.overseen alarm host depth) :=
  parts_of_forall hhost rfl (fun _ _ _ _ hformed => if_pos hformed.inOrder) (fun _ => rfl) depth

end Corpus

theorem fromUTF8?_toUTF8 (text : String) : String.fromUTF8? text.toUTF8 = some text :=
  dif_pos text.isValidUTF8

namespace FileTree

theorem mem_of_resolve {t : FileTree} {path : String} {content : ByteArray}
    (h : t.resolve path = .ok (.file content)) :
    ∃ place, (place, FileEntry.file content) ∈ t.entries := by
  have hentry : ∀ {place : List String}, t.entry? place = some (.file content) →
      (place, FileEntry.file content) ∈ t.entries := by
    intro place hplace
    unfold entry? at hplace
    split at hplace
    · next e he =>
      cases hplace
      obtain ⟨before, after, hsplit, -⟩ := List.lookup_eq_some_iff.mp he
      rw [hsplit]
      simp
    · grind
  unfold resolve at h
  simp only [bind, Except.bind, pure, Except.pure, throw, throwThe, MonadExceptOf.throw] at h
  grind

theorem exists_of_readText {t : FileTree} {path text : String} (h : t.readText path = .ok text) :
    ∃ place content, (place, FileEntry.file content) ∈ t.entries ∧
      String.fromUTF8? content = some text := by
  unfold readText read at h
  cases hresolve : t.resolve path with
  | error e =>
    rw [hresolve] at h
    cases h
  | ok entry =>
    rw [hresolve] at h
    cases entry with
    | directory => cases h
    | file content =>
      obtain ⟨place, hplace⟩ := mem_of_resolve hresolve
      refine ⟨place, content, hplace, ?_⟩
      simp only [bind, Except.bind, pure, Except.pure] at h
      split at h
      · next found hfound =>
        cases h
        exact hfound
      · cases h

end FileTree

namespace Interpreter

/-- Let scripts be run one after the other, failing or not, by an interpreter whose native functions
raise no errors about order and run no texts but the `given` ones.  Whoever looks at the calls and
the definitions that are evaluated finds all of them in order, ordered arguments are all taken, and
an error about order is one of a text that cannot be read.  So there is none if all texts can be
read. -/
theorem order_checks_pass {host : Host} {given : String → Prop} {natives : List (String × Native)}
    (hhost : host.All (Native.Keeps Fault.Orderly given))
    (hload : ∀ name path, Orderly (host.load name path))
    (hnatives : ∀ entry ∈ natives, Native.Keeps Fault.Orderly given entry.2) (depth : Nat)
    {sources : List String} (hsources : ∀ source ∈ sources, given source) {source : String}
    (hsource : given source) :
    let i := (fresh host depth natives).runSources sources
    ((∀ text, host.Reaches given text → ∃ program, Program.ofSource text = .ok program) →
      ∀ e, (i.runSource source).1 = .error (.error e) → e.fault.kind ≠ .argumentOrder) ∧
    (∀ e, (i.runSource source).1 = .error (.error e) → e.fault.kind = .argumentOrder →
      ∃ text unread, host.Reaches given text ∧ Program.ofSource text = .error unread ∧
        unread.fault = e.fault) ∧
    (∀ alarm, i.perform ((Evaluator.overseen alarm host depth).runSource source)
      = i.runSource source) ∧
    ∀ args : List (Labelled Value), Labelled.Ordered args →
      ∃ all, args.foldlM (fun all a => all.push a.label a.content) ArgList.empty = .ok all := by
  intro i
  have hhost := Corpus.hosts_reached hhost hload
  have hserves : (Corpus.reached host given).Serves host depth i :=
    (Corpus.serves_fresh _ host depth fun entry hentry =>
      Corpus.keeps_reached (hnatives entry hentry)).runSources hhost
        fun source hsource => .given (hsources source hsource)
  have hfault : ∀ e, (i.runSource source).1 = .error (.error e) →
      (Corpus.reached host given).fault e.fault :=
    fun e he => hserves.fault_of_runSource hhost (.given hsource) he
  refine ⟨fun hread e he => ?_, fun e he hkind => ?_, fun alarm => ?_, fun args hargs => ?_⟩
  · rcases hfault e he with horderly | ⟨text, unread, htext, hunread, -⟩
    · exact horderly
    · obtain ⟨program, hprogram⟩ := hread text htext
      rw [hunread] at hprogram
      cases hprogram
  · rcases hfault e he with horderly | hunread
    · exact absurd hkind horderly
    · exact hunread
  · exact hserves.runSource_eq (.given hsource) (Corpus.parts_overseen hhost alarm depth)
  · exact (ArgList.admits_empty hargs).exists_foldlM_push

/-- A script that names an argument of a function it imports, in chains and in an update. -/
def scalingScript : String :=
  "import scaling; x = 3; x .= scale(by = 2); y = x.scale(by = 3).scale(); scale(1, 2);"

def scalingLibrary : String :=
  "function scale(num n, opt num by) \x7b default(by, 1); return n * by; \x7d"

theorem order_checks_pass_scalingScript :
    let host : Host :=
      { pluginDir := "", scriptExtension := "clip"
        files := { entries := [(["scaling.clip"], .file scalingLibrary.toUTF8)] } }
    (∀ text, host.Reaches (· = scalingScript) text →
      ∃ program, Program.ofSource text = .ok program) ∧
    ∀ e, (((fresh host 40 []).runSources [scalingScript]).runSource scalingScript).1
      = .error (.error e) → e.fault.kind ≠ .argumentOrder := by
  intro host
  have hread : ∀ text, host.Reaches (· = scalingScript) text →
      ∃ program, Program.ofSource text = .ok program := by
    have hparse : ∀ text ∈ [scalingScript, scalingLibrary],
        (Program.ofSource text).isOk := by decide +kernel
    intro text htext
    have hmem : text ∈ [scalingScript, scalingLibrary] := by
      cases htext with
      | given h => simp [h]
      | script _ _ _ _ _ _ hfile =>
        obtain ⟨place, content, hentry, htext⟩ := FileTree.exists_of_readText hfile
        obtain ⟨-, rfl⟩ : place = ["scaling.clip"] ∧ content = scalingLibrary.toUTF8 := by
          simpa [host] using hentry
        rw [fromUTF8?_toUTF8] at htext
        simp [← Option.some.inj htext]
    specialize hparse text hmem
    cases hprogram : Program.ofSource text with
    | error e =>
      rw [hprogram] at hparse
      cases hparse
    | ok program => exact ⟨program, rfl⟩
  have hload : ∀ name path, ∃ f : Fault, host.load name path = .error f ∧ f.Orderly :=
    fun name path => ⟨.pluginUnloadable name "no such module", rfl, .of rfl⟩
  have hgiven : ∀ source ∈ [scalingScript], source = scalingScript :=
    List.forall_mem_singleton.mpr rfl
  refine ⟨hread, (order_checks_pass ?_ ?_ (List.forall_mem_nil _) 40 hgiven
    (hgiven scalingScript List.mem_cons_self)).1 hread⟩
  · intro name path plugin hplugin
    obtain ⟨f, hf, -⟩ := hload name path
    rw [hf] at hplugin
    cases hplugin
  · intro name path f hf
    obtain ⟨g, hg, horderly⟩ := hload name path
    rw [hg] at hf
    cases hf
    exact horderly

end Interpreter
end ClipScript
