/-
Runs of scripts, and of nothing else.

A `Corpus` says which texts may be run.  Whatever is evaluated then is part of such a text, or a
call that was made out of one, so it is in good form.  `Corpus.regime` is the regime that says so:
a run is compared with itself, and trees are in good form.

Two evaluators that do the same with trees in good form can therefore stand in for each other
(`Corpus.runSource_eq`).
-/
import ClipScript.Proofs.Bookkeeping
import ClipScript.Proofs.Node.Formed
import ClipScript.Proofs.Parser.Forms
import ClipScript.Proofs.Regime.Evaluation
import ClipScript.Proofs.Storable

namespace ClipScript

namespace Scopes.All

variable {good : Function → Prop} {s : Scopes}

theorem assign (h : s.All good) (env : Env) (name : String) (v : Value) :
    (s.assign env name v).All good :=
  h.changeVars env.here fun vars => vars.assign name v

theorem entered (h : s.All good) (f : UserFunction) (args : ArgList) :
    (s.entered f args).2.All good :=
  (h.addChild f.home).changeVars s.all.size fun _ =>
    ((f.bind args).run.run ((s.addChild f.home).2.get s.all.size).vars).2

end Scopes.All

/-- Texts that may be run, with the names they import and the faults that come of them. -/
structure Corpus where
  fault : Fault → Prop
  text : String → Prop
  imported : String → Prop
  fault_of_orderly : ∀ {f}, Fault.Orderly f → fault f
  unread : ∀ {source e}, text source → Program.ofSource source = .error e → fault e.fault
  imports : ∀ {source program}, text source → Program.ofSource source = .ok program →
    ∀ n ∈ program.statements, ∀ u ∈ n.subtrees, ∀ name ∈ u.imported?, imported name

namespace Corpus

variable (C : Corpus)

/-- A native function raises and runs what it may, and a user function has a body in good form. -/
def function : Function → Prop
  | .core _ native => native.Keeps C.fault C.text
  | .user f => ∃ role, f.body.Formed C.imported role

theorem function?_akin {s : Scopes} (h : s.All C.function) (env : Env) (name : String) :
    Option.Rel
      (Function.Akin (Native.Keeps C.fault C.text)
        fun f g => f = g ∧ ∃ role, f.body.Formed C.imported role)
      (s.function? env name) (s.function? env name) := by
  cases hf : s.function? env name with
  | none => exact .none
  | some f =>
    have hgood := h.function? hf
    cases f with
    | core name native => exact .some (.core hgood)
    | user f => exact .some (.user ⟨rfl, hgood⟩)

/-- A run beside itself, in which all trees are in good form. -/
def regime : Regime where
  World := Unit
  order := PUnit.instLinearOrder.toPreorder
  Zone := Unit
  outside := ()
  slack := False
  fault := C.fault
  text := C.text
  imported := C.imported
  place := Eq
  node _ n n' := n = n' ∧ ∃ role, n.Formed C.imported role
  bound _ _ := True
  zoned _ _ _ := True
  user _ f g := f = g ∧ ∃ role, f.body.Formed C.imported role
  registry _ := True
  scopes _ s t := s = t ∧ s.All C.function
  place_refl _ := rfl
  line h := congrArg Span.line h
  fault_of_orderly := C.fault_of_orderly
  script {source program} htext hread n hn := by
    have hformed := (Program.formed_of_ofSource hread n hn).importing (C.imports htext hread n hn)
    cases hunchain : n.unchain with
    | error f => exact .error f
    | ok u => exact .ok ⟨rfl, _, hformed.unchain hunchain⟩
  unread := C.unread
  zoned_mono _ h := h
  zoned_global _ := trivial
  user_mono _ h := h
  user_eq h := by
    obtain ⟨rfl, -⟩ := h
    exact ⟨rfl, rfl, rfl⟩
  register _ _ h := h
  size h := by rw [h.1]
  function? := by
    rintro W s t ⟨rfl, hall⟩ env name
    exact C.function?_akin hall env name
  vars h id := by rw [h.1]
  bound_of_var _ _ _ := trivial
  assign v h _ _ := by
    obtain ⟨rfl, hall⟩ := h
    exact ⟨rfl, hall.assign _ _ v⟩
  define {W s t z env name f g} h _ _ hfg := by
    obtain ⟨rfl, hall⟩ := h
    obtain ⟨rfl, hbody⟩ := hfg
    exact ⟨rfl, hall.define env name (f := .user f) hbody⟩
  enter {W s t f g} args h hfg := by
    obtain ⟨rfl, hall⟩ := h
    obtain ⟨rfl, hbody⟩ := hfg
    exact ⟨(), (), le_rfl, trivial, ⟨rfl, hbody⟩, rfl, hall.entered f args⟩

variable {C}

/-- Trees in good form are alike by what they are made of. -/
theorem like_of_formed {n : Node} {role : Role} (h : n.Formed C.imported role) :
    C.regime.Like () n n := by
  have node : ∀ {n : Node} {role : Role}, n.Formed C.imported role → C.regime.node () n n :=
    fun h => ⟨rfl, _, h⟩
  have made : ∀ {r : Except Fault Node}, (∀ u, r = .ok u → u.Formed C.imported .operand) →
      SameFault (C.regime.node ()) r r := by
    intro r hr
    cases r with
    | error f => exact .error f
    | ok u => exact .ok (node (hr u rfl))
  have target : ∀ {n : Node}, n.Formed C.imported .operand → Regime.Parts.Target C.regime () n n :=
    fun h => ⟨rfl, rfl, fun _ _ => trivial, node h⟩
  have optional : ∀ {value : Option Node} {role : Role}, (∀ n ∈ value, n.Formed C.imported role) →
      Option.Rel (C.regime.node ()) value value := by
    intro value role hvalue
    cases value with
    | none => exact .none
    | some n => exact .some (node (hvalue n rfl))
  induction h with
  | alone _ ih => exact ih
  | leaf => exact .leaf _ rfl
  | @assign _ _ op _ htarget hvalue =>
    by_cases hop : op = .chain
    · subst hop
      exact .assignChain rfl (target htarget) (made fun _ => htarget.unchainAs hvalue)
    · exact .assign rfl hop (target htarget) (node hvalue)
  | binary hlhs hrhs => exact .binary _ rfl (node hlhs) (node hrhs)
  | unary hoperand => exact .unary _ rfl (node hoperand)
  | ternary hcondition hyes hno => exact .ternary rfl (node hcondition) (node hyes) (node hno)
  | call horder hargs =>
    exact .call _ rfl (.inr horder) (List.forall₂_same.mpr fun a ha => ⟨rfl, node (hargs a ha)⟩)
  | chain hvalue hlink =>
    exact .chain rfl rfl (fun _ _ => made fun _ => hlink.pluginCall)
      (made fun _ => hvalue.unchainAs hlink)
  | sequence hbody => exact .sequence rfl (List.forall₂_same.mpr fun n hn => node (hbody n hn))
  | functionDef horder hbody =>
    exact .functionDef rfl trivial (.inr horder) fun _ _ _ => ⟨rfl, _, hbody⟩
  | defaultValue hvalue => exact .defaultValue _ rfl (node hvalue)
  | returnValue hvalue => exact .returnValue rfl (optional hvalue)
  | ifElse hcondition hyes hno =>
    exact .ifElse rfl (node hcondition) (node hyes) (optional hno)
  | importName hname => exact .importName rfl hname

/-- Evaluators that at every depth do with trees in good form what evaluation does. -/
theorem parts_of_forall {host : Host} (hhost : C.regime.Hosts host) {Q : Nat → Evaluator}
    (hzero : Q 0 = .inert)
    (hevaluate : ∀ n env tree role, tree.Formed C.imported role →
      (Q (n + 1)).evaluate env tree = (Q n).node host env tree)
    (hinvoke : ∀ n, (Q (n + 1)).invoke = (Q n).call) (depth : Nat) :
    C.regime.Parts (.ofDepth host depth) (Q depth) := by
  induction depth with
  | zero =>
    rw [hzero]
    exact .inert
  | succ depth ih =>
    refine ⟨fun {W z env n n'} henv hn => ?_, fun {W f g} hfg args => ?_⟩
    · obtain ⟨rfl, role, hformed⟩ := hn
      rw [hevaluate depth env n role hformed]
      exact ih.node_of_like hhost henv (like_of_formed hformed)
    · rw [hinvoke]
      exact ih.call hfg args

theorem parts_ofDepth {host : Host} (hhost : C.regime.Hosts host) (depth : Nat) :
    C.regime.Parts (.ofDepth host depth) (.ofDepth host depth) :=
  parts_of_forall hhost rfl (fun _ _ _ _ _ => rfl) (fun _ => rfl) depth

theorem eq_of_machines {m n : Machine} (h : C.regime.Machines () m n) : m = n := by
  obtain ⟨⟨hscopes, -⟩, hspan, hfunction, himporting, hplugins, -, -, hreports⟩ := h
  replace hspan : m.span = n.span := hspan
  cases m
  cases n
  simp_all

theorem eq_of_errors {e e' : RuntimeError} (h : C.regime.Errors e e') : e = e' := by
  obtain ⟨fault, origin⟩ := e
  obtain ⟨fault', origin'⟩ := e'
  obtain ⟨hfault, -, horigin⟩ := h
  cases horigin with
  | none => exact congrArg (RuntimeError.mk · none) hfault
  | @some o o' ho =>
    replace ho : o.span = o'.span ∧ o.function = o'.function := ho
    cases o
    cases o'
    simp_all

section Outcome

variable {α : Type} {o o' : Except Stop α × Machine}

theorem eq_of_follows (h : C.regime.Follows (fun _ => Eq) () o o') : o = o' := by
  cases h with
  | value _ hab hmn => rw [hab, eq_of_machines hmn]
  | error _ he hmn => rw [eq_of_errors he, eq_of_machines hmn]
  | tooDeep _ hmn => rw [eq_of_machines hmn]
  | gaveUp hslack => exact hslack.elim

theorem fault_of_follows (h : C.regime.Follows (fun _ => Eq) () o o') {e : RuntimeError}
    (he : o.1 = .error (.error e)) : C.fault e.fault := by
  cases h with
  | error _ herrors _ =>
    cases he
    exact herrors.allowed
  | _ => cases he

theorem machine_of_follows (h : C.regime.Follows (fun _ => Eq) () o o') :
    C.regime.Machines () o.2 o.2 := by
  have self : ∀ {m n : Machine}, C.regime.Machines () m n → C.regime.Machines () m m := by
    intro m n hmn
    obtain rfl := eq_of_machines hmn
    exact hmn
  cases h with
  | value _ _ hmn => exact self hmn
  | error _ _ hmn => exact self hmn
  | tooDeep _ hmn => exact self hmn
  | gaveUp hslack => exact hslack.elim

end Outcome

/-- An interpreter between two runs of texts of the corpus. -/
structure Serves (C : Corpus) (host : Host) (depth : Nat) (i : Interpreter) : Prop where
  host : i.host = host
  depth : i.depth = depth
  machine : C.regime.Machines () i.machine i.machine

variable {host : Host} {depth : Nat}

theorem serves_fresh (C : Corpus) (host : Host) (depth : Nat) {natives : List (String × Native)}
    (h : ∀ entry ∈ natives, Native.Keeps C.fault C.text entry.2) :
    C.Serves host depth (Interpreter.fresh host depth natives) := by
  have hinitial : Scopes.initial.All C.function :=
    List.foldlRecOn Builtins.all _ .start fun s hs entry hentry =>
      hs.define .global entry.1 (f := .core entry.1 entry.2)
        (Builtins.keeps C.fault_of_orderly entry hentry)
  have hbegin : C.Serves host depth { host, depth } :=
    ⟨rfl, rfl, ⟨rfl, hinitial⟩, rfl, rfl, rfl, rfl, .empty, trivial, rfl⟩
  refine List.foldlRecOn natives _ hbegin fun i hi entry hentry => ⟨hi.host, hi.depth, ?_⟩
  exact { hi.machine with
    scopes := ⟨rfl, hi.machine.scopes.2.define .global entry.1 (f := .core entry.1 entry.2)
      (h entry hentry)⟩ }

namespace Serves

variable {i : Interpreter} {source : String} {Q : Evaluator}

theorem follows (h : C.Serves host depth i) (htext : C.text source)
    (hparts : C.regime.Parts (.ofDepth host depth) Q) :
    C.regime.Follows (fun _ => Eq) () ((i.evaluator.runSource source).outcome i.machine)
      ((Q.runSource source).outcome i.machine) := by
  obtain ⟨rfl, rfl, hmachine⟩ := h
  exact hparts.runSource htext (le_refl ()) hmachine

/-- Another evaluator that does the same with trees in good form runs the text just so. -/
theorem runSource_eq (h : C.Serves host depth i) (htext : C.text source)
    (hparts : C.regime.Parts (.ofDepth host depth) Q) :
    i.perform (Q.runSource source) = i.runSource source := by
  have hsame := eq_of_follows (h.follows htext hparts)
  show (((Q.runSource source).outcome i.machine).1,
      { i with machine := ((Q.runSource source).outcome i.machine).2 })
    = (((i.evaluator.runSource source).outcome i.machine).1,
      { i with machine := ((i.evaluator.runSource source).outcome i.machine).2 })
  rw [hsame]

theorem fault_of_runSource (h : C.Serves host depth i) (hhost : C.regime.Hosts host)
    (htext : C.text source) {e : RuntimeError}
    (he : (i.runSource source).1 = .error (.error e)) : C.fault e.fault :=
  fault_of_follows (h.follows htext (parts_ofDepth hhost depth)) he

theorem runSources (h : C.Serves host depth i) (hhost : C.regime.Hosts host)
    {sources : List String} (htexts : ∀ source ∈ sources, C.text source) :
    C.Serves host depth (i.runSources sources) := by
  induction sources generalizing i with
  | nil => exact h
  | cons source rest ih =>
    rw [List.forall_mem_cons] at htexts
    have hnext : C.Serves host depth (i.runSource source).2 :=
      ⟨h.host, h.depth, machine_of_follows (h.follows htexts.1 (parts_ofDepth hhost depth))⟩
    exact ih hnext htexts.2

end Serves
end Corpus
end ClipScript
