/-
Where the two ways of grouping a call of a plugin come to the same.

Read without knowing the plugin `p`, the text `p.f(x)` is a chain on the name `p`.  There are three
places where that is another thing than a call of the plugin.  Behind a unary operator the operator
takes the name alone (`Node.signs`).  As a link the name is a function that the value flows into
(`Node.relays`).  And a chain on a name is looked at only when it is reached, so what cannot be
carried out in it shows later than it would in a call.  `Node.groupsAlike` excludes these, and it
can be evaluated.

`Node.Fits` pairs a tree with another reading of the same text: they are regrouped, provided that
the second is free of these places and leaves `p` alone.  There is one rule for each form of tree,
with the spans that a parser gives it.
-/
import ClipScript.Proofs.Node.Regrouped

namespace ClipScript
namespace Node

/-- The name `p` with unary operators in front of it. -/
def signs (p : String) : Node → Bool
  | unary _ _ operand => operand.asIdentifier? == some p || operand.signs p
  | _ => false

/-- A call by name, or a chain that begins with one. -/
def startsCall : Node → Bool
  | call _ (.named _) _ => true
  | chain _ first _ => first.startsCall
  | _ => false

/-- Somewhere in the links a value flows into the name `p`, and from there into a call. -/
def relays (p : String) : Node → Bool
  | chain _ first rest =>
    (first.asIdentifier? == some p && rest.startsCall) || first.relays p || rest.relays p
  | _ => false

/-- The tree by itself groups calls as if `p` were known, or in a way that comes to the same. -/
def groupsAlike (p : String) : Node → Bool
  | chain s value link =>
    !link.relays p && (!link.startsCall ||
      !value.signs p && (value.asIdentifier? != some p || (pluginCall p s link).isOk))
  | assign _ _ .chain link => !link.relays p
  | _ => true

/-- Everywhere in the tree calls are grouped alike, and `p` is not bound. -/
structure Apt (p : String) (n : Node) : Prop where
  groups : ∀ u ∈ n.subtrees, u.groupsAlike p
  binds : ∀ u ∈ n.subtrees, p ∉ u.binds

instance (p : String) (n : Node) : Decidable (n.Apt p) :=
  decidable_of_iff ((∀ u ∈ n.subtrees, u.groupsAlike p) ∧ ∀ u ∈ n.subtrees, p ∉ u.binds)
    ⟨fun h => ⟨h.1, h.2⟩, fun h => ⟨h.groups, h.binds⟩⟩

variable {p : String}

theorem Apt.part {n part : Node} (h : n.Apt p) (hpart : part ∈ n.parts) : part.Apt p :=
  ⟨forall_subtrees_of_mem_parts h.groups hpart, forall_subtrees_of_mem_parts h.binds hpart⟩

theorem Apt.here {n : Node} (h : n.Apt p) : n.groupsAlike p ∧ p ∉ n.binds :=
  ⟨h.groups n n.self_mem_subtrees, h.binds n n.self_mem_subtrees⟩

theorem Apt.relays_link {s : Span} {value link : Node} (h : (chain s value link).Apt p) :
    link.relays p = false := by
  have hgroups := h.here.1
  rw [groupsAlike, Bool.and_eq_true] at hgroups
  simpa using hgroups.1

theorem Apt.relays_assign {s : Span} {target link : Node}
    (h : (assign s target .chain link).Apt p) : link.relays p = false := by
  simpa [groupsAlike] using h.here.1

theorem Apt.signs_value {s : Span} {value link : Node} (h : (chain s value link).Apt p)
    (hlink : link.startsCall = true) : value.signs p = false := by
  have hgroups := h.here.1
  rw [groupsAlike, hlink] at hgroups
  simp only [Bool.not_true, Bool.false_or, Bool.and_eq_true] at hgroups
  simpa using hgroups.2.1

/-- A chain on the name that begins with a call can be carried out as a call of the plugin. -/
theorem Apt.exists_pluginCall {s t : Span} {link : Node}
    (h : (chain s (identifier t p) link).Apt p) (hlink : link.startsCall = true) :
    ∃ u, pluginCall p s link = .ok u := by
  have hgroups := h.here.1
  rw [groupsAlike, hlink] at hgroups
  simp only [Bool.not_true, Bool.false_or, Bool.and_eq_true, asIdentifier?_identifier,
    bne_self_eq_false] at hgroups
  cases hcall : pluginCall p s link with
  | ok u => exact ⟨u, rfl⟩
  | error f =>
    rw [hcall] at hgroups
    cases hgroups.2.2

/-- Two readings of a text: regrouped as trees, and as links too unless the second relays. -/
def Fits (p : String) (n n' : Node) : Prop :=
  n'.Apt p →
    Regrouped p (.tree .written) n n' ∧ (n'.relays p = false → Regrouped p .link n n')

def FitsArg (p : String) (a a' : Labelled Node) : Prop :=
  a.label = a'.label ∧ Fits p a.content a'.content

theorem labels_eq_of_fits {args args' : List (Labelled Node)}
    (h : List.Forall₂ (FitsArg p) args args') :
    args.map (·.label) = args'.map (·.label) := by
  induction h with
  | nil => rfl
  | cons ha _ ih => rw [List.map_cons, List.map_cons, ha.1, ih]

theorem regrouped_args_of_fits {args args' : List (Labelled Node)}
    (h : List.Forall₂ (FitsArg p) args args') (hapt : ∀ a ∈ args', a.content.Apt p) :
    ∀ x ∈ args.zip args', Regrouped p (.tree .written) x.1.content x.2.content := by
  intro x hx
  have hfits := (List.forall₂_iff_zip.mp h).2 hx
  exact (hfits.2 (hapt x.2 (List.of_mem_zip hx).2)).1

theorem regrouped_all_of_fits {body body' : List Node} (h : List.Forall₂ (Fits p) body body')
    (hapt : ∀ n ∈ body', n.Apt p) :
    ∀ x ∈ body.zip body', Regrouped p (.tree .written) x.1 x.2 := by
  intro x hx
  exact ((List.forall₂_iff_zip.mp h).2 hx (hapt x.2 (List.of_mem_zip hx).2)).1

namespace Fits

theorem of_regrouped {n n' : Node} (hn : n.isLink = false) (hn' : n'.isLink = false)
    (h : n'.Apt p → Regrouped p (.tree .written) n n') : Fits p n n' :=
  fun hapt => ⟨h hapt, fun _ => .refused hn hn' (h hapt).kindName_eq⟩

theorem leaf (s : Span) (v : Value) : Fits p (.leaf s v) (.leaf s v) := by
  refine fun _ => ⟨.leaf v (.refl s), fun _ => ?_⟩
  cases v with
  | identifier name => exact .linkName name
  | _ => exact .refused rfl rfl rfl

theorem sequence (s : Span) {body body' : List Node} (h : List.Forall₂ (Fits p) body body') :
    Fits p (.sequence s body) (.sequence s body') :=
  of_regrouped rfl rfl fun hapt =>
    .sequence (.refl s) h.length_eq (regrouped_all_of_fits h fun _ hn => hapt.part hn)

theorem assign {target target' value value' : Node} (op : AssignOp)
    (htarget : Fits p target target') (hvalue : Fits p value value') :
    Fits p (.assign (target.span.merge value.span) target op value)
      (.assign (target'.span.merge value'.span) target' op value') := by
  refine of_regrouped rfl rfl fun hapt => ?_
  have ht := (htarget (hapt.part (by simp [parts]))).1
  have hv := hvalue (hapt.part (by simp [parts]))
  have hs := Span.SameStart.merging ht.span hv.1.span
  have hsame := ht.target fun name hname heq => hapt.here.2 <| by
    rw [ht.asIdentifier?_eq] at hname
    exact Option.mem_toList.mpr (heq ▸ hname)
  by_cases hop : op = .chain
  · subst hop
    exact .assignChain hs hsame ht (hv.2 hapt.relays_assign)
  · exact .assign hs hop hsame hv.1

theorem binary {lhs lhs' rhs rhs' : Node} (op : BinaryOp) (hlhs : Fits p lhs lhs')
    (hrhs : Fits p rhs rhs') : Fits p (.ofBinary op lhs rhs) (.ofBinary op lhs' rhs') := by
  refine of_regrouped rfl rfl fun hapt => ?_
  have hl := (hlhs (hapt.part (by simp [ofBinary, parts]))).1
  have hr := (hrhs (hapt.part (by simp [ofBinary, parts]))).1
  exact .binary op (.merging hl.span hr.span) hl hr

theorem unary (start : Span) {operand operand' : Node} (op : UnaryOp)
    (h : Fits p operand operand') :
    Fits p (.unary (start.merge operand.span) op operand)
      (.unary (start.merge operand'.span) op operand') := by
  refine of_regrouped rfl rfl fun hapt => ?_
  have ho := (h (hapt.part (by simp [parts]))).1
  exact .unary op (.merging (.refl start) ho.span) ho

theorem ternary {condition condition' yes yes' no no' : Node}
    (hcondition : Fits p condition condition') (hyes : Fits p yes yes') (hno : Fits p no no') :
    Fits p (.ternary (condition.span.merge no.span) condition yes no)
      (.ternary (condition'.span.merge no'.span) condition' yes' no') := by
  refine of_regrouped rfl rfl fun hapt => ?_
  have hc := (hcondition (hapt.part (by simp [parts]))).1
  have hy := (hyes (hapt.part (by simp [parts]))).1
  have hn := (hno (hapt.part (by simp [parts]))).1
  exact .ternary (.merging hc.span hn.span) hc hy hn

theorem call (s : Span) (callee : Callee) {args args' : List (Labelled Node)}
    (h : List.Forall₂ (FitsArg p) args args') :
    Fits p (.call s callee args) (.call s callee args') := by
  intro hapt
  have hargs := regrouped_args_of_fits h fun a ha => hapt.part (List.mem_map_of_mem ha)
  have hlabels := labels_eq_of_fits h
  exact ⟨.call callee (.refl s) hlabels hargs, fun _ => .linkCall callee hlabels hargs⟩

theorem chain {value value' link link' : Node} (hvalue : Fits p value value')
    (hlink : Fits p link link') :
    Fits p (.chain (value.span.merge link.span) value link)
      (.chain (value'.span.merge link'.span) value' link') := by
  intro hapt
  have hv := hvalue (hapt.part (by simp [parts]))
  have hl := hlink (hapt.part (by simp [parts]))
  have hlinks := hl.2 hapt.relays_link
  refine ⟨.chain (.merging hv.1.span hl.1.span) hv.1 hlinks, fun hrelays => ?_⟩
  rw [relays, Bool.or_eq_false_iff, Bool.or_eq_false_iff] at hrelays
  exact .linkChain (hv.2 hrelays.1.2) hlinks

theorem functionDef (start : Span) (name : String) (params : List Param) {body body' : Node}
    (h : Fits p body body') :
    Fits p (.functionDef (start.merge body.span) name params body)
      (.functionDef (start.merge body'.span) name params body') := by
  refine of_regrouped rfl rfl fun hapt => ?_
  have hb := (h (hapt.part (by simp [parts]))).1
  have hbinds := hapt.here.2
  rw [binds, List.mem_cons, not_or] at hbinds
  refine .functionDef (.merging (.refl start) hb.span) (Ne.symm hbinds.1) (fun q hq heq => ?_) hb
  exact hbinds.2 (heq ▸ List.mem_map_of_mem hq)

theorem defaultValue (s : Span) (name : String) {value value' : Node} (h : Fits p value value') :
    Fits p (.defaultValue s name value) (.defaultValue s name value') :=
  of_regrouped rfl rfl fun hapt =>
    .defaultValue name (.refl s) (h (hapt.part (by simp [parts]))).1

theorem returnValue (s : Span) {value value' : Option Node}
    (h : Option.Rel (Fits p) value value') :
    Fits p (.returnValue s value) (.returnValue s value') := by
  refine of_regrouped rfl rfl fun hapt => ?_
  cases h with
  | none => exact .returnNothing (.refl s)
  | some h => exact .returnValue (.refl s) (h (hapt.part (by simp [parts]))).1

theorem ifElse (start : Span) {condition condition' yes yes' : Node} {no no' : Option Node}
    (hcondition : Fits p condition condition') (hyes : Fits p yes yes')
    (hno : Option.Rel (Fits p) no no') :
    Fits p (.ifElse (start.merge (no.getD yes).span) condition yes no)
      (.ifElse (start.merge (no'.getD yes').span) condition' yes' no') := by
  refine of_regrouped rfl rfl fun hapt => ?_
  have hc := (hcondition (hapt.part (by simp [parts]))).1
  have hy := (hyes (hapt.part (by simp [parts]))).1
  cases hno with
  | none => exact .ifThen (.merging (.refl start) hy.span) hc hy
  | some hno =>
    have hn := (hno (hapt.part (by simp [parts]))).1
    exact .ifElse (.merging (.refl start) hn.span) hc hy hn

theorem importName (s : Span) (name : String) : Fits p (.importName s name) (.importName s name) :=
  of_regrouped rfl rfl fun _ => .importName name (.refl s)

/-- Operators in front of the name make a chain that is not apt, whatever the other reading is. -/
theorem of_signs {s : Span} {n value' link' : Node} (hvalue : value'.signs p = true)
    (hlink : link'.startsCall = true) : Fits p n (.chain s value' link') := by
  intro hapt
  have hsigns := hapt.signs_value hlink
  rw [hvalue] at hsigns
  cases hsigns

section Plugin

variable {sp sf close : Span} {function : String} {args args' : List (Labelled Node)}

/-- A chain on the name that begins with a call is no link that does the same. -/
theorem relays_name {s : Span} {link : Node} (hlink : link.startsCall = true) :
    (Node.chain s (identifier sp p) link).relays p = true := by
  rw [relays, hlink, asIdentifier?_identifier]
  simp

/-- A call of the plugin beside the chain on its name.  The name is where both begin. -/
theorem plugin (hargs : List.Forall₂ (FitsArg p) args args') (hclose : sp.start ≤ close.start)
    (hfunction : sp.start ≤ sf.start) :
    Fits p (.call (sp.merge close) (.plugin p function) args)
      (.chain (sp.merge (sf.merge close)) (identifier sp p)
        (.call (sf.merge close) (.named function) args')) := by
  intro hapt
  have hs : (sp.merge close).SameStart (sp.merge (sf.merge close)) := by
    refine (Span.SameStart.merge_left hclose).trans (Span.SameStart.merge_left ?_).symm
    rw [Span.start_merge]
    omega
  have hlink : (Node.call (sf.merge close) (.named function) args').Apt p :=
    hapt.part (by simp [parts])
  obtain ⟨u', hu'⟩ := hapt.exists_pluginCall rfl
  obtain ⟨a', ha', hu⟩ := ok_of_bind hu'
  cases hu
  have hregrouped := regrouped_args_of_fits hargs fun a ha =>
    hlink.part (List.mem_map_of_mem ha)
  obtain ⟨a, ha, hlabels, hready⟩ :=
    (Regrouped.unchainArgs (labels_eq_of_fits hargs) hregrouped).exists_ok ha'
  have hcall : (Node.call (sp.merge close) (.plugin p function) args).unchain
      = .ok (.call (sp.merge close) (.plugin p function) a) := by
    rw [unchain, ha]
    rfl
  refine ⟨.unchained rfl rfl rfl hs hcall rfl (.stands .call (.chain hu') hs hlabels hready), ?_⟩
  rw [relays_name rfl]
  intro hrelays
  cases hrelays

/-- The same with links behind the call. -/
theorem pluginChain {rest rest' : Node} (hargs : List.Forall₂ (FitsArg p) args args')
    (hrest : Fits p rest rest') (hclose : sp.start ≤ close.start)
    (hfunction : sp.start ≤ sf.start) (hbehind : sp.start ≤ rest.span.start) :
    Fits p
      (.chain ((sp.merge close).merge rest.span) (.call (sp.merge close) (.plugin p function) args)
        rest)
      (.chain (sp.merge ((sf.merge close).merge rest'.span)) (identifier sp p)
        (.chain ((sf.merge close).merge rest'.span)
          (.call (sf.merge close) (.named function) args') rest')) := by
  intro hapt
  have hlink : (Node.chain ((sf.merge close).merge rest'.span)
      (.call (sf.merge close) (.named function) args') rest').Apt p := hapt.part (by simp [parts])
  have hrest := hrest (hlink.part (by simp [parts]))
  have hcallee : (Node.call (sf.merge close) (.named function) args').Apt p :=
    hlink.part (by simp [parts])
  have hfirst : (sp.merge close).SameStart sp := .merge_left hclose
  have hwhole : ((sp.merge close).merge rest.span).SameStart sp := by
    refine (Span.SameStart.merge_left ?_).trans hfirst
    rw [hfirst.start]
    exact hbehind
  have hwhole' : (sp.merge ((sf.merge close).merge rest'.span)).SameStart sp := by
    refine .merge_left ?_
    rw [Span.start_merge, Span.start_merge, ← hrest.1.span.start]
    omega
  have hs := hwhole.trans hwhole'.symm
  -- both begin as the call of the plugin, and what comes of it flows into what is left
  obtain ⟨u', hu'⟩ := hapt.exists_pluginCall rfl
  obtain ⟨first', hfirst', hpipe'⟩ := ok_of_bind hu'
  obtain ⟨a', ha', hu⟩ := ok_of_bind hfirst'
  cases hu
  have hregrouped := regrouped_args_of_fits hargs fun a ha =>
    hcallee.part (List.mem_map_of_mem ha)
  obtain ⟨a, ha, hlabels, hready⟩ :=
    (Regrouped.unchainArgs (labels_eq_of_fits hargs) hregrouped).exists_ok ha'
  have hvalue : Regrouped p (.tree .ready) (.call (sp.merge close) (.plugin p function) a)
      (.call (sp.merge ((sf.merge close).merge rest'.span)) (.plugin p function) a') :=
    .call _ (hfirst.trans hwhole'.symm) hlabels hready
  obtain ⟨u, hpipe, hready⟩ := ((hrest.2 hlink.relays_link).pipe hs hvalue).exists_ok hpipe'
  obtain ⟨callee, b, rfl⟩ := exists_call_of_pipe hpipe
  obtain ⟨callee', b', rfl⟩ := exists_call_of_pipe hpipe'
  obtain ⟨rfl, -, hlabels, hready⟩ := hready.of_calls
  have hunchain : (Node.chain ((sp.merge close).merge rest.span)
      (.call (sp.merge close) (.plugin p function) args) rest).unchain
      = .ok (.call ((sp.merge close).merge rest.span) callee b) := by
    rw [unchain_chain rfl, unchainAs, unchain, ha]
    exact hpipe
  refine ⟨.unchained rfl rfl rfl hs hunchain rfl
    (.stands .call (.chain hu') hs hlabels hready), ?_⟩
  rw [relays_name rfl]
  intro hrelays
  cases hrelays

end Plugin
end Fits
end Node
end ClipScript
