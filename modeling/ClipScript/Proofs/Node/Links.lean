/-
A chain is the nested call of its links.

The call side of a chain is a tree, since parentheses may group links.  `Node.links` reads them off
in order, and a value flows through a tree as it flows through its links one after the other
(`pipe_eq_foldlM`), errors included.  So how the links are grouped makes no difference, and the
result is the call of the last link on the call of the one before it, and so on down to the value
(`nested`).

When the head is the name of a plugin, the first link becomes the innermost call and the others nest
around it in the same way.
-/
import ClipScript.Proofs.Node.Normal

namespace ClipScript
namespace Node

/-- The links of a call side, in the order in which a value flows through them. -/
def links : Node → List Node
  | chain _ first rest => first.links ++ rest.links
  | n => [n]

/-- A call that waits for its first argument. -/
structure Link where
  callee : Callee
  args : List (Labelled Node)

def Link.on (s : Span) (value : Node) (link : Link) : Node :=
  call s link.callee (⟨none, value⟩ :: link.args)

/-- The link with the chains in its arguments replaced. -/
structure Link.UnchainsTo (link link' : Link) : Prop where
  callee : link'.callee = link.callee
  args : List.Forall₂ ArgUnchainsTo link.args link'.args

/-- What a tree calls where it stands as a link: a call is taken as it is, and a bare name is a call
without further arguments. -/
def toLink? : Node → Option Link
  | call _ callee args => some ⟨callee, args⟩
  | leaf _ (.identifier name) => some ⟨.named name, []⟩
  | _ => none

def nested (s : Span) (value : Node) (links : List Link) : Node := links.foldl (Link.on s) value

/-- A tree stands for a call whose arguments can be replaced. -/
def Callable (n : Node) : Prop :=
  ∃ link ∈ n.toLink?, ∀ a ∈ link.args, ∃ u, a.content.unchain = .ok u

/-- A tree stands for a call, and this is the call with its arguments replaced. -/
def Calls (n : Node) (link' : Link) : Prop := ∃ link ∈ n.toLink?, link.UnchainsTo link'

theorem pipe_eq_foldlM (s : Span) (v n : Node) : pipe s v n = n.links.foldlM (pipe s) v := by
  fun_induction links n generalizing v with
  | case1 t first rest ihfirst ihrest =>
    rw [List.foldlM_append, ← ihfirst, pipe]
    exact bind_congr fun mid => ihrest mid
  | case2 n _ => exact (bind_pure (pipe s v n)).symm

theorem links_ne_nil (n : Node) : n.links ≠ [] := by
  fun_induction links n with
  | case1 t first rest ihfirst _ => exact List.append_ne_nil_of_left_ne_nil ihfirst rest.links
  | case2 n _ => exact List.cons_ne_nil n []

/-- What stands behind the first link takes what the call of the plugin gives. -/
theorem pluginCall_eq_foldlM {n first : Node} {rest : List Node} (h : n.links = first :: rest)
    (owner : String) (s : Span) :
    pluginCall owner s n = pluginCall owner s first >>= fun v => rest.foldlM (pipe s) v := by
  fun_induction links n generalizing rest with
  | case1 t front back ihfront _ =>
    obtain ⟨hnil, -⟩ | ⟨more, hfront, rfl⟩ := List.append_eq_cons_iff.mp h
    · exact absurd hnil (links_ne_nil front)
    · rw [pluginCall, ihfront hfront, bind_assoc]
      refine bind_congr fun v => ?_
      rw [List.foldlM_append]
      exact bind_congr fun mid => pipe_eq_foldlM s mid back
  | case2 n _ =>
    obtain ⟨rfl, rfl⟩ := List.cons.inj h
    exact (bind_pure (pluginCall owner s n)).symm

theorem ne_chain_of_mem_links {n u : Node} (h : u ∈ n.links) (s : Span) (first rest : Node) :
    u ≠ chain s first rest := by
  fun_induction links n with
  | case1 t front back ihfront ihback => exact (List.mem_append.mp h).elim ihfront ihback
  | case2 n hn =>
    rw [List.mem_singleton.mp h]
    exact hn s first rest

theorem forall₂_argUnchainsTo_iff {args : List (Labelled Node)} :
    (∃ args', List.Forall₂ ArgUnchainsTo args args') ↔
      ∀ a ∈ args, ∃ u, a.content.unchain = .ok u := by
  induction args with
  | nil => exact ⟨fun _ => List.forall_mem_nil _, fun _ => ⟨[], .nil⟩⟩
  | cons a rest ih =>
    rw [List.forall_mem_cons, ← ih]
    constructor
    · rintro ⟨_, _ | ⟨ha, hrest⟩⟩
      exact ⟨⟨_, ha.content⟩, _, hrest⟩
    · rintro ⟨⟨u, hu⟩, rest', hrest⟩
      exact ⟨⟨a.label, u⟩ :: rest', .cons ⟨rfl, hu⟩ hrest⟩

/-- A tree is callable if there is a call that it stands for. -/
theorem callable_iff (n : Node) : n.Callable ↔ ∃ link', n.Calls link' := by
  constructor
  · rintro ⟨link, hlink, hargs⟩
    obtain ⟨args', hargs'⟩ := forall₂_argUnchainsTo_iff.mpr hargs
    exact ⟨⟨link.callee, args'⟩, link, hlink, rfl, hargs'⟩
  · rintro ⟨link', link, hlink, hunchains⟩
    exact ⟨link, hlink, forall₂_argUnchainsTo_iff.mp ⟨_, hunchains.args⟩⟩

theorem pipe_of_toLink? {n : Node} {link : Link} (h : n.toLink? = some link) (s : Span)
    (v : Node) :
    pipe s v n = (unchainArgs link.args).map fun args => Link.on s v ⟨link.callee, args⟩ := by
  unfold toLink? at h
  split at h <;> cases h <;> rfl

theorem pipe_of_toLink?_eq_none {n : Node} (hn : ∀ t first rest, n ≠ chain t first rest)
    (h : n.toLink? = none) (s : Span) (v : Node) :
    pipe s v n = .error (.notCallable n.kindName) := by
  cases n with
  | leaf t w =>
    cases w with
    | identifier name => cases h
    | _ => rfl
  | call t callee args => cases h
  | chain t first rest => exact absurd rfl (hn t first rest)
  | _ => rfl

/-- A value flows into a tree that is no chain if that stands for a call, and makes this call. -/
theorem pipe_eq_ok_iff {n : Node} (hn : ∀ t first rest, n ≠ chain t first rest) {s : Span}
    {v r : Node} : pipe s v n = .ok r ↔ ∃ link', n.Calls link' ∧ r = link'.on s v := by
  cases hlink : n.toLink? with
  | none =>
    rw [pipe_of_toLink?_eq_none hn hlink]
    refine ⟨nofun, ?_⟩
    rintro ⟨_, ⟨link, hsome, -⟩, -⟩
    rw [hlink] at hsome
    cases hsome
  | some link =>
    rw [pipe_of_toLink? hlink]
    constructor
    · intro h
      obtain ⟨args, hargs, rfl⟩ := ok_of_map h
      exact ⟨⟨link.callee, args⟩, ⟨link, hlink, rfl, unchainArgs_eq_ok_iff.mp hargs⟩, rfl⟩
    · rintro ⟨⟨callee, args⟩, ⟨found, hfound, hcallee, hargs⟩, rfl⟩
      obtain rfl : link = found := Option.some.inj (hlink.symm.trans hfound)
      obtain rfl : callee = link.callee := hcallee
      have hargs : unchainArgs link.args = .ok args := unchainArgs_eq_ok_iff.mpr hargs
      rw [hargs]
      rfl

theorem foldlM_pipe_eq_ok_iff {s : Span} {links : List Node}
    (hlinks : ∀ n ∈ links, ∀ t first rest, n ≠ chain t first rest) {v r : Node} :
    links.foldlM (pipe s) v = .ok r ↔
      ∃ links', List.Forall₂ Calls links links' ∧ r = nested s v links' := by
  induction links generalizing v with
  | nil =>
    constructor
    · intro h
      cases h
      exact ⟨[], .nil, rfl⟩
    · rintro ⟨_, ⟨⟩, rfl⟩
      rfl
  | cons n rest ih =>
    rw [List.forall_mem_cons] at hlinks
    rw [List.foldlM_cons]
    constructor
    · intro h
      obtain ⟨mid, hmid, h⟩ := ok_of_bind h
      obtain ⟨link', hlink', rfl⟩ := (pipe_eq_ok_iff hlinks.1).mp hmid
      obtain ⟨rest', hrest', rfl⟩ := (ih hlinks.2).mp h
      exact ⟨link' :: rest', .cons hlink' hrest', rfl⟩
    · rintro ⟨_, _ | ⟨hlink', hrest'⟩, rfl⟩
      rw [(pipe_eq_ok_iff hlinks.1).mpr ⟨_, hlink', rfl⟩]
      exact (ih hlinks.2).mpr ⟨_, hrest', rfl⟩

theorem forall_callable_iff {links : List Node} :
    (∀ n ∈ links, n.Callable) ↔ ∃ links', List.Forall₂ Calls links links' := by
  induction links with
  | nil => exact ⟨fun _ => ⟨[], .nil⟩, fun _ => List.forall_mem_nil _⟩
  | cons n rest ih =>
    rw [List.forall_mem_cons, ih, callable_iff]
    constructor
    · rintro ⟨⟨link', hlink'⟩, rest', hrest'⟩
      exact ⟨link' :: rest', .cons hlink' hrest'⟩
    · rintro ⟨_, _ | ⟨hlink', hrest'⟩⟩
      exact ⟨⟨_, hlink'⟩, _, hrest'⟩

theorem unchainAs_eq_ok_iff {s : Span} {v c r : Node} :
    unchainAs s v c = .ok r ↔ ∃ v' links', v.unchain = .ok v' ∧
      List.Forall₂ Calls c.links links' ∧ r = nested s v' links' := by
  have hlinks : ∀ n ∈ c.links, ∀ t first rest, n ≠ chain t first rest :=
    fun n hn => ne_chain_of_mem_links hn
  constructor
  · intro h
    obtain ⟨v', hv', h⟩ := ok_of_bind h
    rw [pipe_eq_foldlM, foldlM_pipe_eq_ok_iff hlinks] at h
    obtain ⟨links', hcalls, hr⟩ := h
    exact ⟨v', links', hv', hcalls, hr⟩
  · rintro ⟨v', links', hv', hcalls, hr⟩
    rw [unchainAs, hv']
    show pipe s v' c = .ok r
    rw [pipe_eq_foldlM, foldlM_pipe_eq_ok_iff hlinks]
    exact ⟨links', hcalls, hr⟩

/-- The first link of a chain on a plugin, if it is a call by name or a bare name. -/
theorem pluginCall_of_toLink? {n : Node} {function : String} {args : List (Labelled Node)}
    (h : n.toLink? = some ⟨.named function, args⟩) (owner : String) (s : Span) :
    pluginCall owner s n = (unchainArgs args).map (call s (.plugin owner function)) := by
  unfold toLink? at h
  split at h <;> cases h <;> rfl

theorem pluginCall_eq_ok_iff {s : Span} {owner function : String} {args : List (Labelled Node)}
    {c first : Node} {rest : List Node} (hlinks : c.links = first :: rest)
    (hfirst : first.toLink? = some ⟨.named function, args⟩) {r : Node} :
    pluginCall owner s c = .ok r ↔ ∃ args' rest', List.Forall₂ ArgUnchainsTo args args' ∧
      List.Forall₂ Calls rest rest' ∧
      r = nested s (call s (.plugin owner function) args') rest' := by
  have hrest : ∀ n ∈ rest, ∀ t front back, n ≠ chain t front back := by
    intro n hn
    refine ne_chain_of_mem_links (n := c) ?_
    rw [hlinks]
    exact List.mem_cons_of_mem _ hn
  rw [pluginCall_eq_foldlM hlinks, pluginCall_of_toLink? hfirst]
  constructor
  · intro h
    obtain ⟨v, hv, h⟩ := ok_of_bind h
    obtain ⟨args', hargs, rfl⟩ := ok_of_map hv
    obtain ⟨rest', hcalls, hr⟩ := (foldlM_pipe_eq_ok_iff hrest).mp h
    exact ⟨args', rest', unchainArgs_eq_ok_iff.mp hargs, hcalls, hr⟩
  · rintro ⟨args', rest', hargs, hcalls, hr⟩
    rw [unchainArgs_eq_ok_iff.mpr hargs]
    exact (foldlM_pipe_eq_ok_iff hrest).mpr ⟨rest', hcalls, hr⟩

/-- A chain is the nested call of its links.  It has one if its value can be replaced and each link
is a call with arguments that can be replaced or a bare name; the calls keep callees, labels and
arguments and take the value or the call before them as first argument.  Only the sequence of the
links counts, even for the fault if there is one.  On the name of a plugin the first link, called by
name, becomes a call of the plugin's function and the others nest around it. -/
theorem chain_is_nested_call (s : Span) :
    (∀ v c, (∃ r, unchainAs s v c = .ok r) ↔
      (∃ v', v.unchain = .ok v') ∧ ∀ n ∈ c.links, n.Callable) ∧
    (∀ v c r, unchainAs s v c = .ok r → ∃ v' links', v.unchain = .ok v' ∧
      List.Forall₂ Calls c.links links' ∧ r = nested s v' links') ∧
    (∀ v c c', c.links = c'.links → unchainAs s v c = unchainAs s v c') ∧
    ∀ owner function args c first rest, c.links = first :: rest →
      first.toLink? = some ⟨.named function, args⟩ →
      ((∃ r, pluginCall owner s c = .ok r) ↔
        (∀ a ∈ args, ∃ u, a.content.unchain = .ok u) ∧ ∀ n ∈ rest, n.Callable) ∧
      ∀ r, pluginCall owner s c = .ok r → ∃ args' rest', List.Forall₂ ArgUnchainsTo args args' ∧
        List.Forall₂ Calls rest rest' ∧
        r = nested s (call s (.plugin owner function) args') rest' := by
  refine ⟨fun v c => ?_, fun v c r => unchainAs_eq_ok_iff.mp, fun v c c' h => ?_, ?_⟩
  · rw [forall_callable_iff]
    constructor
    · rintro ⟨r, h⟩
      obtain ⟨v', links', hv', hcalls, -⟩ := unchainAs_eq_ok_iff.mp h
      exact ⟨⟨v', hv'⟩, links', hcalls⟩
    · rintro ⟨⟨v', hv'⟩, links', hcalls⟩
      exact ⟨_, unchainAs_eq_ok_iff.mpr ⟨v', links', hv', hcalls, rfl⟩⟩
  · refine bind_congr fun v' => ?_
    rw [pipe_eq_foldlM, pipe_eq_foldlM, h]
  · intro owner function args c first rest hlinks hfirst
    refine ⟨?_, fun r => (pluginCall_eq_ok_iff hlinks hfirst).mp⟩
    rw [forall_callable_iff, ← forall₂_argUnchainsTo_iff]
    constructor
    · rintro ⟨r, h⟩
      obtain ⟨args', rest', hargs, hcalls, -⟩ := (pluginCall_eq_ok_iff hlinks hfirst).mp h
      exact ⟨⟨args', hargs⟩, rest', hcalls⟩
    · rintro ⟨⟨args', hargs⟩, rest', hcalls⟩
      exact ⟨_, (pluginCall_eq_ok_iff hlinks hfirst).mpr ⟨args', rest', hargs, hcalls, rfl⟩⟩

/-- `(f().g()).h` and `f().(g().h)` have the same links, as call sides of a value and of a
plugin. -/
theorem chain_is_nested_call_grouped :
    let link (x : String) : Node := .call .nowhere (.named x) []
    let grouped := chain .nowhere (chain .nowhere (link "f") (link "g")) (.identifier .nowhere "h")
    let inLine := chain .nowhere (link "f") (chain .nowhere (link "g") (.identifier .nowhere "h"))
    (∀ v, unchainAs .nowhere v grouped = unchainAs .nowhere v inLine) ∧
    ∃ r, pluginCall "p" .nowhere grouped = .ok r := by
  intro link grouped inLine
  obtain ⟨-, -, hregroup, hplugin⟩ := chain_is_nested_call .nowhere
  refine ⟨fun v => hregroup v grouped inLine rfl, ?_⟩
  have hcallable : ∀ n ∈ [link "g", .identifier .nowhere "h"], n.Callable := by
    simp [link, Callable, toLink?, identifier]
  exact (hplugin "p" "f" [] grouped _ _ rfl rfl).1.mpr ⟨List.forall_mem_nil _, hcallable⟩

end Node
end ClipScript
