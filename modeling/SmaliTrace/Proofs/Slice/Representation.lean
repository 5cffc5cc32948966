import Mathlib.Data.List.Permutation
import SmaliTrace.Proofs.Slice.Paths

/-!
What all slice graphs have in common, whatever lines, constants and links are added and in whatever order:
every line has one node, every register pair of a node is filed once and holds a predecessor, and the pairs
of terminal nodes are those under the terminal source. Nodes, predecessors and the loss of the terminal mark
are never undone.
-/
namespace SmaliTrace.Slice
open SmaliTrace.Smali (Register)

/-! ### Inbound edges as a table -/

/-- The register pairs of inbound edges, in the order they appeared. -/
def Inbound.keys (edges : Inbound) : List EdgeKey := edges.map Prod.fst

/-- Every register pair has the property, and holds a predecessor. -/
def Inbound.Filed (P : EdgeKey → Prop) (edges : Inbound) : Prop := ∀ edge ∈ edges, P edge.1 ∧ edge.2 ≠ []

variable {P : EdgeKey → Prop} {edges more : Inbound} {key : EdgeKey} {ids : List NodeId}

theorem unionIds_ne_nil {more : List NodeId} (some : ids ≠ [] ∨ more ≠ []) : unionIds ids more ≠ [] := by
  intro none
  have empty : ∀ p, p ∉ ids ∧ p ∉ more := by
    intro p
    have absent : p ∉ unionIds ids more := by simp [none]
    simpa [mem_unionIds, not_or] using absent
  rcases some with first | second
  · obtain ⟨p, inside⟩ := List.exists_mem_of_ne_nil ids first
    exact (empty p).1 inside
  · obtain ⟨p, inside⟩ := List.exists_mem_of_ne_nil more second
    exact (empty p).2 inside

theorem keys_add (edges : Inbound) (key : EdgeKey) (ids : List NodeId) :
    (edges.add key ids).keys = if key ∈ edges.keys then edges.keys else edges.keys ++ [key] := by
  induction edges with
  | nil => simp [Inbound.add, Inbound.keys]
  | cons edge edges ih =>
    unfold Inbound.add
    by_cases same : edge.1 = key
    · simp [same, Inbound.keys]
    · simp only [same, if_false]
      simp only [Inbound.keys, List.map_cons, List.mem_cons] at ih ⊢
      rw [ih]
      by_cases inside : key ∈ edges.map Prod.fst
      · simp [inside]
      · simp [inside, Ne.symm same]

theorem nodup_keys_add (distinct : edges.keys.Nodup) : (edges.add key ids).keys.Nodup := by
  rw [keys_add]
  split
  · exact distinct
  · next fresh =>
    rw [← List.concat_eq_append]
    exact distinct.concat fresh

theorem Inbound.Filed.add (filed : edges.Filed P) (holds : P key) (some : ids ≠ []) :
    (edges.add key ids).Filed P := by
  induction edges with
  | nil =>
    intro edge inside
    obtain rfl : edge = (key, ids) := by simpa [Inbound.add] using inside
    exact ⟨holds, some⟩
  | cons first edges ih =>
    have here := filed first (by simp)
    have rest := ih fun edge inside => filed edge (by simp [inside])
    unfold Inbound.add
    intro edge inside
    split at inside
    · rcases List.mem_cons.mp inside with rfl | inside
      · exact ⟨here.1, unionIds_ne_nil (.inl here.2)⟩
      · exact filed edge (by simp [inside])
    · rcases List.mem_cons.mp inside with rfl | inside
      · exact here
      · exact rest edge inside

/-- Adding all edges of one table to another. -/
theorem filed_foldl_add (filed : edges.Filed P) (distinct : edges.keys.Nodup) (others : more.Filed P) :
    (more.foldl (fun edges (key, ids) => edges.add key ids) edges).Filed P ∧
      (more.foldl (fun edges (key, ids) => edges.add key ids) edges).keys.Nodup := by
  induction more generalizing edges with
  | nil => exact ⟨filed, distinct⟩
  | cons edge more ih =>
    obtain ⟨holds, some⟩ := others edge (by simp)
    exact ih (filed.add holds some) (nodup_keys_add distinct) fun other inside => others other (by simp [inside])

/-! ### Nodes -/

/-- The edges of a node: each register pair once and with a predecessor, and under the terminal source exactly
if the node is terminal. -/
structure Node.Tidy (n : Node) : Prop where
  distinct : n.inbound.keys.Nodup
  filed : n.inbound.Filed fun key => key.source = constSource ↔ n.isTerminal = true
  register : n.terminal ≠ some constSource

namespace Node

variable {n : Node} {self : NodeId} {pred : Option NodeId}

@[simp] theorem terminal_addInbound (n : Node) (self : NodeId) (key : EdgeKey) (pred : Option NodeId) :
    (n.addInbound self key pred).terminal = n.terminal := by
  unfold addInbound
  split
  · rfl
  · split <;> rfl

theorem terminal_upgrade (n : Node) : n.upgrade.terminal = none := by
  unfold upgrade
  split
  · assumption
  · rfl

theorem Tidy.addInbound (tidy : n.Tidy) (source : key.source = constSource ↔ n.isTerminal = true) :
    (n.addInbound self key pred).Tidy := by
  unfold Node.addInbound
  split
  · exact tidy
  · split
    · exact tidy
    · exact ⟨nodup_keys_add tidy.distinct, tidy.filed.add source (by simp), tidy.register⟩

/-- The edges under the terminal source get the register of the constant for their source. -/
theorem filed_movedEdges {register : Register} (filed : edges.Filed P) :
    (movedEdges register edges).Filed fun key => key.source = register := by
  have moved : ∀ edges table : Inbound, edges.Filed P → table.Filed (fun key => key.source = register) →
      (edges.foldl (fun (table : Inbound) (key, ids) =>
        if key.source = constSource then table.add ⟨register, key.target⟩ (unionIds [] ids)
        else table) table).Filed fun key => key.source = register := by
    intro edges
    induction edges with
    | nil => exact fun _ _ table => table
    | cons edge edges ih =>
      intro table filed filedTable
      obtain ⟨_, some⟩ := filed edge (by simp)
      refine ih _ (fun other inside => filed other (by simp [inside])) ?_
      dsimp only
      split
      · exact filedTable.add rfl (unionIds_ne_nil (.inr some))
      · exact filedTable
  intro edge inside
  exact moved edges [] filed (by simp [Inbound.Filed]) edge (List.mem_mergeSort.mp inside)

theorem Tidy.upgrade (tidy : n.Tidy) : n.upgrade.Tidy := by
  cases terminal : n.terminal with
  | none =>
    have same : n.upgrade = n := by simp [Node.upgrade, terminal]
    rwa [same]
  | some register =>
    have other : register ≠ constSource := by
      rintro rfl
      exact tidy.register terminal
    -- a terminal node has no edge that stays where it is
    have none : (n.inbound.filter fun (key, _) => key.source ≠ constSource) = [] := by
      refine List.filter_eq_nil_iff.mpr fun edge inside => ?_
      have isConst := (tidy.filed edge inside).1.mpr (by simp [isTerminal, terminal])
      simp [isConst]
    have moved : (movedEdges register n.inbound).Filed
        fun key => key.source = constSource ↔ n.upgrade.isTerminal = true := by
      intro edge inside
      obtain ⟨source, some⟩ := filed_movedEdges tidy.filed edge inside
      exact ⟨by simp [source, other, isTerminal, terminal_upgrade], some⟩
    have start : Inbound.Filed (fun key => key.source = constSource ↔ n.upgrade.isTerminal = true) [] := by
      simp [Inbound.Filed]
    have edges : n.upgrade.inbound =
        (movedEdges register n.inbound).foldl (fun (edges : Inbound) (key, ids) => edges.add key ids) [] := by
      simp only [Node.upgrade, terminal, none]
    obtain ⟨filed, distinct⟩ := filed_foldl_add start (by simp [Inbound.keys]) moved
    exact ⟨by rwa [edges], by rwa [edges], by simp [terminal_upgrade]⟩

end Node

/-! ### Edits of a graph -/

/-- One change of a slice graph. -/
inductive GraphEdit where
  | node (line : LineId) (pred : Option NodeId) (key : EdgeKey)
  | constant (line : LineId) (pred : Option NodeId) (register target : Register)
  | link (id : NodeId) (pred : Option NodeId) (key : EdgeKey)
deriving DecidableEq, Repr

namespace GraphEdit

/-- The graph after the change. -/
def apply (g : SliceGraph) : GraphEdit → SliceGraph
  | node line pred key => (g.addNode line pred key).1
  | constant line pred register target => (g.addConstant line pred register target).1
  | link id pred key => g.link id pred key

/-- The line that the change adds. -/
def line? : GraphEdit → Option LineId
  | node line _ _ | constant line _ _ _ => some line
  | link _ _ _ => none

/-- The predecessor that the change names. -/
def pred? : GraphEdit → Option NodeId
  | node _ pred _ | constant _ pred _ _ | link _ pred _ => pred

/-- The register that the node of the change hands on. -/
def source : GraphEdit → Register
  | node _ _ key | link _ _ key => key.source
  | constant _ _ register _ => register

/-- The predecessor is a node of the graph, and no register has the name of the terminal source. -/
def Allowed (g : SliceGraph) (e : GraphEdit) : Prop := (∀ p ∈ e.pred?, g.Live p) ∧ e.source ≠ constSource

end GraphEdit

namespace SliceGraph

variable {g h : SliceGraph} {id p : Int}

instance (g : SliceGraph) (id : Int) : Decidable (g.Live id) :=
  inferInstanceAs (Decidable (0 ≤ id ∧ id < (g.nodes.size : Int)))

instance (g : SliceGraph) (e : GraphEdit) : Decidable (e.Allowed g) :=
  inferInstanceAs (Decidable ((∀ p ∈ e.pred?, g.Live p) ∧ e.source ≠ constSource))

/-- The graph after a sequence of changes. -/
def edited (g : SliceGraph) (edits : List GraphEdit) : SliceGraph := edits.foldl GraphEdit.apply g

/-- Every change of the sequence is allowed where it is made. -/
def AllAllowed (g : SliceGraph) : List GraphEdit → Prop
  | [] => True
  | e :: edits => e.Allowed g ∧ AllAllowed (e.apply g) edits

instance decidableAllAllowed : (g : SliceGraph) → (edits : List GraphEdit) → Decidable (g.AllAllowed edits)
  | _, [] => inferInstanceAs (Decidable True)
  | g, e :: edits =>
    have := decidableAllAllowed (e.apply g) edits
    inferInstanceAs (Decidable (e.Allowed g ∧ AllAllowed (e.apply g) edits))

theorem allAllowed_append {first last : List GraphEdit} :
    g.AllAllowed (first ++ last) ↔ g.AllAllowed first ∧ (g.edited first).AllAllowed last := by
  induction first generalizing g with
  | nil => simp [AllAllowed, edited]
  | cons e first ih =>
    simp only [List.cons_append, AllAllowed, ih, and_assoc]
    rfl

/-! ### The invariant -/

/-- What holds of a graph between two changes: the lines are those that were added, each once, and the nodes
are tidy and have other nodes for predecessors. -/
structure Sound (added : List LineId) (g : SliceGraph) : Prop where
  lines : ∀ line, line ∈ g.lines ↔ line ∈ added
  distinct : g.lines.Nodup
  tidy : ∀ (i : Nat) (n : Node), g.nodes[i]? = some n → n.Tidy
  preds : ∀ id p, g.Pred id p → p ≠ id ∧ g.Live p

/-- The nodes, their predecessors and the loss of the terminal mark stay. -/
structure Keeps (g h : SliceGraph) : Prop where
  lines : g.lines <+: h.lines
  preds : ∀ id p, g.Pred id p → h.Pred id p
  passed : ∀ (id : Int) n n', g.node? id = some n → h.node? id = some n' → n.isTerminal = false →
    n'.isTerminal = false

/-! ### One change -/

theorem lines_apply (g : SliceGraph) (e : GraphEdit) :
    (e.apply g).lines =
      match e.line? with
      | some line => if line ∈ g.lines then g.lines else g.lines ++ [line]
      | none => g.lines := by
  have known : ∀ line, (g.lines.findIdx? (· = line)).isSome = true ↔ line ∈ g.lines := by
    intro line
    simp [List.findIdx?_isSome]
  cases e with
  | node line pred key => simp only [GraphEdit.apply, GraphEdit.line?, lines_addNode_eq, known]
  | constant line pred register target =>
    simp only [GraphEdit.apply, GraphEdit.line?, lines_addConstant_eq, known]
  | link id pred key => exact lines_link id pred key

theorem lines_subset_apply (g : SliceGraph) (e : GraphEdit) : g.lines <+: (e.apply g).lines := by
  rw [lines_apply]
  split
  · split
    · exact List.prefix_rfl
    · exact List.prefix_append ..
  · exact List.prefix_rfl

theorem pred_apply_of_pred (e : GraphEdit) (pred : g.Pred id p) : (e.apply g).Pred id p := by
  cases e with
  | node line origin key => exact pred_addNode.mpr (.inl pred)
  | constant line origin register target => exact pred_addConstant.mpr (.inl pred)
  | link node origin key => exact pred_link.mpr (.inl pred)

theorem pred_cases_of_apply {e : GraphEdit} (pred : (e.apply g).Pred id p) :
    g.Pred id p ∨ (e.pred? = some p ∧ p ≠ id) := by
  cases e with
  | node line origin key =>
    rcases pred_addNode.mp pred with old | ⟨_, new⟩
    · exact .inl old
    · exact .inr new
  | constant line origin register target =>
    rcases pred_addConstant.mp pred with old | ⟨_, new⟩
    · exact .inl old
    · exact .inr new
  | link node origin key =>
    rcases pred_link.mp pred with old | ⟨_, _, new⟩
    · exact .inl old
    · exact .inr new

/-- A change of a node keeps it tidy, and does not make it terminal. -/
def Passes (n n' : Node) : Prop := (n.Tidy → n'.Tidy) ∧ (n.isTerminal = false → n'.isTerminal = false)

theorem passes_addInbound {n : Node} {self : NodeId} {key : EdgeKey} {pred : Option NodeId}
    (source : key.source = constSource ↔ n.isTerminal = true) : Passes n (n.addInbound self key pred) :=
  ⟨fun tidy => tidy.addInbound source, fun passed => by simpa [Node.isTerminal] using passed⟩

theorem passes_modify {k i : Nat} {f : Node → Node} {n' : Node} (passes : ∀ n, Passes n (f n))
    (found : (g.modify k f).nodes[i]? = some n') : ∃ n, g.nodes[i]? = some n ∧ Passes n n' := by
  simp only [modify, Array.getElem?_modify] at found
  split at found
  · obtain ⟨n, atI, rfl⟩ := Option.map_eq_some_iff.mp found
    exact ⟨n, atI, passes n⟩
  · exact ⟨n', found, id, id⟩

theorem push_cases {i : Nat} {n n' : Node} (found : (g.nodes.push n)[i]? = some n') :
    g.nodes[i]? = some n' ∨ (g.nodes[i]? = none ∧ n' = n) := by
  rw [Array.getElem?_push] at found
  split at found
  · next last =>
    cases found
    exact .inr ⟨by simp [last], rfl⟩
  · exact .inl found

/-- A node after a change was there before, and kept tidy and not made terminal, or it is new and tidy. -/
theorem node_cases_of_apply {e : GraphEdit} (proper : e.source ≠ constSource) {i : Nat} {n' : Node}
    (found : (e.apply g).nodes[i]? = some n') :
    (∃ n, g.nodes[i]? = some n ∧ Passes n n') ∨ (g.nodes[i]? = none ∧ n'.Tidy) := by
  have fresh : ∀ {n : Node}, n.Tidy → (g.nodes.push n)[i]? = some n' →
      (∃ n, g.nodes[i]? = some n ∧ Passes n n') ∨ (g.nodes[i]? = none ∧ n'.Tidy) := by
    intro n tidy found
    rcases push_cases found with old | ⟨none, rfl⟩
    · exact .inl ⟨n', old, id, id⟩
    · exact .inr ⟨none, tidy⟩
  cases e with
  | node line pred key =>
    have source : ¬ key.source = constSource := proper
    simp only [GraphEdit.apply, addNode] at found
    split at found
    · refine .inl (passes_modify (fun n => ⟨fun tidy => tidy.upgrade.addInbound ?_, fun _ => ?_⟩) found)
      · simp [source, Node.isTerminal, Node.terminal_upgrade]
      · simp [Node.isTerminal, Node.terminal_upgrade]
    · have bare : ({ line := line } : Node).Tidy := ⟨by simp [Inbound.keys], by simp [Inbound.Filed], by simp⟩
      exact fresh (bare.addInbound (by simp [source, Node.isTerminal])) found
  | constant line pred register target =>
    have source : ¬ register = constSource := proper
    simp only [GraphEdit.apply, addConstant] at found
    split at found
    · refine .inl (passes_modify (fun n => passes_addInbound ?_) found)
      cases n.isTerminal <;> simp [source]
    · have bare : ({ line := line, terminal := some register } : Node).Tidy :=
        ⟨by simp [Inbound.keys], by simp [Inbound.Filed], by simpa using source⟩
      exact fresh (bare.addInbound (by simp [Node.isTerminal])) found
  | link id pred key =>
    have source : ¬ key.source = constSource := proper
    simp only [GraphEdit.apply, link] at found
    split at found
    · exact .inl ⟨n', found, fun tidy => tidy, fun passed => passed⟩
    · refine .inl (passes_modify (fun n => passes_addInbound ?_) found)
      cases n.isTerminal <;> simp [source]

theorem Sound.apply {added : List LineId} {e : GraphEdit} (sound : g.Sound added) (allowed : e.Allowed g) :
    (e.apply g).Sound (added ++ e.line?.toList) where
  lines line := by
    rw [lines_apply, List.mem_append]
    cases e.line? with
    | none => simp [sound.lines]
    | some new =>
      by_cases known : new ∈ g.lines
      · have old := (sound.lines new).mp known
        simp only [known, if_true, sound.lines, Option.toList_some, List.mem_singleton]
        exact ⟨.inl, fun either => either.elim id fun same => same ▸ old⟩
      · simp [known, sound.lines]
  distinct := by
    rw [lines_apply]
    split
    · split
      · exact sound.distinct
      · next new fresh =>
        rw [← List.concat_eq_append]
        exact sound.distinct.concat fresh
    · exact sound.distinct
  tidy i n found := by
    rcases node_cases_of_apply allowed.2 found with ⟨n, old, passes⟩ | ⟨_, tidy⟩
    · exact passes.1 (sound.tidy i n old)
    · exact tidy
  preds id p pred := by
    have live : ∀ {q : Int}, g.Live q → (e.apply g).Live q := live_of_prefix (lines_subset_apply g e)
    rcases pred_cases_of_apply pred with old | ⟨named, other⟩
    · obtain ⟨other, isNode⟩ := sound.preds id p old
      exact ⟨other, live isNode⟩
    · exact ⟨other, live (allowed.1 p named)⟩

theorem node?_of_prefix (grown : g.lines <+: h.lines) {n : Node} (found : g.node? id = some n) :
    ∃ n', h.node? id = some n' := by
  obtain ⟨natural, atId⟩ := node?_eq_some_iff.mp found
  have bound := (Array.getElem?_eq_some_iff.mp atId).1
  have sizes := grown.length_le
  rw [length_lines, length_lines] at sizes
  exact ⟨h.nodes[id.toNat], node?_eq_some_iff.mpr ⟨natural, Array.getElem?_eq_getElem (by omega)⟩⟩

theorem Keeps.refl (g : SliceGraph) : Keeps g g where
  lines := List.prefix_rfl
  preds _ _ pred := pred
  passed id n n' found found' passed := by
    cases found.symm.trans found'
    exact passed

theorem Keeps.trans {k : SliceGraph} (first : Keeps g h) (last : Keeps h k) : Keeps g k where
  lines := first.lines.trans last.lines
  preds id p pred := last.preds id p (first.preds id p pred)
  passed id n n' found found' passed := by
    obtain ⟨m, between⟩ := node?_of_prefix first.lines found
    exact last.passed id m n' between found' (first.passed id n m found between passed)

theorem keeps_apply {e : GraphEdit} (allowed : e.Allowed g) : Keeps g (e.apply g) where
  lines := lines_subset_apply g e
  preds _ _ pred := pred_apply_of_pred e pred
  passed id n n' found found' passed := by
    obtain ⟨_, atId⟩ := node?_eq_some_iff.mp found
    obtain ⟨_, atId'⟩ := node?_eq_some_iff.mp found'
    rcases node_cases_of_apply allowed.2 atId' with ⟨m, old, passes⟩ | ⟨none, _⟩
    · cases atId.symm.trans old
      exact passes.2 passed
    · simp [none] at atId

/-! ### Sequences of changes -/

theorem Sound.edited {added : List LineId} {edits : List GraphEdit} (sound : g.Sound added)
    (allowed : g.AllAllowed edits) :
    (g.edited edits).Sound (added ++ edits.filterMap GraphEdit.line?) ∧ Keeps g (g.edited edits) := by
  induction edits generalizing g added with
  | nil => exact ⟨by simpa [SliceGraph.edited] using sound, .refl g⟩
  | cons e edits ih =>
    obtain ⟨last, kept⟩ := ih (sound.apply allowed.1) allowed.2
    refine ⟨?_, (keeps_apply allowed.1).trans kept⟩
    have same : added ++ e.line?.toList ++ edits.filterMap GraphEdit.line? =
        added ++ (e :: edits).filterMap GraphEdit.line? := by
      cases line : e.line? <;> simp [line]
    exact same ▸ last

theorem sound_empty : ({} : SliceGraph).Sound [] where
  lines _ := by simp [SliceGraph.lines]
  distinct := by simp [SliceGraph.lines]
  tidy i n found := by simp at found
  preds id p pred := by
    obtain ⟨n, found, _⟩ := pred
    have := (node?_eq_some_iff.mp found).2
    simp at this

/-! ### What the queries of a graph give -/

theorem node?_natCast (g : SliceGraph) (i : Nat) : g.node? i = g.nodes[i]? := by
  have natural : ¬ ((i : Int) < 0) := by omega
  simp [node?, natural]

theorem mem_nodesOf {m : Option MethodId} {i : Nat} :
    i ∈ g.nodesOf m ↔ ∃ line, g.lines[i]? = some line ∧ line.method? = m := by
  simp only [nodesOf, ids, List.mem_filter, List.mem_range, decide_eq_true_eq, getElem?_lines]
  constructor
  · rintro ⟨_, same⟩
    obtain ⟨n, atI, isMethod⟩ := Option.map_eq_some_iff.mp same
    exact ⟨n.line, by simp [atI], isMethod⟩
  · rintro ⟨line, atI, isMethod⟩
    obtain ⟨n, atI', rfl⟩ := Option.map_eq_some_iff.mp atI
    exact ⟨(Array.getElem?_eq_some_iff.mp atI').1, by simp [atI', isMethod]⟩

theorem mem_methods {m : Option MethodId} : m ∈ g.methods ↔ ∃ line ∈ g.lines, line.method? = m := by
  simp [methods, SliceGraph.lines, List.mem_eraseDups]

theorem pairwise_nodesOf (g : SliceGraph) (m : Option MethodId) : (g.nodesOf m).Pairwise (· < ·) :=
  List.pairwise_lt_range.filter _

/-- The methods are those that have nodes. -/
theorem mem_methods_iff_nodesOf {m : Option MethodId} : m ∈ g.methods ↔ g.nodesOf m ≠ [] := by
  rw [mem_methods]
  constructor
  · rintro ⟨line, inside, isMethod⟩
    obtain ⟨i, atI⟩ := List.mem_iff_getElem?.mp inside
    exact List.ne_nil_of_mem (mem_nodesOf.mpr ⟨line, atI, isMethod⟩)
  · intro some
    obtain ⟨i, inside⟩ := List.exists_mem_of_ne_nil _ some
    obtain ⟨line, atI, isMethod⟩ := mem_nodesOf.mp inside
    exact ⟨line, List.mem_of_getElem? atI, isMethod⟩

/-- The nodes of the methods are all nodes, each once. -/
theorem perm_flatMap_nodesOf (g : SliceGraph) : (g.methods.flatMap g.nodesOf).Perm g.ids := by
  have distinct : (g.methods.flatMap g.nodesOf).Nodup := by
    refine List.nodup_flatMap.mpr ⟨fun m _ => (pairwise_nodesOf g m).imp Nat.ne_of_lt, ?_⟩
    refine (Graph.nodup_eraseDups _).imp fun other => ?_
    intro i first last
    obtain ⟨line, atI, rfl⟩ := mem_nodesOf.mp first
    obtain ⟨line', atI', rfl⟩ := mem_nodesOf.mp last
    cases atI.symm.trans atI'
    exact other rfl
  refine (List.perm_ext_iff_of_nodup distinct List.nodup_range).mpr fun i => ?_
  simp only [List.mem_flatMap, List.mem_range]
  rw [← length_lines]
  constructor
  · rintro ⟨m, _, inside⟩
    obtain ⟨line, atI, _⟩ := mem_nodesOf.mp inside
    exact (List.getElem?_eq_some_iff.mp atI).1
  · intro bound
    refine ⟨g.lines[i].method?, mem_methods.mpr ⟨_, List.getElem_mem bound, rfl⟩, mem_nodesOf.mpr ?_⟩
    exact ⟨g.lines[i], List.getElem?_eq_getElem bound, rfl⟩

theorem Live.exists_node (live : g.Live id) : ∃ n, g.node? id = some n := by
  have := live.1
  have := live.2
  exact ⟨g.nodes[id.toNat], node?_eq_some_iff.mpr ⟨live.1, Array.getElem?_eq_getElem (by omega)⟩⟩

/-- The node of a line is the one that has it. -/
theorem Sound.lookup_iff {added : List LineId} (sound : g.Sound added) {line : LineId} {i : Nat} :
    g.lookup? line = some i ↔ ∃ n, g.node? i = some n ∧ n.line = line := by
  rw [lookup?_eq_some_iff sound.distinct, getElem?_lines, node?_natCast, Option.map_eq_some_iff]

/-- The lines that have a node are those that were added. -/
theorem Sound.isSome_lookup_iff {added : List LineId} (sound : g.Sound added) {line : LineId} :
    (g.lookup? line).isSome = true ↔ line ∈ added := by
  rw [← sound.lines line, lookup?_eq]
  simp [List.findIdx?_isSome]

end SliceGraph

end SmaliTrace.Slice
