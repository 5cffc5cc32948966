import SmaliTrace.Proofs.Slice.Representation
import SmaliTrace.Slice.Tree

/-!
The tables of a slice tree stay in step. Whatever is added to a tree, in whatever order, its arena and its tables hold
what the slice graph of the same changes gives, and no change comes to an entry that is not there. So what is true of the
graph is true of each table: the ids are places, the lines and the methods find their nodes, the lists of register pairs
are the domains of the edge tables, and the check passes.
-/
namespace SmaliTrace.Slice
open SmaliTrace.Smali (Register)

/-! ### Edges as a table -/

namespace Inbound

variable {edges : Inbound} {key : EdgeKey} {ids : List NodeId}

theorem lookup_cons (k key : EdgeKey) (ids : List NodeId) (edges : Inbound) :
    List.lookup k ((key, ids) :: edges) = if k = key then some ids else edges.lookup k := by
  by_cases same : k = key
  · rw [if_pos same, List.lookup_cons, beq_iff_eq.mpr same]
  · rw [if_neg same, List.lookup_cons, beq_eq_false_iff_ne.mpr same]

theorem keys_cons (key : EdgeKey) (ids : List NodeId) (edges : Inbound) :
    keys ((key, ids) :: edges) = key :: edges.keys :=
  rfl

theorem lookup_add (edges : Inbound) (key k : EdgeKey) (ids : List NodeId) : (edges.add key ids).lookup k =
    if k = key then some ((edges.lookup key).elim ids fun known => unionIds known ids) else edges.lookup k := by
  induction edges with
  | nil => exact lookup_cons k key ids []
  | cons edge edges ih =>
    obtain ⟨first, preds⟩ := edge
    unfold add
    by_cases isFirst : first = key
    · subst isFirst
      rw [if_pos rfl, lookup_cons, lookup_cons, lookup_cons, if_pos rfl]
      split <;> rfl
    · rw [if_neg isFirst, lookup_cons, lookup_cons, lookup_cons, ih, if_neg (Ne.symm isFirst)]
      by_cases isKey : k = key
      · rw [if_pos isKey, if_pos isKey, if_neg (isKey ▸ Ne.symm isFirst)]
      · rw [if_neg isKey, if_neg isKey]

theorem mem_keys_iff : key ∈ edges.keys ↔ (edges.lookup key).isSome = true := by
  induction edges with
  | nil => simp [keys]
  | cons edge edges ih =>
    obtain ⟨first, preds⟩ := edge
    rw [lookup_cons]
    by_cases same : key = first
    · simp [keys, same]
    · simp only [keys, List.map_cons, List.mem_cons, same, false_or, if_false]
      exact ih

theorem lookup_of_mem (distinct : edges.keys.Nodup) (inside : (key, ids) ∈ edges) : edges.lookup key = some ids := by
  induction edges with
  | nil => cases inside
  | cons edge edges ih =>
    obtain ⟨first, preds⟩ := edge
    obtain ⟨fresh, distinct⟩ := List.nodup_cons.mp distinct
    rw [lookup_cons]
    rcases List.mem_cons.mp inside with same | later
    · cases same
      rw [if_pos rfl]
    · have other : key ≠ first := fun same => fresh (same ▸ List.mem_map.mpr ⟨_, later, rfl⟩)
      rw [if_neg other, ih distinct later]

theorem mem_of_lookup (found : edges.lookup key = some ids) : (key, ids) ∈ edges := by
  induction edges with
  | nil => cases found
  | cons edge edges ih =>
    obtain ⟨first, preds⟩ := edge
    rw [lookup_cons] at found
    split at found
    · next same =>
      cases found
      exact same ▸ List.mem_cons_self
    · exact List.mem_cons_of_mem _ (ih found)

theorem lookup_filter (P : EdgeKey → Bool) (edges : Inbound) (key : EdgeKey) :
    (edges.filter fun edge => P edge.1).lookup key = if P key then edges.lookup key else none := by
  induction edges with
  | nil => simp
  | cons edge edges ih =>
    obtain ⟨first, preds⟩ := edge
    rw [List.filter_cons, lookup_cons]
    by_cases holds : P first = true
    · rw [if_pos holds, lookup_cons, ih]
      by_cases same : key = first
      · rw [if_pos same, if_pos same, if_pos (same ▸ holds)]
      · rw [if_neg same, if_neg same]
    · rw [if_neg holds, ih]
      by_cases same : key = first
      · rw [if_neg (same ▸ holds), if_neg (same ▸ holds)]
      · rw [if_neg same]

end Inbound

/-! ### Edge tables -/

theorem keyLe_iff {a b : EdgeKey} :
    Node.keyLe a b = true ↔ a.source ≤ b.source ∧ (a.source = b.source → a.target ≤ b.target) := by
  by_cases same : a.source = b.source
  · simp [Node.keyLe, same]
  · simp [Node.keyLe, same]

theorem keyLe_total (a b : EdgeKey) : (Node.keyLe a b || Node.keyLe b a) = true := by
  simp only [Node.keyLe, Bool.or_eq_true]
  by_cases same : a.source = b.source
  · simpa [same] using String.le_total a.target b.target
  · simpa [same, Ne.symm same] using String.le_total a.source b.source

theorem keyLe_antisymm {a b : EdgeKey} (le : Node.keyLe a b = true) (ge : Node.keyLe b a = true) : a = b := by
  obtain ⟨source, target⟩ := keyLe_iff.mp le
  obtain ⟨source', target'⟩ := keyLe_iff.mp ge
  have same := String.le_antisymm source source'
  cases a
  cases b
  cases same
  cases String.le_antisymm (target rfl) (target' rfl)
  rfl

theorem keyLe_trans {a b c : EdgeKey} (first : Node.keyLe a b = true) (second : Node.keyLe b c = true) :
    Node.keyLe a c = true := by
  obtain ⟨source, target⟩ := keyLe_iff.mp first
  obtain ⟨source', target'⟩ := keyLe_iff.mp second
  refine keyLe_iff.mpr ⟨String.le_trans source source', fun same => ?_⟩
  have middle : a.source = b.source := String.le_antisymm source (same ▸ source')
  exact String.le_trans (target middle) (target' (middle ▸ same))

/-- The table has the entries of the edges. -/
def EdgeTable.Holds (table : EdgeTable) (edges : Inbound) : Prop := ∀ key, table.lookup key = edges.lookup key

namespace EdgeTable.Holds

variable {table : EdgeTable} {edges : Inbound} {key : EdgeKey} {ids : List NodeId}

theorem empty : EdgeTable.Holds ∅ [] := fun key => AList.lookup_empty key

theorem mem_iff (holds : table.Holds edges) : key ∈ table ↔ key ∈ edges.keys := by
  rw [← AList.lookup_isSome, holds key, Inbound.mem_keys_iff]

theorem insert (holds : table.Holds edges) {ids' : List NodeId}
    (new : ids' = (edges.lookup key).elim ids fun known => unionIds known ids) :
    EdgeTable.Holds (AList.insert key ids' table) (edges.add key ids) := by
  intro k
  rw [Inbound.lookup_add]
  by_cases same : k = key
  · rw [if_pos same, same, AList.lookup_insert, new]
  · rw [if_neg same, AList.lookup_insert_ne same, holds k]

/-- The register pairs of the table come in the order in which the edges are sorted. -/
theorem sortedKeys_eq (holds : table.Holds edges) (distinct : edges.keys.Nodup) :
    table.sortedKeys = Inbound.keys (edges.mergeSort fun a b => Node.keyLe a.1 b.1) := by
  have same : table.keys.Perm edges.keys :=
    (List.perm_ext_iff_of_nodup table.keys_nodup distinct).mpr fun key => AList.mem_keys.symm.trans holds.mem_iff
  have sorted : ∀ keys : List EdgeKey, (keys.mergeSort Node.keyLe).Pairwise fun a b => Node.keyLe a b = true :=
    List.pairwise_mergeSort (fun _ _ _ => keyLe_trans) keyLe_total
  have mapped : Inbound.keys (edges.mergeSort fun a b => Node.keyLe a.1 b.1) = edges.keys.mergeSort Node.keyLe :=
    List.map_mergeSort fun _ _ _ _ => rfl
  rw [EdgeTable.sortedKeys, mapped]
  refine List.Perm.eq_of_pairwise ?_ (sorted _) (sorted _) ?_
  · exact fun _ _ _ _ => keyLe_antisymm
  · exact (List.mergeSort_perm _ _).trans (same.trans (List.mergeSort_perm _ _).symm)

end EdgeTable.Holds

/-! ### Moving edges -/

theorem pairwise_getD {found : Option (List NodeId)} (sorted : ∀ ids ∈ found, ids.Pairwise (· < ·)) :
    (found.getD []).Pairwise (· < ·) := by
  cases found with
  | none => exact .nil
  | some ids => exact sorted ids rfl

/-- Ids that are united first and those that are added one by one make the same ascending list. -/
theorem unionIds_unionIds_nil {known : List NodeId} (sorted : known.Pairwise (· < ·)) (ids : List NodeId) :
    unionIds known (unionIds [] ids) = unionIds known ids := by
  have first := pairwise_unionIds (unionIds [] ids) sorted
  have second := pairwise_unionIds ids sorted
  refine List.Perm.eq_of_pairwise (fun _ _ _ _ lt gt => ?_) first second ?_
  · exact absurd gt (Int.lt_asymm lt)
  · refine (List.perm_ext_iff_of_nodup (first.imp Int.ne_of_lt) (second.imp Int.ne_of_lt)).mpr fun p => ?_
    simp

/-- Files the edge under the register, if it is under the terminal source. -/
def moveEdge (register : Register) (table : Inbound) (edge : EdgeKey × List NodeId) : Inbound :=
  if edge.1.source = constSource then table.add ⟨register, edge.1.target⟩ (unionIds [] edge.2) else table

theorem movedEdges_eq (register : Register) (edges : Inbound) : Node.movedEdges register edges =
    (edges.foldl (moveEdge register) []).mergeSort fun a b => Node.keyLe a.1 b.1 :=
  rfl

namespace Sorting

/-- What is put aside is ascending. -/
def Ascending (s : Sorting) : Prop := ∀ key, ∀ ids ∈ s.moved.lookup key, ids.Pairwise (· < ·)

/-- An edge under the terminal source is taken off the table and filed under the register. -/
theorem visit_of_terminal (register : Register) {key : EdgeKey} {ids : List NodeId} {aside : Inbound} {s : Sorting}
    (terminal : key.source = constSource) (here : s.inbound.lookup key = some ids) (apart : s.moved.Holds aside)
    (ascending : s.Ascending) :
    ∃ next, visit register s key = some next ∧ next.kept = s.kept ∧ next.inbound = s.inbound.erase key ∧
      next.moved.Holds (aside.add ⟨register, key.target⟩ (unionIds [] ids)) ∧ next.Ascending := by
  let new : EdgeKey := ⟨register, key.target⟩
  refine ⟨{ s with
    moved := s.moved.insert new (unionIds ((s.moved.lookup new).getD []) ids)
    inbound := s.inbound.erase key }, ?_, rfl, rfl, ?_, fun k ids' isFiled => ?_⟩
  · rw [visit, if_neg (not_not_intro terminal), here]
    rfl
  · refine apart.insert ?_
    rw [← apart new]
    cases known : s.moved.lookup new with
    | none => rfl
    | some ids' => exact (unionIds_unionIds_nil (ascending new ids' known) ids).symm
  · by_cases same : k = new
    · rw [same, AList.lookup_insert] at isFiled
      cases isFiled
      exact pairwise_unionIds _ (pairwise_getD (ascending new))
    · rw [AList.lookup_insert_ne same] at isFiled
      exact ascending k ids' isFiled

/-- The pass over the register pairs of a table comes to each entry, and parts those under the terminal source from the
others. -/
theorem foldlM_visit (register : Register) {edges aside : Inbound} {s : Sorting} (distinct : edges.keys.Nodup)
    (found : ∀ edge ∈ edges, s.inbound.lookup edge.1 = some edge.2) (apart : s.moved.Holds aside)
    (ascending : s.Ascending) :
    ∃ s', edges.keys.foldlM (visit register) s = some s' ∧
      s'.kept = s.kept ++ Inbound.keys (edges.filter fun edge => edge.1.source ≠ constSource) ∧
      (∀ key, s'.inbound.lookup key =
        if key.source = constSource ∧ key ∈ edges.keys then none else s.inbound.lookup key) ∧
      s'.moved.Holds (edges.foldl (moveEdge register) aside) := by
  induction edges generalizing s aside with
  | nil => exact ⟨s, rfl, by simp [Inbound.keys], by simp [Inbound.keys], apart⟩
  | cons edge edges ih =>
    obtain ⟨key, ids⟩ := edge
    obtain ⟨fresh, distinct⟩ := List.nodup_cons.mp distinct
    obtain ⟨here, later⟩ := List.forall_mem_cons.mp found
    rw [Inbound.keys_cons, List.foldlM_cons, List.foldl_cons, moveEdge]
    by_cases terminal : key.source = constSource
    · obtain ⟨next, visited, isKept, isInbound, filed, stays⟩ := visit_of_terminal register terminal here apart ascending
      have left : ∀ edge ∈ edges, next.inbound.lookup edge.1 = some edge.2 := by
        intro edge inside
        have other : edge.1 ≠ key := fun same => fresh (same ▸ List.mem_map.mpr ⟨edge, inside, rfl⟩)
        rw [isInbound, AList.lookup_erase_ne other]
        exact later edge inside
      obtain ⟨s', ran, kept, inbound, moved⟩ := ih distinct left filed stays
      refine ⟨s', ?_, ?_, fun k => ?_, ?_⟩
      · rw [visited]
        exact ran
      · simp [kept, isKept, terminal]
      · simp only [inbound, isInbound, List.mem_cons]
        by_cases same : k = key
        · subst same
          simp [terminal]
        · rw [AList.lookup_erase_ne same]
          simp [same]
      · rw [if_pos terminal]
        exact moved
    · obtain ⟨s', ran, kept, inbound, moved⟩ := ih (s := { s with kept := s.kept ++ [key] }) distinct later apart ascending
      refine ⟨s', ?_, ?_, fun k => ?_, ?_⟩
      · rw [visit, if_pos terminal]
        exact ran
      · simp [kept, Inbound.keys, terminal]
      · have other : k.source = constSource → k ≠ key := fun isConst same => terminal (same ▸ isConst)
        simp only [inbound, List.mem_cons]
        by_cases isConst : k.source = constSource
        · simp [other isConst]
        · simp [isConst]
      · rw [if_neg terminal]
        exact moved

end Sorting

theorem nodup_keys_foldl_moveEdge (register : Register) {edges aside : Inbound} (distinct : aside.keys.Nodup) :
    (edges.foldl (moveEdge register) aside).keys.Nodup := by
  induction edges generalizing aside with
  | nil => exact distinct
  | cons edge edges ih =>
    refine ih ?_
    unfold moveEdge
    split
    · exact nodup_keys_add distinct
    · exact distinct

/-! ### Nodes -/

/-- The node of a tree is the node of a graph with the id. -/
structure TreeNode.Mirrors (n : TreeNode) (i : Nat) (m : Node) : Prop where
  id : n.id = i
  line : n.line = m.line
  terminal : m.terminal = if n.terminal then some n.register else none
  keys : n.keys = m.inbound.keys
  table : n.inbound.Holds m.inbound

namespace TreeNode.Mirrors

variable {n : TreeNode} {i : Nat} {m : Node}

theorem isTerminal (mirrors : n.Mirrors i m) : m.isTerminal = n.terminal := by
  rw [Node.isTerminal, mirrors.terminal]
  cases n.terminal <;> rfl

theorem file (mirrors : n.Mirrors i m) (key : EdgeKey) (ids : List NodeId) :
    (n.file key ids).Mirrors i { m with inbound := m.inbound.add key ids } := by
  have known := mirrors.table key
  unfold TreeNode.file
  cases found : n.inbound.lookup key with
  | some preds =>
    rw [found] at known
    have listed : key ∈ m.inbound.keys := Inbound.mem_keys_iff.mpr (by rw [← known]; rfl)
    exact ⟨mirrors.id, mirrors.line, mirrors.terminal, by rw [keys_add, if_pos listed]; exact mirrors.keys,
      mirrors.table.insert (by rw [← known]; rfl)⟩
  | none =>
    rw [found] at known
    have fresh : key ∉ m.inbound.keys := fun listed => by
      rw [Inbound.mem_keys_iff, ← known] at listed
      cases listed
    exact ⟨mirrors.id, mirrors.line, mirrors.terminal,
      by rw [keys_add, if_neg fresh]; exact congrArg (· ++ [key]) mirrors.keys,
      mirrors.table.insert (by rw [← known]; rfl)⟩

theorem addInbound (mirrors : n.Mirrors i m) (key : EdgeKey) {pred : Option NodeId} (isNode : ∀ p ∈ pred, p ≠ noNode) :
    (n.addInbound key (pred.getD noNode)).Mirrors i (m.addInbound i key pred) := by
  unfold TreeNode.addInbound Node.addInbound
  cases pred with
  | none =>
    rw [if_pos (.inl rfl)]
    exact mirrors
  | some p =>
    rw [Option.getD_some, mirrors.id]
    by_cases same : p = i
    · rw [if_pos (.inr same)]
      simpa only [if_pos same] using mirrors
    · rw [if_neg (not_or.mpr ⟨isNode p rfl, same⟩)]
      simpa only [if_neg same] using mirrors.file key [p]

/-- All edges of a table are filed one after another. -/
theorem foldlM_file {table : EdgeTable} {edges : Inbound} (mirrors : n.Mirrors i m)
    (found : ∀ edge ∈ edges, table.lookup edge.1 = some edge.2) :
    ∃ n', edges.keys.foldlM (fun n key => do return n.file key (← table.lookup key)) n = some n' ∧
      n'.Mirrors i { m with inbound := edges.foldl (fun edges (key, ids) => edges.add key ids) m.inbound } := by
  induction edges generalizing n m with
  | nil => exact ⟨n, rfl, mirrors⟩
  | cons edge edges ih =>
    obtain ⟨here, later⟩ := List.forall_mem_cons.mp found
    obtain ⟨n', ran, mirrors'⟩ := ih (mirrors.file edge.1 edge.2) later
    refine ⟨n', ?_, mirrors'⟩
    rw [Inbound.keys, List.map_cons, List.foldlM_cons, here]
    exact ran

theorem upgrade (mirrors : n.Mirrors i m) (distinct : m.inbound.keys.Nodup) (terminal : n.terminal = true) :
    ∃ n', n.upgrade = some n' ∧ n'.Mirrors i m.upgrade := by
  have isTerminal : m.terminal = some n.register := by rw [mirrors.terminal, if_pos terminal]
  obtain ⟨s, visited, kept, inbound, moved⟩ := Sorting.foldlM_visit n.register (s := { inbound := n.inbound }) distinct
    (fun edge inside => (mirrors.table edge.1).trans (Inbound.lookup_of_mem distinct inside)) .empty
    (fun key ids absent => by cases absent)
  -- what is left is listed and filed, and what was put aside is sorted as the edges of the graph are
  have passed : TreeNode.Mirrors { n with terminal := false, inbound := s.inbound, keys := s.kept } i
      { m with terminal := none, inbound := m.inbound.filter fun edge => edge.1.source ≠ constSource } := by
    refine ⟨mirrors.id, mirrors.line, rfl, kept, fun key => ?_⟩
    rw [inbound, Inbound.lookup_filter (fun key => key.source ≠ constSource), mirrors.table key]
    by_cases isConst : key.source = constSource
    · have absent : key ∉ m.inbound.keys → m.inbound.lookup key = none := fun fresh =>
        Option.not_isSome_iff_eq_none.mp fun listed => fresh (Inbound.mem_keys_iff.mpr listed)
      by_cases listed : key ∈ m.inbound.keys
      · simp [isConst, listed]
      · simp [isConst, listed, absent listed]
    · simp [isConst]
  have distinct' : (m.inbound.foldl (moveEdge n.register) []).keys.Nodup := nodup_keys_foldl_moveEdge _ .nil
  have found : ∀ edge ∈ Node.movedEdges n.register m.inbound, s.moved.lookup edge.1 = some edge.2 := by
    intro edge inside
    rw [movedEdges_eq, List.mem_mergeSort] at inside
    exact (moved edge.1).trans (Inbound.lookup_of_mem distinct' inside)
  obtain ⟨n', filed, mirrors'⟩ := passed.foldlM_file found
  refine ⟨n', ?_, ?_⟩
  · rw [TreeNode.upgrade, mirrors.keys, visited]
    rw [movedEdges_eq, ← moved.sortedKeys_eq distinct'] at filed
    exact filed
  · simpa only [Node.upgrade, isTerminal] using mirrors'

theorem mem_preds_iff (mirrors : n.Mirrors i m) (distinct : m.inbound.keys.Nodup) {p : NodeId} :
    p ∈ n.preds ↔ p ∈ m.preds := by
  have collected : ∀ (entries : List (Sigma fun _ : EdgeKey => List NodeId)) (ids : List NodeId),
      p ∈ entries.foldl (fun all edge => unionIds all edge.2) ids ↔ p ∈ ids ∨ ∃ edge ∈ entries, p ∈ edge.2 := by
    intro entries
    induction entries with
    | nil => simp
    | cons edge entries ih => simp [ih, or_assoc]
  rw [TreeNode.preds, collected, Node.mem_preds_iff]
  constructor
  · rintro (absent | ⟨⟨key, ids⟩, filed, inside⟩)
    · cases absent
    · have found := AList.mem_lookup_iff.mpr filed
      rw [mirrors.table key] at found
      exact ⟨(key, ids), Inbound.mem_of_lookup found, inside⟩
  · rintro ⟨⟨key, ids⟩, filed, inside⟩
    have found := (mirrors.table key).trans (Inbound.lookup_of_mem distinct filed)
    exact .inr ⟨⟨key, ids⟩, AList.mem_lookup_iff.mp found, inside⟩

end TreeNode.Mirrors

/-! ### Trees -/

namespace SliceGraph

variable {g h : SliceGraph} {m : Option MethodId}

theorem nodesOf_eq (g : SliceGraph) (m : Option MethodId) : g.nodesOf m =
    (List.range g.lines.length).filter fun id => decide (g.lines[id]?.map LineId.method? = some m) := by
  rw [length_lines, nodesOf, ids]
  refine List.filter_congr fun id _ => ?_
  rw [getElem?_lines, Option.map_map]
  rfl

theorem methods_eq (g : SliceGraph) : g.methods = (g.lines.map LineId.method?).eraseDups := by
  rw [methods, lines, List.map_map]
  rfl

/-- A node that is added last belongs to the method of its line. -/
theorem nodesOf_of_lines_eq_append {line : LineId} (lines : h.lines = g.lines ++ [line]) (m : Option MethodId) :
    h.nodesOf m = if line.method? = m then g.nodesOf m ++ [g.nodes.size] else g.nodesOf m := by
  have before : (List.range g.lines.length).filter
      (fun id => decide ((g.lines ++ [line])[id]?.map LineId.method? = some m)) = g.nodesOf m := by
    rw [nodesOf_eq]
    refine List.filter_congr fun id inside => ?_
    rw [List.getElem?_append_left (List.mem_range.mp inside)]
  rw [nodesOf_eq h, lines, List.length_append, List.length_singleton, List.range_succ, List.filter_append, before,
    List.filter_singleton, List.getElem?_append_right (Nat.le_refl _), Nat.sub_self, length_lines]
  by_cases same : line.method? = m <;> simp [same]

theorem methods_of_lines_eq_append {line : LineId} (lines : h.lines = g.lines ++ [line]) :
    h.methods = if g.nodesOf line.method? = [] then g.methods ++ [line.method?] else g.methods := by
  have known : line.method? ∈ g.lines.map LineId.method? ↔ g.nodesOf line.method? ≠ [] := by
    rw [← mem_methods_iff_nodesOf, methods_eq, List.mem_eraseDups]
  rw [methods_eq h, methods_eq g, lines, List.map_append, List.map_singleton, Graph.eraseDups_concat]
  by_cases none : g.nodesOf line.method? = []
  · rw [if_neg fun inside => known.mp inside none, if_pos none]
  · rw [if_pos (known.mpr none), if_neg none]

end SliceGraph

/-- The arena and the tables of the tree hold what the graph gives. -/
structure SliceTree.Mirrors (t : SliceTree) (g : SliceGraph) : Prop where
  size : t.nodes.size = g.nodes.size
  nodes : ∀ (i : Nat) (n : TreeNode), t.nodes[i]? = some n → ∃ m, g.nodes[i]? = some m ∧ n.Mirrors i m
  byLine : ∀ line, t.byLine.lookup line = (g.lookup? line).map Nat.cast
  methods : t.methods = g.methods
  byMethod : ∀ m, t.byMethod.lookup m = if g.nodesOf m = [] then none else some ((g.nodesOf m).map Nat.cast)
  start : t.start = if g.nodes.size = 0 then noNode else 0

namespace SliceTree.Mirrors

variable {t : SliceTree} {g : SliceGraph}

theorem nodesOf_eq (mirrors : t.Mirrors g) (m : Option MethodId) : t.nodesOf m = (g.nodesOf m).map Nat.cast := by
  rw [SliceTree.nodesOf, mirrors.byMethod]
  by_cases none : g.nodesOf m = [] <;> simp [none]

theorem insert (mirrors : t.Mirrors g) {line : LineId} (fresh : g.lookup? line = none) :
    (t.insert line).Mirrors ⟨g.nodes.push { line := line }⟩ := by
  have lines : SliceGraph.lines ⟨g.nodes.push { line := line }⟩ = g.lines ++ [line] := by simp [SliceGraph.lines]
  constructor
  · simp [SliceTree.insert, mirrors.size]
  · intro i n found
    rw [SliceTree.insert, Array.getElem?_push] at found
    rw [Array.getElem?_push, ← mirrors.size]
    split at found
    · next last =>
      cases found
      exact ⟨_, if_pos last, congrArg Nat.cast last.symm, rfl, rfl, rfl, .empty⟩
    · next earlier =>
      rw [if_neg earlier]
      exact mirrors.nodes i n found
  · intro other
    rw [SliceGraph.lookup?_eq, lines, List.findIdx?_append, ← SliceGraph.lookup?_eq, SliceTree.insert]
    by_cases same : other = line
    · subst same
      simp [AList.lookup_insert, fresh, List.findIdx?_cons, mirrors.size, SliceGraph.length_lines]
    · simp [AList.lookup_insert_ne same, mirrors.byLine, List.findIdx?_cons, Ne.symm same]
  · rw [SliceGraph.methods_of_lines_eq_append lines, SliceTree.insert, mirrors.byMethod, mirrors.methods]
    by_cases none : g.nodesOf line.method? = [] <;> simp [none]
  · intro m
    rw [SliceGraph.nodesOf_of_lines_eq_append lines, SliceTree.insert, mirrors.nodesOf_eq]
    by_cases same : line.method? = m
    · subst same
      simp [AList.lookup_insert, mirrors.size]
    · simp [AList.lookup_insert_ne (Ne.symm same), mirrors.byMethod, same]
  · have start : ¬ (0 : Int) = noNode := by decide
    rw [SliceTree.insert, mirrors.start]
    by_cases empty : g.nodes.size = 0 <;> simp [empty, start, mirrors.size]

theorem node?_natCast (t : SliceTree) (i : Nat) : t.node? i = t.nodes[i]? := by
  rw [SliceTree.node?, if_neg (Int.not_lt.mpr (Int.natCast_nonneg i)), Int.toNat_natCast]

/-- A change of one node that keeps its line changes the node of the graph. -/
theorem change (mirrors : t.Mirrors g) {i : Nat} {m : Node} (isNode : g.nodes[i]? = some m)
    {f : TreeNode → Option TreeNode} {k : Node → Node}
    (same : ∀ n : TreeNode, n.Mirrors i m → ∃ n', f n = some n' ∧ n'.Mirrors i (k m))
    (keeps : ∀ m, (k m).line = m.line) :
    ∃ t', t.change i f = some (t', (i : Int)) ∧ t'.Mirrors (g.modify i k) := by
  have bound : i < t.nodes.size := mirrors.size ▸ (Array.getElem?_eq_some_iff.mp isNode).1
  have found : t.nodes[i]? = some t.nodes[i] := Array.getElem?_eq_getElem bound
  obtain ⟨m', isNode', old⟩ := mirrors.nodes i _ found
  cases isNode.symm.trans isNode'
  obtain ⟨n', changed, new⟩ := same _ old
  have lines : (g.modify i k).lines = g.lines := SliceGraph.lines_modify keeps
  refine ⟨{ t with nodes := t.nodes.setIfInBounds i n' }, ?_, ?_⟩
  · rw [SliceTree.change, node?_natCast, found]
    simp [changed, new.id]
  constructor
  · simp [SliceGraph.modify, mirrors.size]
  · intro j n atJ
    rw [Array.getElem?_setIfInBounds] at atJ
    rw [SliceGraph.modify, Array.getElem?_modify]
    split at atJ
    · next here =>
      cases atJ
      subst here
      exact ⟨k m, by rw [if_pos rfl, isNode]; rfl, new⟩
    · next elsewhere =>
      rw [if_neg elsewhere]
      exact mirrors.nodes j n atJ
  · intro line
    rw [SliceGraph.lookup?_eq, lines, ← SliceGraph.lookup?_eq]
    exact mirrors.byLine line
  · rw [SliceGraph.methods_eq, lines, ← SliceGraph.methods_eq]
    exact mirrors.methods
  · intro m
    rw [SliceGraph.nodesOf_eq, lines, ← SliceGraph.nodesOf_eq]
    exact mirrors.byMethod m
  · simpa [SliceGraph.modify] using mirrors.start

/-- A line without a node gets one, which stands last and is changed at once. -/
theorem insert_change (mirrors : t.Mirrors g) {line : LineId} (fresh : g.lookup? line = none)
    {f : TreeNode → Option TreeNode} {k : Node → Node}
    (same : ∀ n : TreeNode, n.Mirrors g.nodes.size { line := line } →
      ∃ n', f n = some n' ∧ n'.Mirrors g.nodes.size (k { line := line }))
    (keeps : ∀ m, (k m).line = m.line) :
    ∃ t', (t.insert line).change t.nodes.size f = some (t', (g.nodes.size : Int)) ∧
      t'.Mirrors ⟨g.nodes.push (k { line := line })⟩ := by
  have isNode : (SliceGraph.mk (g.nodes.push { line := line })).nodes[g.nodes.size]? = some { line := line } := by simp
  have pushed : SliceGraph.modify ⟨g.nodes.push { line := line }⟩ g.nodes.size k =
      ⟨g.nodes.push (k { line := line })⟩ := by
    refine congrArg SliceGraph.mk (Array.ext_getElem? fun i => ?_)
    rw [Array.getElem?_modify, Array.getElem?_push, Array.getElem?_push]
    by_cases last : i = g.nodes.size
    · simp [last]
    · simp [last, Ne.symm last]
  have result := (mirrors.insert fresh).change isNode same keeps
  rw [mirrors.size]
  rwa [pushed] at result

variable {line : LineId} {key : EdgeKey} {pred : Option NodeId}

theorem exists_node_of_lookup? {i : Nat} (found : g.lookup? line = some i) : ∃ m, g.nodes[i]? = some m := by
  obtain ⟨bound, -⟩ := Array.findIdx?_eq_some_iff_getElem.mp found
  exact ⟨_, Array.getElem?_eq_getElem bound⟩

theorem addNode (mirrors : t.Mirrors g) (distinct : ∀ (i : Nat) m, g.nodes[i]? = some m → m.inbound.keys.Nodup)
    (isNode : ∀ p ∈ pred, p ≠ noNode) (line : LineId) (key : EdgeKey) :
    ∃ t', t.addNode line (pred.getD noNode) key = some (t', ((g.addNode line pred key).2 : Int)) ∧
      t'.Mirrors (g.addNode line pred key).1 := by
  have lead : ∀ (i : Nat) (m : Node), m.inbound.keys.Nodup → ∀ n : TreeNode, n.Mirrors i m → ∃ n',
      (do let n ← if n.terminal then n.upgrade else some n
          return n.addInbound key (pred.getD noNode)) = some n' ∧ n'.Mirrors i (m.upgrade.addInbound i key pred) := by
    intro i m distinct n same
    by_cases terminal : n.terminal = true
    · obtain ⟨n', upgraded, same⟩ := same.upgrade distinct terminal
      exact ⟨_, by rw [if_pos terminal, upgraded]; rfl, same.addInbound key isNode⟩
    · have passed : m.upgrade = m := by
        have notTerminal : m.terminal = none := by rw [same.terminal, if_neg terminal]
        simp [Node.upgrade, notTerminal]
      exact ⟨_, by rw [if_neg terminal]; rfl, passed ▸ same.addInbound key isNode⟩
  have keeps : ∀ (i : Nat) (m : Node), (m.upgrade.addInbound i key pred).line = m.line := by simp
  have byLine := mirrors.byLine line
  unfold SliceTree.addNode SliceGraph.addNode
  cases found : g.lookup? line with
  | some i =>
    rw [SliceTree.lookup?, byLine, found]
    obtain ⟨m, isM⟩ := exists_node_of_lookup? found
    exact mirrors.change isM (lead i m (distinct i m isM)) (keeps i)
  | none =>
    rw [SliceTree.lookup?, byLine, found]
    exact mirrors.insert_change found (lead g.nodes.size { line := line } List.nodup_nil) (keeps _)

theorem addConstant (mirrors : t.Mirrors g) (isNode : ∀ p ∈ pred, p ≠ noNode) (line : LineId)
    (register target : Register) :
    ∃ t', t.addConstant line (pred.getD noNode) register target =
        some (t', ((g.addConstant line pred register target).2 : Int)) ∧
      t'.Mirrors (g.addConstant line pred register target).1 := by
  have byLine := mirrors.byLine line
  unfold SliceTree.addConstant SliceGraph.addConstant
  cases found : g.lookup? line with
  | some i =>
    rw [SliceTree.lookup?, byLine, found]
    obtain ⟨m, isM⟩ := exists_node_of_lookup? found
    refine mirrors.change isM (fun n same => ⟨_, rfl, ?_⟩) (by simp)
    rw [← same.isTerminal]
    exact same.addInbound _ isNode
  | none =>
    rw [SliceTree.lookup?, byLine, found]
    refine mirrors.insert_change (k := fun m => ({ m with terminal := some register } : Node).addInbound g.nodes.size
      ⟨constSource, target⟩ pred) found (fun n same => ⟨_, rfl, ?_⟩) (by simp)
    have terminal : TreeNode.Mirrors { n with terminal := true, register := register } g.nodes.size
        { line := line, terminal := some register } := ⟨same.id, same.line, rfl, same.keys, same.table⟩
    exact terminal.addInbound _ isNode

theorem link (mirrors : t.Mirrors g) (isNode : ∀ p ∈ pred, p ≠ noNode) (id : NodeId) (key : EdgeKey) :
    ∃ t', t.link id (pred.getD noNode) key = some t' ∧ t'.Mirrors (g.link id pred key) := by
  unfold SliceTree.link SliceGraph.link
  by_cases negative : id < 0
  · rw [SliceTree.node?, if_pos negative, if_pos negative]
    exact ⟨t, rfl, mirrors⟩
  · obtain ⟨i, rfl⟩ := Int.eq_ofNat_of_zero_le (Int.not_lt.mp negative)
    rw [node?_natCast, if_neg negative, Int.toNat_natCast]
    cases found : t.nodes[i]? with
    | none =>
      have outside : g.nodes.size ≤ i := mirrors.size ▸ Array.getElem?_eq_none_iff.mp found
      have same : ∀ f, g.modify i f = g := by
        refine fun f => congrArg SliceGraph.mk (Array.ext_getElem? fun j => ?_)
        rw [Array.getElem?_modify]
        split
        · next here => rw [← here, Array.getElem?_eq_none outside, Option.map_none]
        · rfl
      exact ⟨t, rfl, by rwa [same]⟩
    | some n =>
      obtain ⟨m, isM, -⟩ := mirrors.nodes i n found
      let source (terminal : Bool) : EdgeKey := if terminal then { key with source := constSource } else key
      have linked : ∀ n : TreeNode, n.Mirrors i m → ∃ n', some (n.addInbound (source n.terminal) (pred.getD noNode)) =
          some n' ∧ n'.Mirrors i (m.addInbound i (source m.isTerminal) pred) := by
        intro n same
        rw [same.isTerminal]
        exact ⟨_, rfl, same.addInbound _ isNode⟩
      obtain ⟨t', changed, mirrors'⟩ :=
        mirrors.change (k := fun m => m.addInbound i (source m.isTerminal) pred) isM linked (by simp)
      exact ⟨t', congrArg (Option.map Prod.fst) changed, mirrors'⟩

theorem exists_node (mirrors : t.Mirrors g) {id : NodeId} {n : TreeNode} (found : t.node? id = some n) :
    ∃ m, g.node? id = some m ∧ n.Mirrors id.toNat m := by
  rw [SliceTree.node?] at found
  rw [SliceGraph.node?]
  split at found
  · cases found
  · next natural =>
    rw [if_neg natural]
    exact mirrors.nodes _ n found

theorem exists_treeNode (mirrors : t.Mirrors g) {id : NodeId} {m : Node} (found : g.node? id = some m) :
    ∃ n, t.node? id = some n ∧ n.Mirrors id.toNat m := by
  obtain ⟨natural, atId⟩ := SliceGraph.node?_eq_some_iff.mp found
  have bound : id.toNat < t.nodes.size := mirrors.size ▸ (Array.getElem?_eq_some_iff.mp atId).1
  have isNode : t.node? id = some t.nodes[id.toNat] := by
    rw [SliceTree.node?, if_neg (Int.not_lt.mpr natural), Array.getElem?_eq_getElem bound]
  obtain ⟨m', found', same⟩ := mirrors.exists_node isNode
  cases found.symm.trans found'
  exact ⟨_, isNode, same⟩

end SliceTree.Mirrors

/-! ### Sequences of changes -/

/-- The tree after the change. -/
def GraphEdit.change (t : SliceTree) : GraphEdit → Option SliceTree
  | node line pred key => (t.addNode line (pred.getD noNode) key).map Prod.fst
  | constant line pred register target => (t.addConstant line (pred.getD noNode) register target).map Prod.fst
  | link id pred key => t.link id (pred.getD noNode) key

namespace SliceTree

variable {t t' : SliceTree} {g h : SliceGraph} {added : List LineId} {edits later : List GraphEdit}

/-- The id is that of a node. -/
def Live (t : SliceTree) (id : NodeId) : Prop := 0 ≤ id ∧ id < (t.nodes.size : Int)

/-- The predecessor is a node of the tree, and no register has the name of the terminal source. -/
def Allows (t : SliceTree) (e : GraphEdit) : Prop := (∀ p ∈ e.pred?, t.Live p) ∧ e.source ≠ constSource

/-- The tree after a sequence of changes. -/
def edited (t : SliceTree) (edits : List GraphEdit) : Option SliceTree := edits.foldlM GraphEdit.change t

/-- Every change of the sequence is allowed where it is made. -/
def AllAllowed (t : SliceTree) : List GraphEdit → Prop
  | [] => True
  | e :: edits => t.Allows e ∧ ∀ t' ∈ e.change t, AllAllowed t' edits

theorem Mirrors.allows_iff (mirrors : t.Mirrors g) (e : GraphEdit) : t.Allows e ↔ e.Allowed g := by
  rw [Allows, GraphEdit.Allowed]
  simp only [Live, SliceGraph.Live, mirrors.size]

/-- A change of the tree has a result, which holds what the graph holds after the change. -/
theorem Mirrors.apply (mirrors : t.Mirrors g) (sound : g.Sound added) {e : GraphEdit} (allowed : e.Allowed g) :
    ∃ t', e.change t = some t' ∧ t'.Mirrors (e.apply g) := by
  have isNode : ∀ p ∈ e.pred?, p ≠ noNode := by
    rintro p named rfl
    exact absurd (allowed.1 _ named).1 (by decide)
  cases e with
  | node line pred key =>
    obtain ⟨t', added, mirrors'⟩ := mirrors.addNode (fun i m found => (sound.tidy i m found).distinct) isNode line key
    exact ⟨t', congrArg (Option.map Prod.fst) added, mirrors'⟩
  | constant line pred register target =>
    obtain ⟨t', added, mirrors'⟩ := mirrors.addConstant isNode line register target
    exact ⟨t', congrArg (Option.map Prod.fst) added, mirrors'⟩
  | link id pred key => exact mirrors.link isNode id key

theorem Mirrors.allAllowed_iff (mirrors : t.Mirrors g) (sound : g.Sound added) :
    t.AllAllowed edits ↔ g.AllAllowed edits := by
  induction edits generalizing t g added with
  | nil => exact Iff.rfl
  | cons e edits ih =>
    constructor
    · rintro ⟨allows, rest⟩
      have allowed := (mirrors.allows_iff e).mp allows
      obtain ⟨next, changed, mirrors'⟩ := mirrors.apply sound allowed
      exact ⟨allowed, (ih mirrors' (sound.apply allowed)).mp (rest next changed)⟩
    · rintro ⟨allowed, rest⟩
      refine ⟨(mirrors.allows_iff e).mpr allowed, fun t' isNext => ?_⟩
      obtain ⟨next, changed, mirrors'⟩ := mirrors.apply sound allowed
      cases changed.symm.trans isNext
      exact (ih mirrors' (sound.apply allowed)).mpr rest

/-- The tree of a sequence of changes holds what the graph of the sequence holds. -/
theorem Mirrors.edited (mirrors : t.Mirrors g) (sound : g.Sound added) (allowed : g.AllAllowed edits) :
    ∃ t', t.edited edits = some t' ∧ t'.Mirrors (g.edited edits) := by
  induction edits generalizing t g added with
  | nil => exact ⟨t, rfl, mirrors⟩
  | cons e edits ih =>
    obtain ⟨next, changed, mirrors'⟩ := mirrors.apply sound allowed.1
    obtain ⟨t', ran, last⟩ := ih mirrors' (sound.apply allowed.1) allowed.2
    refine ⟨t', ?_, last⟩
    rw [SliceTree.edited, List.foldlM_cons, changed]
    exact ran

theorem mirrors_empty : Mirrors {} {} where
  size := rfl
  nodes i n found := by simp at found
  byLine line := by simp [SliceGraph.lookup?]
  methods := by simp [SliceGraph.methods]
  byMethod m := by simp [SliceGraph.nodesOf, SliceGraph.ids]
  start := rfl

/-! ### What the tables hold -/

/-- A tree that stands for the added lines: a node stands at its id, the table of the lines pairs them with the nodes,
the nodes of the methods are all nodes in ascending order, the first node is the start, and the edge table of every node
has the listed register pairs, each with other nodes under it. -/
structure Represents (added : List LineId) (t : SliceTree) : Prop where
  stored : ∀ (i : Nat) n, t.nodes[i]? = some n → n.id = i
  lookup : ∀ line id, t.lookup? line = some id ↔ ∃ n, t.node? id = some n ∧ n.line = line
  added : ∀ line, (t.lookup? line).isSome = true ↔ line ∈ added
  methods : t.methods.Nodup ∧ ∀ m, m ∈ t.methods ↔ t.nodesOf m ≠ []
  nodesOf : ∀ m, (t.nodesOf m).Pairwise (· < ·) ∧ ∀ id, id ∈ t.nodesOf m ↔ ∃ n, t.node? id = some n ∧ n.line.method? = m
  partition : (t.methods.flatMap t.nodesOf).Perm ((List.range t.nodes.size).map Nat.cast)
  start : t.start = if t.nodes.size = 0 then noNode else 0
  keys : ∀ id n, t.node? id = some n → n.keys.Nodup ∧ ∀ key, key ∈ n.keys ↔ key ∈ n.inbound
  entries : ∀ id n, t.node? id = some n → ∀ key, ∀ ids ∈ n.inbound.lookup key, ids ≠ []
  preds : ∀ id n, t.node? id = some n → ∀ p ∈ n.preds, p ≠ id ∧ ∃ n', t.node? p = some n'
  check : t.check = .ok ()
  sources : ∀ id n, t.node? id = some n → ∀ key ∈ n.keys, key.source = constSource ↔ n.terminal = true

/-- The nodes, their lines and predecessors and the loss of the terminal mark stay. -/
def Keeps (t t' : SliceTree) : Prop := ∀ id n, t.node? id = some n → ∃ n', t'.node? id = some n' ∧
  n'.line = n.line ∧ (∀ p ∈ n.preds, p ∈ n'.preds) ∧ (n.terminal = false → n'.terminal = false)

theorem Mirrors.lookup_iff (mirrors : t.Mirrors g) (sound : g.Sound added) {line : LineId} {id : NodeId} :
    t.lookup? line = some id ↔ ∃ n, t.node? id = some n ∧ n.line = line := by
  have found : t.lookup? line = some id ↔ ∃ i : Nat, g.lookup? line = some i ∧ (i : Int) = id := by
    rw [SliceTree.lookup?, mirrors.byLine, Option.map_eq_some_iff]
  rw [found]
  constructor
  · rintro ⟨i, isNode, rfl⟩
    obtain ⟨m, atI, rfl⟩ := sound.lookup_iff.mp isNode
    obtain ⟨n, isNode, same⟩ := mirrors.exists_treeNode atI
    exact ⟨n, isNode, same.line⟩
  · rintro ⟨n, isNode, rfl⟩
    obtain ⟨m, isNode, same⟩ := mirrors.exists_node isNode
    have natural := (SliceGraph.node?_eq_some_iff.mp isNode).1
    refine ⟨id.toNat, sound.lookup_iff.mpr ⟨m, ?_, same.line.symm⟩, Int.toNat_of_nonneg natural⟩
    rwa [Int.toNat_of_nonneg natural]

theorem Mirrors.mem_nodesOf_iff (mirrors : t.Mirrors g) {m : Option MethodId} {id : NodeId} :
    id ∈ t.nodesOf m ↔ ∃ n, t.node? id = some n ∧ n.line.method? = m := by
  rw [mirrors.nodesOf_eq, List.mem_map]
  constructor
  · rintro ⟨i, inside, rfl⟩
    obtain ⟨line, atI, isMethod⟩ := SliceGraph.mem_nodesOf.mp inside
    rw [SliceGraph.getElem?_lines, ← SliceGraph.node?_natCast] at atI
    obtain ⟨n, isNode, rfl⟩ := Option.map_eq_some_iff.mp atI
    obtain ⟨n', isNode', same⟩ := mirrors.exists_treeNode isNode
    exact ⟨n', isNode', by rw [same.line, isMethod]⟩
  · rintro ⟨n, isNode, isMethod⟩
    obtain ⟨n', isNode', same⟩ := mirrors.exists_node isNode
    obtain ⟨natural, atId⟩ := SliceGraph.node?_eq_some_iff.mp isNode'
    refine ⟨id.toNat, SliceGraph.mem_nodesOf.mpr ⟨n'.line, ?_, by rw [← same.line, isMethod]⟩,
      Int.toNat_of_nonneg natural⟩
    rw [SliceGraph.getElem?_lines, atId]
    rfl

theorem live_of_node? {id : NodeId} {n : TreeNode} (found : t.node? id = some n) : t.Live id := by
  rw [SliceTree.node?] at found
  split at found
  · cases found
  · next natural =>
    have natural := Int.not_lt.mp natural
    exact ⟨natural, (Int.toNat_lt natural).mp (Array.getElem?_eq_some_iff.mp found).1⟩

/-- Each node stands at its id, is the node of its line and has nodes for predecessors, so the check passes. -/
theorem Represents.check_eq_ok (stored : ∀ (i : Nat) n, t.nodes[i]? = some n → n.id = i)
    (lookup : ∀ line id, t.lookup? line = some id ↔ ∃ n, t.node? id = some n ∧ n.line = line)
    (preds : ∀ id n, t.node? id = some n → ∀ p ∈ n.preds, p ≠ id ∧ ∃ n', t.node? p = some n') : t.check = .ok () := by
  refine SliceGraph.forM_eq_ok_iff.mpr fun (n, place) inside => ?_
  have atPlace : t.nodes[place]? = some n := by
    simpa [List.mem_zipIdx_iff_getElem?] using inside
  have isNode : t.node? place = some n := (Mirrors.node?_natCast t place).trans atPlace
  have found : t.lookup? n.line = some (place : Int) := (lookup _ _).mpr ⟨n, isNode, rfl⟩
  have live : n.preds.find? (fun p => p < 0 || (t.nodes.size : Int) ≤ p) = none := by
    refine List.find?_eq_none.mpr fun p isPred => ?_
    obtain ⟨-, n', atP⟩ := preds place n isNode p isPred
    obtain ⟨natural, bound⟩ := live_of_node? atP
    simpa using ⟨natural, bound⟩
  simp [checkNode, stored place n atPlace, found, live]

theorem Mirrors.represents (mirrors : t.Mirrors g) (sound : g.Sound added) : t.Represents added := by
  have tidy : ∀ {id : NodeId} {m : Node}, g.node? id = some m → m.Tidy := fun found =>
    sound.tidy _ _ (SliceGraph.node?_eq_some_iff.mp found).2
  have stored : ∀ (i : Nat) n, t.nodes[i]? = some n → n.id = i := by
    intro i n found
    obtain ⟨m, -, same⟩ := mirrors.nodes i n found
    exact same.id
  have lookup : ∀ line id, t.lookup? line = some id ↔ ∃ n, t.node? id = some n ∧ n.line = line :=
    fun _ _ => mirrors.lookup_iff sound
  have preds : ∀ id n, t.node? id = some n → ∀ p ∈ n.preds, p ≠ id ∧ ∃ n', t.node? p = some n' := by
    intro id n found p isPred
    obtain ⟨m, isNode, same⟩ := mirrors.exists_node found
    obtain ⟨other, live⟩ := sound.preds id p ⟨m, isNode, (same.mem_preds_iff (tidy isNode).distinct).mp isPred⟩
    obtain ⟨m', isNode'⟩ := live.exists_node
    obtain ⟨n', found', -⟩ := mirrors.exists_treeNode isNode'
    exact ⟨other, n', found'⟩
  exact {
    stored := stored
    lookup := lookup
    added := fun line => by
      rw [SliceTree.lookup?, mirrors.byLine, Option.isSome_map]
      exact sound.isSome_lookup_iff
    methods := by
      refine ⟨mirrors.methods ▸ Graph.nodup_eraseDups _, fun m => ?_⟩
      rw [mirrors.methods, mirrors.nodesOf_eq, SliceGraph.mem_methods_iff_nodesOf, Ne, Ne, List.map_eq_nil_iff]
    nodesOf := by
      refine fun m => ⟨?_, fun id => mirrors.mem_nodesOf_iff⟩
      rw [mirrors.nodesOf_eq, List.pairwise_map]
      exact (SliceGraph.pairwise_nodesOf g m).imp Int.ofNat_lt.mpr
    partition := by
      have nodes : t.nodesOf = fun m => (g.nodesOf m).map Nat.cast := funext mirrors.nodesOf_eq
      rw [mirrors.methods, nodes, mirrors.size, ← List.map_flatMap]
      exact (SliceGraph.perm_flatMap_nodesOf g).map _
    start := by
      rw [mirrors.start, mirrors.size]
    keys := by
      intro id n found
      obtain ⟨m, isNode, same⟩ := mirrors.exists_node found
      exact ⟨same.keys ▸ (tidy isNode).distinct, fun key => by rw [same.keys, same.table.mem_iff]⟩
    entries := by
      intro id n found key ids isEntry
      obtain ⟨m, isNode, same⟩ := mirrors.exists_node found
      exact ((tidy isNode).filed _ (Inbound.mem_of_lookup ((same.table key).symm.trans isEntry))).2
    preds := preds
    check := Represents.check_eq_ok stored lookup preds
    sources := by
      intro id n found key listed
      obtain ⟨m, isNode, same⟩ := mirrors.exists_node found
      rw [same.keys] at listed
      obtain ⟨edge, isEdge, rfl⟩ := List.mem_map.mp listed
      rw [← same.isTerminal]
      exact ((tidy isNode).filed edge isEdge).1 }

theorem Mirrors.keeps (mirrors : t.Mirrors g) (mirrors' : t'.Mirrors h) (sound : g.Sound added) {added' : List LineId}
    (sound' : h.Sound added') (kept : SliceGraph.Keeps g h) : t.Keeps t' := by
  intro id n found
  obtain ⟨m, isNode, same⟩ := mirrors.exists_node found
  obtain ⟨m', isNode'⟩ := SliceGraph.node?_of_prefix kept.lines isNode
  obtain ⟨n', found', same'⟩ := mirrors'.exists_treeNode isNode'
  obtain ⟨-, atId⟩ := SliceGraph.node?_eq_some_iff.mp isNode
  obtain ⟨-, atId'⟩ := SliceGraph.node?_eq_some_iff.mp isNode'
  refine ⟨n', found', ?_, fun p isPred => ?_, fun passed => ?_⟩
  · obtain ⟨more, isMore⟩ := kept.lines
    have bound : id.toNat < g.lines.length := by
      rw [SliceGraph.length_lines]
      exact (Array.getElem?_eq_some_iff.mp atId).1
    have atLine := SliceGraph.getElem?_lines h id.toNat
    rw [← isMore, List.getElem?_append_left bound, SliceGraph.getElem?_lines, atId, atId'] at atLine
    rw [same.line, same'.line]
    exact (Option.some.inj atLine).symm
  · rw [same.mem_preds_iff (sound.tidy _ _ atId).distinct] at isPred
    rw [same'.mem_preds_iff (sound'.tidy _ _ atId').distinct]
    obtain ⟨m'', isNode'', isPred⟩ := kept.preds id p ⟨m, isNode, isPred⟩
    cases isNode'.symm.trans isNode''
    exact isPred
  · rw [← same'.isTerminal]
    exact kept.passed id m m' isNode isNode' (same.isTerminal.trans passed)

/-- Every sequence of changes that names nodes of the tree for predecessors, and no register by the terminal source, has
a result: a tree that stands for the lines that were added. What is added later takes away no node and no predecessor,
and makes no node terminal that paths lead through. -/
theorem stands_for_edits (edits later : List GraphEdit) (allowed : AllAllowed {} (edits ++ later)) :
    ∃ t t', edited {} edits = some t ∧ edited {} (edits ++ later) = some t' ∧
      t.Represents (edits.filterMap GraphEdit.line?) ∧ t.Keeps t' := by
  have start := SliceGraph.sound_empty
  have allowed := (mirrors_empty.allAllowed_iff start).mp allowed
  obtain ⟨first, last⟩ := SliceGraph.allAllowed_append.mp allowed
  obtain ⟨sound, -⟩ := start.edited first
  obtain ⟨sound', kept⟩ := sound.edited last
  obtain ⟨t, ran, mirrors⟩ := mirrors_empty.edited start first
  obtain ⟨t', ran', mirrors'⟩ := mirrors.edited sound last
  refine ⟨t, t', ran, ?_, mirrors.represents sound, mirrors.keeps mirrors' sound sound' kept⟩
  rw [edited, List.foldlM_append]
  exact (congrArg (· >>= _) ran).trans ran'

/-- A call and a constant that reaches it, in two registers. -/
def constantReached : List GraphEdit := [
  .node (.body ⟨0, 0⟩ 2) none ⟨"v1", "v1"⟩,
  .constant (.body ⟨0, 0⟩ 0) (some 0) "v0" "v1",
  .constant (.body ⟨0, 0⟩ 0) (some 0) "v0" "v2"]

/-- A path that leads through the line of the constant. -/
def constantPassed : List GraphEdit := [
  .node (.body ⟨0, 0⟩ 1) (some 0) ⟨"v0", "v1"⟩,
  .node (.body ⟨0, 0⟩ 0) (some 2) ⟨"v0", "v2"⟩,
  .link 1 (some 2) ⟨"v0", "v1"⟩]

/-- The constant was terminal and is not any more, and its edges are filed under its register. -/
theorem constantPassed_stands :
    AllAllowed {} (constantReached ++ constantPassed) ∧
      ((edited {} constantReached).bind fun t => t.node? 1).map
          (fun n => (n.terminal, n.keys.map fun key => (key, n.inbound.lookup key))) =
        some (true, [(⟨"const", "v1"⟩, some [0]), (⟨"const", "v2"⟩, some [0])]) ∧
      ((edited {} (constantReached ++ constantPassed)).bind fun t => t.node? 1).map
          (fun n => (n.terminal, n.keys.map fun key => (key, n.inbound.lookup key))) =
        some (false, [(⟨"v0", "v1"⟩, some [0, 2]), (⟨"v0", "v2"⟩, some [0, 2])]) ∧
      ∃ t t', edited {} constantReached = some t ∧
        edited {} (constantReached ++ constantPassed) = some t' ∧
        t.Represents (constantReached.filterMap GraphEdit.line?) ∧ t.Keeps t' := by
  have allowed : AllAllowed {} (constantReached ++ constantPassed) :=
    (mirrors_empty.allAllowed_iff SliceGraph.sound_empty).mpr (by decide +kernel)
  exact ⟨allowed, by decide +kernel, by cbv, stands_for_edits _ _ allowed⟩

end SliceTree

end SmaliTrace.Slice
