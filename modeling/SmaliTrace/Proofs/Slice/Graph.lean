import SmaliTrace.Slice.Graph

/-!
Slice graphs as lines and predecessor edges: what the operations add to them. Filing edges anew when a
node stops being terminal changes no edge.
-/
namespace SmaliTrace.Slice
open SmaliTrace.Smali (Register)

/-! ### Inbound edges -/

@[simp] theorem mem_insertId {id p : NodeId} {ids : List NodeId} : p ∈ insertId id ids ↔ p = id ∨ p ∈ ids := by
  induction ids with
  | nil => simp [insertId]
  | cons a ids ih =>
    unfold insertId
    split
    · simp
    · split
      · next same => simp [same]
      · simp only [List.mem_cons, ih]
        exact or_left_comm

@[simp] theorem mem_unionIds {p : NodeId} {ids more : List NodeId} :
    p ∈ unionIds ids more ↔ p ∈ ids ∨ p ∈ more := by
  unfold unionIds
  induction more generalizing ids with
  | nil => simp
  | cons a more ih =>
    simp only [List.foldl_cons, ih, mem_insertId, List.mem_cons]
    rw [or_comm (a := p = a), or_assoc]

/-- The node with the id is a predecessor, under some register pair. -/
def Inbound.Has (edges : Inbound) (p : NodeId) : Prop := ∃ edge ∈ edges, p ∈ edge.2

@[simp] theorem has_nil {p : NodeId} : ¬ Inbound.Has [] p := by simp [Inbound.Has]

@[simp] theorem has_cons {p : NodeId} {edge : EdgeKey × List NodeId} {edges : Inbound} :
    Inbound.Has (edge :: edges) p ↔ p ∈ edge.2 ∨ Inbound.Has edges p := by simp [Inbound.Has]

@[simp] theorem has_add {p : NodeId} {edges : Inbound} {key : EdgeKey} {ids : List NodeId} :
    (edges.add key ids).Has p ↔ edges.Has p ∨ p ∈ ids := by
  induction edges with
  | nil => simp [Inbound.add]
  | cons edge edges ih =>
    unfold Inbound.add
    split
    · simp only [has_cons, mem_unionIds]
      exact or_right_comm
    · simp only [has_cons, ih, or_assoc]

theorem has_foldl_add {p : NodeId} {edges more : Inbound} :
    (more.foldl (fun edges (key, ids) => edges.add key ids) edges).Has p ↔ edges.Has p ∨ more.Has p := by
  induction more generalizing edges with
  | nil => simp
  | cons edge more ih => simp only [List.foldl_cons, ih, has_add, has_cons, or_assoc]

theorem Node.mem_preds_iff {n : Node} {p : NodeId} : p ∈ n.preds ↔ n.inbound.Has p := by
  have collected : ∀ (edges : Inbound) (ids : List NodeId),
      p ∈ edges.foldl (fun ids (_, preds) => unionIds ids preds) ids ↔ p ∈ ids ∨ edges.Has p := by
    intro edges
    induction edges with
    | nil => simp
    | cons edge edges ih => intro ids; simp only [List.foldl_cons, ih, mem_unionIds, has_cons, or_assoc]
  simp [Node.preds, collected]

theorem has_movedEdges {register : Register} {edges : Inbound} {p : NodeId} :
    (Node.movedEdges register edges).Has p ↔
      Inbound.Has (edges.filter fun (key, _) => key.source = constSource) p := by
  have moved : ∀ (edges table : Inbound),
      Inbound.Has (edges.foldl (fun (table : Inbound) (key, ids) =>
        if key.source = constSource then table.add ⟨register, key.target⟩ (unionIds [] ids)
        else table) table) p ↔
      table.Has p ∨ Inbound.Has (edges.filter fun (key, _) => key.source = constSource) p := by
    intro edges
    induction edges with
    | nil => simp
    | cons edge edges ih =>
      intro table
      rw [List.foldl_cons, ih]
      by_cases terminal : edge.1.source = constSource
      · simp [terminal, or_assoc]
      · simp [terminal]
  have sorted : ∀ table : Inbound, Inbound.Has (table.mergeSort fun a b => Node.keyLe a.1 b.1) p ↔
      table.Has p := by
    intro table
    simp [Inbound.Has, List.mem_mergeSort]
  rw [Node.movedEdges, sorted, moved]
  simp

@[simp] theorem Node.line_addInbound (n : Node) (self : NodeId) (key : EdgeKey) (pred : Option NodeId) :
    (n.addInbound self key pred).line = n.line := by
  unfold Node.addInbound
  split
  · rfl
  · split <;> rfl

theorem Node.mem_preds_addInbound {n : Node} {self p : NodeId} {key : EdgeKey} {pred : Option NodeId} :
    p ∈ (n.addInbound self key pred).preds ↔ p ∈ n.preds ∨ (pred = some p ∧ p ≠ self) := by
  unfold Node.addInbound
  split
  · simp
  · next q =>
    split
    · next own =>
      simp only [Option.some.injEq]
      constructor
      · exact .inl
      · rintro (old | ⟨rfl, other⟩)
        · exact old
        · exact absurd own other
    · next other =>
      simp only [mem_preds_iff, has_add, List.mem_singleton, Option.some.injEq]
      constructor
      · rintro (old | rfl)
        · exact .inl old
        · exact .inr ⟨rfl, other⟩
      · rintro (old | ⟨rfl, _⟩)
        · exact .inl old
        · exact .inr rfl

@[simp] theorem Node.line_upgrade (n : Node) : n.upgrade.line = n.line := by
  unfold Node.upgrade
  split <;> rfl

theorem Node.mem_preds_upgrade {n : Node} {p : NodeId} : p ∈ n.upgrade.preds ↔ p ∈ n.preds := by
  unfold Node.upgrade
  split
  · rfl
  · rw [mem_preds_iff, mem_preds_iff, has_foldl_add, has_movedEdges]
    simp only [Inbound.Has, List.mem_filter]
    constructor
    · rintro (⟨edge, ⟨inside, _⟩, member⟩ | ⟨edge, ⟨inside, _⟩, member⟩)
      · exact ⟨edge, inside, member⟩
      · exact ⟨edge, inside, member⟩
    · rintro ⟨edge, inside, member⟩
      by_cases terminal : edge.1.source = constSource
      · exact .inr ⟨edge, ⟨inside, by simpa using terminal⟩, member⟩
      · exact .inl ⟨edge, ⟨inside, by simpa using terminal⟩, member⟩

/-! ### Graphs -/

/-- Changing one element changes nothing that the change keeps of every element. -/
theorem map_toList_modify {α β : Type} {f : α → β} {change : α → α} (keeps : ∀ a, f (change a) = f a)
    (xs : Array α) (i : Nat) : (xs.modify i change).toList.map f = xs.toList.map f := by
  apply List.ext_getElem?
  intro j
  simp only [List.getElem?_map, Array.getElem?_toList, Array.getElem?_modify]
  split
  · cases xs[j]? <;> simp [keeps]
  · rfl

namespace SliceGraph

variable {g : SliceGraph}

/-- The lines of the nodes, by id. -/
def lines (g : SliceGraph) : List LineId := g.nodes.toList.map Node.line

theorem lines_modify {id : Nat} {f : Node → Node} (keeps : ∀ n, (f n).line = n.line) :
    (g.modify id f).lines = g.lines :=
  map_toList_modify keeps g.nodes id

@[simp] theorem lines_link (id : NodeId) (pred : Option NodeId) (key : EdgeKey) :
    (g.link id pred key).lines = g.lines := by
  unfold link
  split
  · rfl
  · exact lines_modify (by simp)

theorem lookup?_eq (g : SliceGraph) (line : LineId) : g.lookup? line = g.lines.findIdx? (· = line) := by
  rcases g with ⟨⟨nodes⟩⟩
  simp only [lookup?, lines, List.findIdx?_map, List.findIdx?_toArray]
  rfl

theorem getElem?_lines (g : SliceGraph) (i : Nat) : g.lines[i]? = g.nodes[i]?.map Node.line := by
  simp [SliceGraph.lines]

/-- Where every line has one node, the node of a line is the one with the line. -/
theorem lookup?_eq_some_iff (distinct : g.lines.Nodup) {line : LineId} {i : Nat} :
    g.lookup? line = some i ↔ g.lines[i]? = some line := by
  rw [lookup?_eq, List.findIdx?_eq_some_iff_getElem]
  constructor
  · rintro ⟨bound, same, _⟩
    simpa [bound] using same
  · intro atI
    obtain ⟨bound, same⟩ := List.getElem?_eq_some_iff.mp atI
    refine ⟨bound, by simpa using same, fun j before => ?_⟩
    have other : g.lines[j] ≠ g.lines[i] := List.pairwise_iff_getElem.mp distinct j i (by omega) bound before
    simpa [same] using other

/-- The lines after a line is added, whether it gets a node that paths lead through or a terminal one. -/
theorem lines_addNode_eq (line : LineId) (pred : Option NodeId) (key : EdgeKey) :
    (g.addNode line pred key).1.lines =
      if (g.lines.findIdx? (· = line)).isSome then g.lines else g.lines ++ [line] := by
  unfold addNode
  rw [← lookup?_eq]
  split
  · next id found =>
    rw [lines_modify (by simp)]
    simp [found]
  · next absent => simp [absent, lines]

theorem lines_addConstant_eq (line : LineId) (pred : Option NodeId) (register target : Register) :
    (g.addConstant line pred register target).1.lines =
      if (g.lines.findIdx? (· = line)).isSome then g.lines else g.lines ++ [line] := by
  unfold addConstant
  rw [← lookup?_eq]
  split
  · next id found =>
    rw [lines_modify (by simp)]
    simp [found]
  · next absent => simp [absent, lines]

theorem prefix_and_mem_of_findIdx? (lines : List LineId) (line : LineId) :
    lines <+: (if (lines.findIdx? (· = line)).isSome then lines else lines ++ [line]) ∧
      line ∈ (if (lines.findIdx? (· = line)).isSome then lines else lines ++ [line]) := by
  split
  · next found =>
    obtain ⟨i, isIndex⟩ := Option.isSome_iff_exists.mp found
    obtain ⟨bound, same, _⟩ := List.findIdx?_eq_some_iff_getElem.mp isIndex
    refine ⟨List.prefix_rfl, ?_⟩
    rw [← of_decide_eq_true same]
    exact List.getElem_mem bound
  · exact ⟨List.prefix_append .., by simp⟩

/-- Adding a line keeps the lines that are there, and the line is there afterwards. -/
theorem lines_addNode (line : LineId) (pred : Option NodeId) (key : EdgeKey) :
    g.lines <+: (g.addNode line pred key).1.lines ∧ line ∈ (g.addNode line pred key).1.lines := by
  rw [lines_addNode_eq]
  exact prefix_and_mem_of_findIdx? g.lines line

theorem lines_addConstant (line : LineId) (pred : Option NodeId) (register target : Register) :
    g.lines <+: (g.addConstant line pred register target).1.lines ∧
      line ∈ (g.addConstant line pred register target).1.lines := by
  rw [lines_addConstant_eq]
  exact prefix_and_mem_of_findIdx? g.lines line

/-! ### Predecessors -/

/-- The first id names a node that has the second among its predecessors. -/
def Pred (g : SliceGraph) (id p : Int) : Prop := ∃ n, g.node? id = some n ∧ p ∈ n.preds

/-- The id names a node. -/
def Live (g : SliceGraph) (id : Int) : Prop := 0 ≤ id ∧ id < g.nodes.size

theorem length_lines : g.lines.length = g.nodes.size := by simp [lines]

theorem node?_eq_some_iff {id : Int} {n : Node} :
    g.node? id = some n ↔ 0 ≤ id ∧ g.nodes[id.toNat]? = some n := by
  unfold node?
  split
  · next negative =>
    have : id < 0 := negative
    simp
    omega
  · next natural =>
    have : ¬ id < 0 := natural
    simp
    omega

theorem live_of_pred {id p : Int} (pred : g.Pred id p) : g.Live id := by
  obtain ⟨n, found, _⟩ := pred
  obtain ⟨natural, found⟩ := node?_eq_some_iff.mp found
  have := (Array.getElem?_eq_some_iff.mp found).1
  exact ⟨natural, by omega⟩

/-- Two graphs with the same lines have the same nodes, apart from their edges. -/
theorem live_congr {h : SliceGraph} (same : h.lines = g.lines) {id : Int} : h.Live id ↔ g.Live id := by
  have sizes : h.nodes.size = g.nodes.size := by rw [← length_lines, same, length_lines]
  simp [Live, sizes]

theorem live_of_prefix {h : SliceGraph} (grown : g.lines <+: h.lines) {id : Int} (live : g.Live id) :
    h.Live id := by
  have sizes := grown.length_le
  rw [length_lines, length_lines] at sizes
  obtain ⟨natural, bound⟩ := live
  exact ⟨natural, by omega⟩

/-- Changing a node changes its own predecessors only. -/
theorem pred_modify {i : Nat} {f : Node → Node} {new : Int → Prop}
    (changes : ∀ n p, p ∈ (f n).preds ↔ p ∈ n.preds ∨ new p) {id p : Int} :
    (g.modify i f).Pred id p ↔ g.Pred id p ∨ (id = i ∧ i < g.nodes.size ∧ new p) := by
  simp only [Pred, node?_eq_some_iff, modify, Array.getElem?_modify]
  by_cases here : i = id.toNat
  · subst here
    constructor
    · rintro ⟨_, ⟨natural, found⟩, member⟩
      rw [if_pos rfl] at found
      obtain ⟨n, atId, rfl⟩ := Option.map_eq_some_iff.mp found
      have bound := (Array.getElem?_eq_some_iff.mp atId).1
      rcases (changes n p).mp member with old | fresh
      · exact .inl ⟨n, ⟨natural, atId⟩, old⟩
      · exact .inr ⟨by omega, bound, fresh⟩
    · rintro (⟨n, ⟨natural, found⟩, old⟩ | ⟨same, bound, fresh⟩)
      · exact ⟨f n, ⟨natural, by simp [found]⟩, (changes n p).mpr (.inl old)⟩
      · exact ⟨f g.nodes[id.toNat], ⟨by omega, by simp [bound]⟩, (changes _ p).mpr (.inr fresh)⟩
  · have other : id ≠ (i : Int) := by omega
    simp [here, other]

theorem pred_push {n : Node} {id p : Int} :
    (⟨g.nodes.push n⟩ : SliceGraph).Pred id p ↔ g.Pred id p ∨ (id = g.nodes.size ∧ p ∈ n.preds) := by
  simp only [Pred, node?_eq_some_iff, Array.getElem?_push]
  by_cases here : id.toNat = g.nodes.size
  · have absent : g.nodes[id.toNat]? = none := Array.getElem?_eq_none (by omega)
    simp only [here, if_true, Option.some.injEq]
    rw [← here, absent]
    constructor
    · rintro ⟨_, ⟨natural, rfl⟩, member⟩
      exact .inr ⟨by omega, member⟩
    · rintro (⟨_, ⟨_, found⟩, _⟩ | ⟨same, member⟩)
      · simp at found
      · exact ⟨n, ⟨by omega, rfl⟩, member⟩
  · have other : id ≠ (g.nodes.size : Int) := by omega
    simp [here, other]

/-- The id of a line depends on the lines only. -/
theorem snd_addNode (line : LineId) (pred : Option NodeId) (key : EdgeKey) :
    (g.addNode line pred key).2 = (g.lines.findIdx? (· = line)).getD g.lines.length := by
  unfold addNode
  rw [← lookup?_eq, length_lines]
  split <;> simp_all

theorem snd_addConstant (line : LineId) (pred : Option NodeId) (register target : Register) :
    (g.addConstant line pred register target).2 =
      (g.lines.findIdx? (· = line)).getD g.lines.length := by
  unfold addConstant
  rw [← lookup?_eq, length_lines]
  split <;> simp_all

/-- Adding a line adds one edge, to the node of the line. -/
theorem pred_addNode {line : LineId} {pred : Option NodeId} {key : EdgeKey} {id p : Int} :
    (g.addNode line pred key).1.Pred id p ↔
      g.Pred id p ∨ (id = (g.addNode line pred key).2 ∧ pred = some p ∧ p ≠ id) := by
  unfold addNode
  split
  · next i found =>
    have bound := (Array.findIdx?_eq_some_iff_getElem.mp found).1
    have changes : ∀ (n : Node) (q : Int), q ∈ (n.upgrade.addInbound i key pred).preds ↔
        q ∈ n.preds ∨ (pred = some q ∧ q ≠ i) := fun n q => by
      rw [Node.mem_preds_addInbound, Node.mem_preds_upgrade]
    rw [pred_modify changes]
    refine or_congr_right ⟨?_, ?_⟩
    · rintro ⟨rfl, _, isPred, other⟩
      exact ⟨rfl, isPred, other⟩
    · rintro ⟨rfl, isPred, other⟩
      exact ⟨rfl, bound, isPred, other⟩
  · rw [pred_push]
    refine or_congr_right (and_congr_right fun same => ?_)
    rw [Node.mem_preds_addInbound, ← same]
    simp [Node.preds]

theorem pred_addConstant {line : LineId} {pred : Option NodeId} {register target : Register} {id p : Int} :
    (g.addConstant line pred register target).1.Pred id p ↔
      g.Pred id p ∨ (id = (g.addConstant line pred register target).2 ∧ pred = some p ∧ p ≠ id) := by
  unfold addConstant
  split
  · next i found =>
    have bound := (Array.findIdx?_eq_some_iff_getElem.mp found).1
    rw [pred_modify (fun n q => Node.mem_preds_addInbound)]
    refine or_congr_right ⟨?_, ?_⟩
    · rintro ⟨rfl, _, isPred, other⟩
      exact ⟨rfl, isPred, other⟩
    · rintro ⟨rfl, isPred, other⟩
      exact ⟨rfl, bound, isPred, other⟩
  · rw [pred_push]
    refine or_congr_right (and_congr_right fun same => ?_)
    rw [Node.mem_preds_addInbound, ← same]
    simp [Node.preds]

theorem pred_link {id p n : Int} {pred : Option NodeId} {key : EdgeKey} :
    (g.link id pred key).Pred n p ↔ g.Pred n p ∨ (n = id ∧ g.Live id ∧ pred = some p ∧ p ≠ n) := by
  unfold link
  split
  · next negative =>
    have : id < 0 := negative
    refine ⟨.inl, ?_⟩
    rintro (old | ⟨_, live, _⟩)
    · exact old
    · exact absurd live.1 (by omega)
  · next natural =>
    have natural : ¬ id < 0 := natural
    have same : (id.toNat : Int) = id := by omega
    rw [pred_modify (fun n p => Node.mem_preds_addInbound), same]
    refine or_congr_right ⟨?_, ?_⟩
    · rintro ⟨rfl, bound, isPred, other⟩
      exact ⟨rfl, ⟨by omega, by omega⟩, isPred, other⟩
    · rintro ⟨rfl, live, isPred, other⟩
      exact ⟨rfl, by have := live.2; omega, isPred, other⟩

end SliceGraph

end SmaliTrace.Slice
