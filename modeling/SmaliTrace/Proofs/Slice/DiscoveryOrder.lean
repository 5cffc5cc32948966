import SmaliTrace.Proofs.Slice.Representation

/-!
Slice graphs up to the ids of their nodes. The order in which lines are discovered decides the ids and the
registers that edges are filed under, and nothing else: the lines, which line precedes which and which lines end
paths are those of the calls, as a set.
-/
namespace SmaliTrace.Slice
open SmaliTrace.Smali (Register)

/-- A call that adds a line to a slice graph. The predecessor is given by its line. -/
inductive Addition where
  | node (line : LineId) (pred : Option LineId) (key : EdgeKey)
  | constant (line : LineId) (pred : Option LineId) (register target : Register)
deriving DecidableEq, Repr

namespace Addition

/-- The line that the call adds. -/
def line : Addition → LineId
  | node line _ _ | constant line _ _ _ => line

/-- The line of the predecessor. -/
def pred? : Addition → Option LineId
  | node _ pred _ | constant _ pred _ _ => pred

/-- The call adds the line as the origin of a value. -/
def isConstant : Addition → Bool
  | node .. => false
  | constant .. => true

/-- The change that the call makes to a graph: the predecessor is the node of its line. -/
def edit (g : SliceGraph) : Addition → GraphEdit
  | node line pred key => .node line ((pred.bind g.lookup?).map Int.ofNat) key
  | constant line pred register target => .constant line ((pred.bind g.lookup?).map Int.ofNat) register target

/-- The graph after the call. -/
def apply (g : SliceGraph) (a : Addition) : SliceGraph := (a.edit g).apply g

/-- Every call names a predecessor whose line was added before. -/
def Ordered (known : List LineId) : List Addition → Prop
  | [] => True
  | a :: calls => (∀ p ∈ a.pred?, p ∈ known) ∧ Ordered (known ++ [a.line]) calls

instance decidableOrdered : (known : List LineId) → (calls : List Addition) → Decidable (Ordered known calls)
  | _, [] => inferInstanceAs (Decidable True)
  | known, a :: calls =>
    have := decidableOrdered (known ++ [a.line]) calls
    inferInstanceAs (Decidable ((∀ p ∈ a.pred?, p ∈ known) ∧ Ordered (known ++ [a.line]) calls))

/-- Some call adds the line, and every call that does adds it as a constant. -/
def OnlyConstant (calls : List Addition) (line : LineId) : Prop :=
  (∃ a ∈ calls, a.line = line) ∧ ∀ a ∈ calls, a.line = line → a.isConstant = true

variable {calls : List Addition} {a : Addition} {line : LineId}

theorem onlyConstant_append_node (kind : a.isConstant = false) :
    OnlyConstant (calls ++ [a]) line ↔ OnlyConstant calls line ∧ line ≠ a.line := by
  simp only [OnlyConstant, List.mem_append, List.mem_singleton]
  constructor
  · rintro ⟨⟨b, inside, isLine⟩, all⟩
    have other : a.line ≠ line := by
      intro same
      have constant := all a (.inr rfl) same
      simp [kind] at constant
    rcases inside with inside | rfl
    · exact ⟨⟨⟨b, inside, isLine⟩, fun c isCall => all c (.inl isCall)⟩, Ne.symm other⟩
    · exact absurd isLine other
  · rintro ⟨⟨⟨b, inside, isLine⟩, all⟩, other⟩
    refine ⟨⟨b, .inl inside, isLine⟩, ?_⟩
    rintro c (isCall | rfl) isLine'
    · exact all c isCall isLine'
    · exact absurd isLine'.symm other

theorem onlyConstant_append_constant (kind : a.isConstant = true) :
    OnlyConstant (calls ++ [a]) line ↔
      OnlyConstant calls line ∨ (line = a.line ∧ ¬ ∃ b ∈ calls, b.line = a.line) := by
  simp only [OnlyConstant, List.mem_append, List.mem_singleton]
  constructor
  · rintro ⟨⟨b, inside, isLine⟩, all⟩
    have earlier : ∀ c ∈ calls, c.line = line → c.isConstant = true := fun c isCall => all c (.inl isCall)
    by_cases old : ∃ c ∈ calls, c.line = line
    · exact .inl ⟨old, earlier⟩
    · rcases inside with inside | rfl
      · exact absurd ⟨b, inside, isLine⟩ old
      · exact .inr ⟨isLine.symm, isLine ▸ old⟩
  · rintro (⟨⟨b, inside, isLine⟩, all⟩ | ⟨rfl, fresh⟩)
    · refine ⟨⟨b, .inl inside, isLine⟩, ?_⟩
      rintro c (isCall | rfl) isLine'
      · exact all c isCall isLine'
      · exact kind
    · refine ⟨⟨a, .inr rfl, rfl⟩, ?_⟩
      rintro c (isCall | rfl) isLine'
      · exact absurd ⟨c, isCall, isLine'⟩ fresh
      · exact kind

end Addition

namespace SliceGraph
open Addition (OnlyConstant onlyConstant_append_node onlyConstant_append_constant)

variable {g : SliceGraph} {a : Addition} {line before : LineId}

/-- The graph after a sequence of calls. -/
def extended (g : SliceGraph) (calls : List Addition) : SliceGraph := calls.foldl Addition.apply g

/-- A node of the second line has a node of the first among its predecessors. -/
def Precedes (g : SliceGraph) (before line : LineId) : Prop :=
  ∃ i j : Nat, g.Pred i j ∧ g.lines[i]? = some line ∧ g.lines[j]? = some before

/-- The line has a terminal node. -/
def Ends (g : SliceGraph) (line : LineId) : Prop :=
  ∃ (i : Nat) (n : Node), g.nodes[i]? = some n ∧ n.line = line ∧ n.isTerminal = true

theorem mem_lines_of_ends (ends : g.Ends line) : line ∈ g.lines := by
  obtain ⟨i, n, found, rfl, _⟩ := ends
  exact List.mem_of_getElem? (i := i) (by simp [getElem?_lines, found])

/-! ### The node of a line -/

theorem lookup?_eq_none_iff : g.lookup? line = none ↔ line ∉ g.lines := by
  rw [lookup?_eq, List.findIdx?_eq_none_iff]
  constructor
  · intro others member
    simpa using others line member
  · intro fresh other member
    have differs : other ≠ line := fun same => fresh (same ▸ member)
    simpa using differs

theorem exists_lookup?_iff : (∃ i, g.lookup? line = some i) ↔ line ∈ g.lines := by
  rw [← Option.isSome_iff_exists, Option.isSome_iff_ne_none, ne_eq, lookup?_eq_none_iff, not_not]

/-- The id of a line in the graph that the line is added to. -/
def idOf (g : SliceGraph) (line : LineId) : Nat := (g.lines.findIdx? (· = line)).getD g.lines.length

theorem lines_extend (a : Addition) :
    (a.apply g).lines = if a.line ∈ g.lines then g.lines else g.lines ++ [a.line] := by
  cases a <;> exact lines_apply g _

theorem prefix_extend (a : Addition) : g.lines <+: (a.apply g).lines := lines_subset_apply g _

theorem nodup_lines_extend (distinct : g.lines.Nodup) : (a.apply g).lines.Nodup := by
  rw [lines_extend]
  split
  · exact distinct
  · next fresh =>
    rw [← List.concat_eq_append]
    exact distinct.concat fresh

theorem getElem?_lines_extend (a : Addition) : (a.apply g).lines[g.idOf a.line]? = some a.line := by
  rw [lines_extend, idOf]
  cases found : g.lines.findIdx? (· = a.line) with
  | some i =>
    obtain ⟨bound, same, _⟩ := List.findIdx?_eq_some_iff_getElem.mp found
    have atI : g.lines[i] = a.line := by simpa using same
    have member : a.line ∈ g.lines := atI ▸ List.getElem_mem bound
    simp [member, bound, atI]
  | none =>
    have fresh : a.line ∉ g.lines := lookup?_eq_none_iff.mp ((lookup?_eq g a.line).trans found)
    simp [fresh]

/-- The only new edge leads from the predecessor to the node of the line. -/
theorem pred_extend {id p : Int} :
    (a.apply g).Pred id p ↔
      g.Pred id p ∨
        (id = g.idOf a.line ∧ (∃ q ∈ a.pred?, ∃ j, g.lookup? q = some j ∧ p = (j : Int)) ∧ p ≠ id) := by
  have named : ∀ pred : Option LineId, (pred.bind g.lookup?).map Int.ofNat = some p ↔
      ∃ q ∈ pred, ∃ j, g.lookup? q = some j ∧ p = (j : Int) := by
    intro pred
    simp only [Option.map_eq_some_iff, Option.bind_eq_some_iff, Option.mem_def]
    constructor
    · rintro ⟨j, ⟨q, named, found⟩, rfl⟩
      exact ⟨q, named, j, found, rfl⟩
    · rintro ⟨q, named, j, found, rfl⟩
      exact ⟨j, ⟨q, named, found⟩, rfl⟩
  cases a with
  | node line pred key =>
    refine pred_addNode.trans (or_congr_right ?_)
    rw [snd_addNode, named]
    rfl
  | constant line pred register target =>
    refine pred_addConstant.trans (or_congr_right ?_)
    rw [snd_addConstant, named]
    rfl

/-! ### Terminal lines -/

theorem ends_push {n : Node} :
    (⟨g.nodes.push n⟩ : SliceGraph).Ends line ↔ g.Ends line ∨ (n.line = line ∧ n.isTerminal = true) := by
  constructor
  · rintro ⟨i, m, found, isLine, terminal⟩
    rcases push_cases found with old | ⟨_, rfl⟩
    · exact .inl ⟨i, m, old, isLine, terminal⟩
    · exact .inr ⟨isLine, terminal⟩
  · rintro (⟨i, m, found, isLine, terminal⟩ | ⟨isLine, terminal⟩)
    · have bound := (Array.getElem?_eq_some_iff.mp found).1
      exact ⟨i, m, by simp [Array.getElem?_push, found, Nat.ne_of_lt bound], isLine, terminal⟩
    · exact ⟨g.nodes.size, n, by simp, isLine, terminal⟩

theorem ends_modify {k : Nat} {f : Node → Node} (keeps : ∀ n, (f n).line = n.line) :
    (g.modify k f).Ends line ↔
      ∃ (i : Nat) (n : Node), g.nodes[i]? = some n ∧ n.line = line ∧
        (if k = i then f n else n).isTerminal = true := by
  simp only [Ends, modify, Array.getElem?_modify]
  constructor
  · rintro ⟨i, m, found, isLine, terminal⟩
    split at found
    · next here =>
      obtain ⟨n, atI, rfl⟩ := Option.map_eq_some_iff.mp found
      exact ⟨i, n, atI, (keeps n).symm.trans isLine, by simpa [here] using terminal⟩
    · next other => exact ⟨i, m, found, isLine, by simpa [other] using terminal⟩
  · rintro ⟨i, n, found, isLine, terminal⟩
    by_cases here : k = i
    · exact ⟨i, f n, by simp [here, found], (keeps n).trans isLine, by simpa [here] using terminal⟩
    · exact ⟨i, n, by simp [here, found], isLine, by simpa [here] using terminal⟩

/-- A node on a line ends its part in the terminal lines. -/
theorem ends_addNode (distinct : g.lines.Nodup) {new : LineId} {pred : Option NodeId} {key : EdgeKey} :
    (g.addNode new pred key).1.Ends line ↔ g.Ends line ∧ line ≠ new := by
  unfold addNode
  split
  · next k found =>
    have atK := (lookup?_eq_some_iff distinct).mp found
    rw [ends_modify (by simp)]
    constructor
    · rintro ⟨i, n, atI, isLine, terminal⟩
      split at terminal
      · simp [Node.isTerminal, Node.terminal_upgrade] at terminal
      · next other =>
        refine ⟨⟨i, n, atI, isLine, terminal⟩, ?_⟩
        rintro rfl
        have same : g.lookup? line = some i :=
          (lookup?_eq_some_iff distinct).mpr (by simp [getElem?_lines, atI, isLine])
        exact other (Option.some.inj (found.symm.trans same))
    · rintro ⟨⟨i, n, atI, isLine, terminal⟩, other⟩
      have elsewhere : k ≠ i := by
        rintro rfl
        rw [getElem?_lines, atI] at atK
        exact other (isLine.symm.trans (Option.some.inj atK))
      exact ⟨i, n, atI, isLine, by simpa [elsewhere] using terminal⟩
  · next absent =>
    have fresh : new ∉ g.lines := lookup?_eq_none_iff.mp absent
    rw [ends_push]
    constructor
    · rintro (old | ⟨_, terminal⟩)
      · refine ⟨old, ?_⟩
        rintro rfl
        exact fresh (mem_lines_of_ends old)
      · simp [Node.isTerminal] at terminal
    · exact fun old => .inl old.1

/-- A constant makes its line terminal only if the line is new. -/
theorem ends_addConstant {new : LineId} {pred : Option NodeId} {register target : Register} :
    (g.addConstant new pred register target).1.Ends line ↔ g.Ends line ∨ (line = new ∧ new ∉ g.lines) := by
  unfold addConstant
  split
  · next k found =>
    have member : new ∈ g.lines := exists_lookup?_iff.mp ⟨k, found⟩
    rw [ends_modify (by simp)]
    simp only [member, not_true_eq_false, and_false, or_false]
    constructor
    · rintro ⟨i, n, atI, isLine, terminal⟩
      refine ⟨i, n, atI, isLine, ?_⟩
      split at terminal <;> simpa [Node.isTerminal] using terminal
    · rintro ⟨i, n, atI, isLine, terminal⟩
      refine ⟨i, n, atI, isLine, ?_⟩
      split <;> simpa [Node.isTerminal] using terminal
  · next absent =>
    have fresh : new ∉ g.lines := lookup?_eq_none_iff.mp absent
    rw [ends_push]
    simp [fresh, Node.isTerminal, eq_comm]

/-! ### The invariant -/

/-- What a graph has in common with all graphs of the same calls. -/
structure Tells (calls : List Addition) (g : SliceGraph) : Prop where
  distinct : g.lines.Nodup
  live : ∀ id p, g.Pred id p → g.Live p
  lines : ∀ line, line ∈ g.lines ↔ ∃ a ∈ calls, a.line = line
  precedes : ∀ before line, g.Precedes before line ↔
    before ≠ line ∧ ∃ a ∈ calls, a.line = line ∧ a.pred? = some before
  ends : ∀ line, g.Ends line ↔ OnlyConstant calls line

theorem getElem?_extend_of_lt (a : Addition) {i : Nat} (bound : i < g.lines.length) :
    (a.apply g).lines[i]? = g.lines[i]? := by
  rw [List.prefix_iff_getElem?.mp (prefix_extend a) i bound, List.getElem?_eq_getElem bound]

theorem precedes_extend (distinct : g.lines.Nodup) (live : ∀ id p, g.Pred id p → g.Live p)
    (known : ∀ p ∈ a.pred?, p ∈ g.lines) :
    (a.apply g).Precedes before line ↔
      g.Precedes before line ∨ (before ≠ line ∧ a.line = line ∧ a.pred? = some before) := by
  have here := getElem?_lines_extend (g := g) a
  have bound_of_live : ∀ {i : Nat}, g.Live i → i < g.lines.length := by
    intro i isLive
    have := isLive.2
    rw [length_lines]
    omega
  constructor
  · rintro ⟨i, j, pred, atI, atJ⟩
    rcases pred_extend.mp pred with old | ⟨isNew, ⟨q, isPred, k, found, isFound⟩, other⟩
    · rw [getElem?_extend_of_lt a (bound_of_live (live_of_pred old))] at atI
      rw [getElem?_extend_of_lt a (bound_of_live (live _ _ old))] at atJ
      exact .inl ⟨i, j, old, atI, atJ⟩
    · obtain rfl : i = g.idOf a.line := Int.ofNat.inj isNew
      obtain rfl : j = k := Int.ofNat.inj isFound
      obtain rfl : a.line = line := Option.some.inj (here.symm.trans atI)
      have atJ' := (lookup?_eq_some_iff distinct).mp found
      have bound := (List.getElem?_eq_some_iff.mp atJ').1
      rw [getElem?_extend_of_lt a bound, atJ'] at atJ
      obtain rfl : q = before := Option.some.inj atJ
      refine .inr ⟨?_, rfl, isPred⟩
      -- the node of the line would be its own predecessor
      rintro rfl
      have same : g.idOf a.line = j := by simp [idOf, ← lookup?_eq, found]
      exact other (congrArg Int.ofNat same.symm)
  · rintro (⟨i, j, old, atI, atJ⟩ | ⟨differs, rfl, isPred⟩)
    · have boundI := (List.getElem?_eq_some_iff.mp atI).1
      have boundJ := (List.getElem?_eq_some_iff.mp atJ).1
      refine ⟨i, j, pred_extend.mpr (.inl old), ?_, ?_⟩
      · rw [getElem?_extend_of_lt a boundI, atI]
      · rw [getElem?_extend_of_lt a boundJ, atJ]
    · obtain ⟨j, found⟩ := exists_lookup?_iff.mpr (known before isPred)
      have atJ := (lookup?_eq_some_iff distinct).mp found
      have atJ' : (a.apply g).lines[j]? = some before := by
        rw [getElem?_extend_of_lt a (List.getElem?_eq_some_iff.mp atJ).1, atJ]
      have other : (j : Int) ≠ g.idOf a.line := by
        intro same
        obtain rfl : j = g.idOf a.line := Int.ofNat.inj same
        exact differs (Option.some.inj (atJ'.symm.trans here))
      have pred : (a.apply g).Pred (g.idOf a.line) j :=
        pred_extend.mpr (.inr ⟨rfl, ⟨before, isPred, j, found, rfl⟩, other⟩)
      exact ⟨g.idOf a.line, j, pred, here, atJ'⟩

theorem ends_extend (distinct : g.lines.Nodup) :
    (a.apply g).Ends line ↔
      if a.isConstant then g.Ends line ∨ (line = a.line ∧ a.line ∉ g.lines)
      else g.Ends line ∧ line ≠ a.line := by
  cases a with
  | node new pred key => exact ends_addNode distinct
  | constant new pred register target => exact ends_addConstant

theorem Tells.extend {calls : List Addition} (tells : g.Tells calls) (known : ∀ p ∈ a.pred?, p ∈ g.lines) :
    (a.apply g).Tells (calls ++ [a]) where
  distinct := nodup_lines_extend tells.distinct
  live id p pred := by
    rcases pred_extend.mp pred with old | ⟨_, ⟨q, _, j, found, rfl⟩, _⟩
    · exact live_of_prefix (prefix_extend a) (tells.live id p old)
    · have bound := (List.getElem?_eq_some_iff.mp ((lookup?_eq_some_iff tells.distinct).mp found)).1
      rw [length_lines] at bound
      exact live_of_prefix (prefix_extend a) ⟨by omega, by omega⟩
  lines line := by
    rw [lines_extend]
    split
    · next member =>
      obtain ⟨b, inside, isLine⟩ := (tells.lines a.line).mp member
      simp only [List.mem_append, List.mem_singleton, tells.lines]
      constructor
      · rintro ⟨c, isCall, isLine⟩
        exact ⟨c, .inl isCall, isLine⟩
      · rintro ⟨c, isCall | rfl, isLine'⟩
        · exact ⟨c, isCall, isLine'⟩
        · exact ⟨b, inside, isLine.trans isLine'⟩
    · simp [tells.lines, or_and_right, exists_or, eq_comm]
  precedes before line := by
    rw [precedes_extend tells.distinct tells.live known, tells.precedes, ← and_or_left]
    simp [or_and_right, exists_or]
  ends line := by
    rw [ends_extend tells.distinct, tells.ends, tells.lines]
    cases kind : a.isConstant with
    | true => exact (onlyConstant_append_constant kind).symm
    | false => exact (onlyConstant_append_node kind).symm

/-- A run of calls whose predecessors are known. -/
theorem Tells.extended {calls later : List Addition} (tells : g.Tells calls)
    (ordered : Addition.Ordered (calls.map Addition.line) later) : (g.extended later).Tells (calls ++ later) := by
  induction later generalizing g calls with
  | nil => simpa [SliceGraph.extended] using tells
  | cons a later ih =>
    obtain ⟨known, rest⟩ := ordered
    have step : (a.apply g).Tells (calls ++ [a]) := by
      refine tells.extend fun p isPred => (tells.lines p).mpr ?_
      simpa using known p isPred
    have run := ih step (by simpa using rest)
    simpa [SliceGraph.extended] using run

theorem tells_empty : ({} : SliceGraph).Tells [] where
  distinct := by simp [SliceGraph.lines]
  live id p pred := absurd (live_of_pred pred) (by simp [Live])
  lines _ := by simp [SliceGraph.lines]
  precedes _ _ := by simp [Precedes, SliceGraph.lines]
  ends _ := by simp [Ends, OnlyConstant]

/-- The graph of a sequence of calls does not depend on their order, apart from the ids of its nodes and the
registers of its edges: its lines, the predecessors of a line other than itself and the terminal lines are those of
the calls as a set, and a line is terminal exactly if it was only ever added as a constant. -/
theorem extended_agree {first last : List Addition} (same : ∀ a, a ∈ first ↔ a ∈ last)
    (ordered : Addition.Ordered [] first) (ordered' : Addition.Ordered [] last) :
    (extended {} first).lines.Perm (extended {} last).lines ∧
      (∀ before line, (extended {} first).Precedes before line ↔ (extended {} last).Precedes before line) ∧
      (∀ line, (extended {} first).Ends line ↔ (extended {} last).Ends line) ∧
      (∀ line, line ∈ (extended {} first).lines ↔ ∃ a ∈ first, a.line = line) ∧
      (∀ before line, (extended {} first).Precedes before line ↔
        before ≠ line ∧ ∃ a ∈ first, a.line = line ∧ a.pred? = some before) ∧
      ∀ line, (extended {} first).Ends line ↔ Addition.OnlyConstant first line := by
  have tells : (extended {} first).Tells first := tells_empty.extended ordered
  have tells' : (extended {} last).Tells last := tells_empty.extended ordered'
  refine ⟨?_, fun before line => ?_, fun line => ?_,
    tells.lines, tells.precedes, tells.ends⟩
  · refine (List.perm_ext_iff_of_nodup tells.distinct tells'.distinct).mpr fun line => ?_
    simp only [tells.lines, tells'.lines, same]
  · simp only [tells.precedes, tells'.precedes, same]
  · simp only [tells.ends, tells'.ends, OnlyConstant, same]

/-- A constant on a line that paths lead through later, and a loop of one line. -/
def constantFirst : List Addition := [
  .node (.body ⟨0, 0⟩ 2) none ⟨"v0", "v0"⟩,
  .constant (.body ⟨0, 0⟩ 0) (some (.body ⟨0, 0⟩ 2)) "v1" "v0",
  .node (.body ⟨0, 0⟩ 1) (some (.body ⟨0, 0⟩ 2)) ⟨"v2", "v0"⟩,
  .node (.body ⟨0, 0⟩ 0) (some (.body ⟨0, 0⟩ 1)) ⟨"v1", "v2"⟩,
  .node (.body ⟨0, 0⟩ 1) (some (.body ⟨0, 0⟩ 1)) ⟨"v2", "v2"⟩]

/-- The same calls with the constant last. -/
def constantLast : List Addition := [
  .node (.body ⟨0, 0⟩ 2) none ⟨"v0", "v0"⟩,
  .node (.body ⟨0, 0⟩ 1) (some (.body ⟨0, 0⟩ 2)) ⟨"v2", "v0"⟩,
  .node (.body ⟨0, 0⟩ 1) (some (.body ⟨0, 0⟩ 1)) ⟨"v2", "v2"⟩,
  .node (.body ⟨0, 0⟩ 0) (some (.body ⟨0, 0⟩ 1)) ⟨"v1", "v2"⟩,
  .constant (.body ⟨0, 0⟩ 0) (some (.body ⟨0, 0⟩ 2)) "v1" "v0"]

/-- The nodes have other ids, and the same lines and predecessors. -/
theorem constantFirst_agrees_constantLast :
    (extended {} constantFirst).lookup? (.body ⟨0, 0⟩ 0) = some 1 ∧
      (extended {} constantLast).lookup? (.body ⟨0, 0⟩ 0) = some 2 ∧
      (∀ a, a ∈ constantFirst ↔ a ∈ constantLast) ∧
      Addition.Ordered [] constantFirst ∧ Addition.Ordered [] constantLast ∧
      (extended {} constantFirst).lines.Perm (extended {} constantLast).lines ∧
      (∀ before line, (extended {} constantFirst).Precedes before line ↔
        (extended {} constantLast).Precedes before line) ∧
      ∀ line, (extended {} constantFirst).Ends line ↔ (extended {} constantLast).Ends line := by
  have same : ∀ a, a ∈ constantFirst ↔ a ∈ constantLast := by
    intro a
    simp only [constantFirst, constantLast, List.mem_cons, List.not_mem_nil, or_false]
    tauto
  have ordered : Addition.Ordered [] constantFirst := by decide +kernel
  have ordered' : Addition.Ordered [] constantLast := by decide +kernel
  obtain ⟨lines, precedes, ends, _⟩ := extended_agree same ordered ordered'
  exact ⟨by decide +kernel, by decide +kernel, same, ordered, ordered', lines, precedes, ends⟩

end SliceGraph

end SmaliTrace.Slice
