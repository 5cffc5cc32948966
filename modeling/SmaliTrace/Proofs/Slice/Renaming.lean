import SmaliTrace.Proofs.Program.Restriction
import SmaliTrace.Proofs.Slice.Worklist
import SmaliTrace.Slice.Constant

/-!
What a search holds, with its classes at other positions. The graph and the worklist look at a line or a key only
to tell it from others, so as long as no two classes get one position, every operation does to the renamed data
what it does to the data itself.
-/
namespace SmaliTrace.Slice
open SmaliTrace.Smali (Register)

variable {f : Nat → Nat}

private theorem map_modify {α : Type} {g change : α → α} (commutes : ∀ a, change (g a) = g (change a))
    (items : Array α) (i : Nat) : (items.map g).modify i change = (items.modify i change).map g := by
  apply Array.ext_getElem?
  intro j
  simp only [Array.getElem?_modify, Array.getElem?_map]
  split
  · rw [Option.map_map, Option.map_map, show change ∘ g = g ∘ change from funext commutes]
  · rfl

private theorem foldl_commutes {α β : Type} {g : α → α} {h : α → β → α}
    (commutes : ∀ a b, h (g a) b = g (h a b)) (items : List β) (a : α) :
    items.foldl h (g a) = g (items.foldl h a) := by
  induction items generalizing a with
  | nil => rfl
  | cons b items ih => rw [List.foldl_cons, commutes, ih, List.foldl_cons]

/-! ### Graphs -/

def Node.rename (f : Nat → Nat) (n : Node) : Node := { n with line := n.line.rename f }

theorem Node.addInbound_rename (n : Node) (self : NodeId) (key : EdgeKey) (pred : Option NodeId) :
    (n.rename f).addInbound self key pred = (n.addInbound self key pred).rename f := by
  unfold Node.addInbound
  cases pred with
  | none => rfl
  | some p =>
    dsimp only
    split <;> rfl

theorem Node.upgrade_rename (n : Node) : (n.rename f).upgrade = n.upgrade.rename f := by
  obtain ⟨line, terminal, inbound⟩ := n
  cases terminal <;> rfl

namespace SliceGraph

def rename (f : Nat → Nat) (g : SliceGraph) : SliceGraph := ⟨g.nodes.map (Node.rename f)⟩

variable {g : SliceGraph}

theorem modify_rename {id : Nat} {change : Node → Node}
    (commutes : ∀ n, change (n.rename f) = (change n).rename f) :
    (g.rename f).modify id change = (g.modify id change).rename f := by
  unfold modify rename
  rw [map_modify commutes]

theorem push_rename (n : Node) : (⟨(g.rename f).nodes.push (n.rename f)⟩ : SliceGraph) =
    rename f ⟨g.nodes.push n⟩ := by
  simp [rename]

@[simp] theorem size_nodes_rename : (g.rename f).nodes.size = g.nodes.size := by simp [rename]

theorem link_rename (id : NodeId) (pred : Option NodeId) (key : EdgeKey) :
    (g.rename f).link id pred key = (g.link id pred key).rename f := by
  unfold link
  split
  · rfl
  · exact modify_rename fun n => Node.addInbound_rename ..

section
variable (injective : f.Injective)
include injective

theorem lookup?_rename (line : LineId) : (g.rename f).lookup? (line.rename f) = g.lookup? line := by
  unfold lookup? rename
  rw [Array.findIdx?_map]
  congr 1
  funext n
  simp [Node.rename, (LineId.rename_injective injective).eq_iff]

theorem addNode_rename (line : LineId) (pred : Option NodeId) (key : EdgeKey) :
    (g.rename f).addNode (line.rename f) pred key =
      ((g.addNode line pred key).1.rename f, (g.addNode line pred key).2) := by
  unfold addNode
  rw [lookup?_rename injective]
  cases g.lookup? line with
  | some id =>
    dsimp only
    rw [modify_rename fun n => by rw [Node.upgrade_rename, Node.addInbound_rename]]
  | none =>
    dsimp only
    rw [size_nodes_rename, ← push_rename, ← Node.addInbound_rename]
    rfl

theorem addConstant_rename (line : LineId) (pred : Option NodeId) (register target : Register) :
    (g.rename f).addConstant (line.rename f) pred register target =
      ((g.addConstant line pred register target).1.rename f, (g.addConstant line pred register target).2) := by
  unfold addConstant
  rw [lookup?_rename injective]
  cases g.lookup? line with
  | some id =>
    dsimp only
    rw [modify_rename fun n => by rw [← Node.addInbound_rename]; rfl]
  | none =>
    dsimp only
    rw [size_nodes_rename, ← push_rename, ← Node.addInbound_rename]
    rfl

end

end SliceGraph

/-! ### Requests -/

def RegisterSearch.rename (f : Nat → Nat) (r : RegisterSearch) : RegisterSearch :=
  { r with block := r.block.rename f }

def ContentSearch.rename (f : Nat → Nat) (c : ContentSearch) : ContentSearch := { c with line := c.line.rename f }

def ItemKey.rename (f : Nat → Nat) : ItemKey → ItemKey
  | .register r b i => .register r (b.rename f) i
  | .content kind name => .content kind name

theorem ItemKey.rename_injective (injective : f.Injective) : (ItemKey.rename f).Injective := by
  intro k l same
  cases k <;> cases l <;>
    simp_all only [rename, ItemKey.register.injEq, ItemKey.content.injEq, reduceCtorEq,
      (BlockId.rename_injective injective).eq_iff]

theorem RegisterSearch.key_rename (r : RegisterSearch) : (r.rename f).key = r.key.rename f := rfl

theorem ContentSearch.key_rename (kind : Content) (c : ContentSearch) :
    (c.rename f).key kind = (c.key kind).rename f := rfl

/-! ### Worklists -/

/-- The table answers for a renamed key what the other one answers for the key. -/
def Keyed (f : Nat → Nat) (done done' : Std.HashMap ItemKey Nat) : Prop :=
  ∀ key : ItemKey, done'[key.rename f]? = done[key]?

theorem Keyed.insert {done done' : Std.HashMap ItemKey Nat} (keyed : Keyed f done done')
    (injective : f.Injective) (key : ItemKey) (i : Nat) :
    Keyed f (done.insert key i) (done'.insert (key.rename f) i) := by
  intro other
  simp only [Std.HashMap.getElem?_insert, beq_iff_eq, (ItemKey.rename_injective injective).eq_iff]
  rw [keyed other]

namespace Worklist

/-- The worklist with its classes at other positions. What has been asked for before is filed in the given
table. -/
def rename (f : Nat → Nat) (done : Std.HashMap ItemKey Nat) (w : Worklist) : Worklist :=
  { w with
    graph := w.graph.rename f
    registers := w.registers.map (RegisterSearch.rename f)
    fields := w.fields.map (ContentSearch.rename f)
    arrays := w.arrays.map (ContentSearch.rename f)
    results := w.results.map (ContentSearch.rename f)
    done := done }

variable {w : Worklist} {done done' : Std.HashMap ItemKey Nat}

theorem linkProduced_rename (g : SliceGraph) (o : Origin) (p : NodeId × EdgeKey) :
    linkProduced (g.rename f) o p = (linkProduced g o p).rename f := by
  unfold linkProduced
  split
  · rfl
  · exact SliceGraph.link_rename ..

theorem serve_rename (records : Array Record) (g : SliceGraph) (o : Origin) (stack : List Nat) :
    serve records (g.rename f) o stack =
      ((serve records g o stack).1, (serve records g o stack).2.rename f) := by
  induction records, g, stack using serve.induct o with
  | case1 => rw [serve, serve]
  | case2 records g i stack bound idle ih =>
    rw [serve, dif_pos bound, dif_pos idle, serve, dif_pos bound, dif_pos idle, ← ih,
      foldl_commutes fun g p => linkProduced_rename g o p]
  | case3 records g i stack bound busy ih =>
    rw [serve, dif_pos bound, dif_neg busy, ih, serve, dif_pos bound, dif_neg busy]
  | case4 records g i stack beyond ih =>
    rw [serve, dif_neg beyond, ih, serve, dif_neg beyond]

theorem duplicate_rename (i : Nat) (o : Origin) :
    (w.rename f done).duplicate i o = (w.duplicate i o).rename f done := by
  unfold duplicate
  simp only [rename, serve_rename]

theorem inherit_rename (i : Nat) (o : Origin) :
    (w.rename f done).inherit i o = (w.inherit i o).rename f done := by
  unfold inherit
  rw [show (w.rename f done).current = w.current from rfl, show (w.rename f done).records = w.records from rfl]
  cases w.current with
  | none => rfl
  | some c =>
    dsimp only
    cases w.records[c]? with
    | none => rfl
    | some r =>
      dsimp only
      split
      · rfl
      · exact foldl_commutes (g := rename f done) (h := fun w p => w.duplicate i p)
          (fun _ o => duplicate_rename i o) r.pending { w.adopt c i with current := some c }

theorem produce_rename (node : NodeId) (key : EdgeKey) :
    (w.rename f done).produce node key = (w.produce node key).rename f done := by
  unfold produce
  rw [show (w.rename f done).current = w.current from rfl, show (w.rename f done).records = w.records from rfl]
  cases w.current with
  | none => rfl
  | some c =>
    dsimp only
    cases w.records[c]? with
    | none => rfl
    | some r =>
      dsimp only [rename]
      rw [foldl_commutes fun g o => linkProduced_rename g o (node, key)]

section
variable (injective : f.Injective)
include injective

theorem addNode_rename (line : LineId) (pred : Option NodeId) (key : EdgeKey) :
    (w.rename f done).addNode (line.rename f) pred key =
      ((w.addNode line pred key).1.rename f done, (w.addNode line pred key).2) := by
  unfold addNode
  simp only [rename, SliceGraph.addNode_rename injective]

theorem addConstant_rename (line : LineId) (pred : Option NodeId) (register target : Register) :
    (w.rename f done).addConstant (line.rename f) pred register target =
      ((w.addConstant line pred register target).1.rename f done,
        (w.addConstant line pred register target).2) := by
  unfold addConstant
  simp only [rename, SliceGraph.addConstant_rename injective]

/-- A renamed request is refused, linked or queued as the request itself. -/
theorem accept_rename (keyed : Keyed f w.done done) (key : ItemKey) (fuzzy offset : Int) (o : Origin)
    {enqueue enqueue' : Worklist → Worklist}
    (enqueues : ∀ (w : Worklist) done, enqueue' (w.rename f done) = (enqueue w).rename f done)
    (keeps : ∀ w, (enqueue w).done = w.done) :
    ∃ done', ((w.rename f done).accept (key.rename f) fuzzy offset o enqueue').1 =
        (w.accept key fuzzy offset o enqueue).1.rename f done' ∧
      Keyed f (w.accept key fuzzy offset o enqueue).1.done done' := by
  have found : (w.rename f done).done[key.rename f]? = w.done[key]? := keyed key
  unfold accept
  rw [show (w.rename f done).tooFuzzy fuzzy offset = w.tooFuzzy fuzzy offset from rfl, found]
  split
  · exact ⟨done, rfl, keyed⟩
  · cases w.done[key]? with
    | some i =>
      refine ⟨done, ?_, ?_⟩
      · dsimp only
        rw [duplicate_rename, inherit_rename]
      · dsimp only
        rwa [((relinked_duplicate w i o).trans (relinked_inherit _ i o)).done]
    | none =>
      refine ⟨done.insert (key.rename f) w.records.size, ?_, ?_⟩
      · dsimp only
        rw [← enqueues, ← inherit_rename]
        rfl
      · dsimp only
        rw [keeps, (relinked_inherit _ _ o).done]
        exact keyed.insert injective key w.records.size

theorem admitRegister_rename (keyed : Keyed f w.done done) (r : RegisterSearch) :
    ∃ done', ((w.rename f done).admitRegister (r.rename f)).1 = (w.admitRegister r).1.rename f done' ∧
      Keyed f (w.admitRegister r).1.done done' :=
  accept_rename injective keyed r.key r.fuzzy r.offset r.asks
    (fun w done => by simp [rename]) (fun _ => rfl)

theorem admitContent_rename (keyed : Keyed f w.done done) (kind : Content) (c : ContentSearch) :
    ∃ done', ((w.rename f done).admitContent kind (c.rename f)).1 =
        (w.admitContent kind c).1.rename f done' ∧ Keyed f (w.admitContent kind c).1.done done' :=
  accept_rename injective keyed (c.key kind) c.fuzzy c.offset c.asks
    (fun w done => by cases kind <;> simp [rename, enqueueContent]) (fun _ => by cases kind <;> rfl)

end

end Worklist

/-! ### Constants -/

def Constant.rename (f : Nat → Nat) (k : Constant) : Constant := { k with line := k.line.rename f }

theorem addConstant_rename (injective : f.Injective) (constants : Array Constant) (k : Constant) :
    addConstant (constants.map (Constant.rename f)) (k.rename f) =
      ((addConstant constants k).1.map (Constant.rename f), (addConstant constants k).2) := by
  have sameLine : (fun k' : Constant => decide (k'.line = (k.rename f).line)) ∘ Constant.rename f =
      fun k' => decide (k'.line = k.line) := by
    funext k'
    simp [Constant.rename, (LineId.rename_injective injective).eq_iff]
  unfold addConstant
  rw [Array.findIdx?_map, sameLine]
  cases constants.findIdx? fun k' => decide (k'.line = k.line) with
  | none => simp
  | some i =>
    dsimp only
    have commutes : ∀ other : Constant, { other.rename f with fuzzy := min other.fuzzy k.fuzzy } =
        Constant.rename f { other with fuzzy := min other.fuzzy k.fuzzy } := fun _ => rfl
    exact congrArg (·, false) (map_modify commutes constants i)

end SmaliTrace.Slice
