import SmaliTrace.Proofs.Slice.Keys
import SmaliTrace.Proofs.Slice.Turn

/-!
Grounded edits: those that hang what they add below a node of the slice, ask for keys of the program only, and
record constants where their lines are. What an action may rely on are the lines that are in the slice, which
only grow; so actions are described by what they need and give in terms of those lines.
-/
namespace SmaliTrace.Slice
open SmaliTrace.Smali SmaliTrace.ClassFile

variable {α β : Type} {index : Index} {here later : List LineId} {node : Option NodeId} {line : LineId}
  {σ τ : State}

/-! ### Nodes by their lines -/

/-- The origin is one of the nodes with the lines. -/
def Anchored (lines : List LineId) (origin : Option NodeId) : Prop :=
  ∃ p : Nat, origin = some (p : Int) ∧ p < lines.length

/-- The origin is the node of the line. -/
def Stands (lines : List LineId) (origin : Option NodeId) (line : LineId) : Prop :=
  ∃ p : Nat, origin = some (p : Int) ∧ lines.findIdx? (· = line) = some p

theorem Anchored.mono (anchored : Anchored here node) (grown : here <+: later) : Anchored later node := by
  obtain ⟨p, isNode, bound⟩ := anchored
  exact ⟨p, isNode, Nat.lt_of_lt_of_le bound grown.length_le⟩

theorem findIdx?_of_prefix {p : Nat} (found : here.findIdx? (· = line) = some p) (grown : here <+: later) :
    later.findIdx? (· = line) = some p := by
  obtain ⟨rest, rfl⟩ := grown
  simp [List.findIdx?_append, found]

theorem Stands.mono (stands : Stands here node line) (grown : here <+: later) : Stands later node line := by
  obtain ⟨p, isNode, found⟩ := stands
  exact ⟨p, isNode, findIdx?_of_prefix found grown⟩

theorem Stands.anchored (stands : Stands here node line) : Anchored here node := by
  obtain ⟨p, isNode, found⟩ := stands
  exact ⟨p, isNode, (List.findIdx?_eq_some_iff_getElem.mp found).1⟩

theorem findIdx?_added (lines : List LineId) (line : LineId) :
    (if (lines.findIdx? (· = line)).isSome then lines else lines ++ [line]).findIdx? (· = line) =
      some ((lines.findIdx? (· = line)).getD lines.length) := by
  cases found : lines.findIdx? (· = line) with
  | some p => simp [found]
  | none => simp [List.findIdx?_append, found, List.findIdx?_cons]

/-! ### Grounded edits -/

/-- The node that the item continues from. -/
def Item.origin : Item → Option NodeId
  | register r => r.origin
  | content _ c => c.origin

/-- Asks for an item. -/
def State.ask (σ : State) : Item → State
  | .register r => { σ with work := (σ.work.admitRegister r).1 }
  | .content kind c => { σ with work := (σ.work.admitContent kind c).1 }

/-- An edit that keeps the slice together and stays inside the program. -/
inductive GroundedEdit (index : Index) : State → State → Prop
  | request (σ : State) (item : Item) (anchored : Anchored σ.work.graph.lines item.origin)
      (known : item.key ∈ index.searchKeys) : GroundedEdit index σ (σ.ask item)
  | node (σ : State) (line : LineId) (pred : Option NodeId) (key : EdgeKey)
      (anchored : Anchored σ.work.graph.lines pred) :
      GroundedEdit index σ { σ with work := (σ.work.addNode line pred key).1 }
  | constant (σ : State) (line : LineId) (pred : Option NodeId) (register target : Register)
      (anchored : Anchored σ.work.graph.lines pred) :
      GroundedEdit index σ { σ with work := (σ.work.addConstant line pred register target).1 }
  | produced (σ : State) (id : NodeId) (key : EdgeKey) :
      GroundedEdit index σ { σ with work := σ.work.produce id key }
  | kept (σ : State) (k : Constant) (stands : Stands σ.work.graph.lines (some k.node) k.line) :
      GroundedEdit index σ (σ.keep k)

/-- One state comes from another by grounded edits. -/
abbrev GroundedEdits (index : Index) : State → State → Prop := Relation.ReflTransGen (GroundedEdit index)

theorem GroundedEdit.edit (edit : GroundedEdit index σ τ) : Edit σ τ := by
  cases edit with
  | request item =>
    cases item with
    | register r => exact .register σ r
    | content kind c => exact .content σ kind c
  | node line pred key => exact .node σ line pred key
  | constant line pred register target => exact .constant σ line pred register target
  | produced id key => exact .produced σ id key
  | kept k => exact .kept σ k

theorem GroundedEdits.lines (edits : GroundedEdits index σ τ) : σ.work.graph.lines <+: τ.work.graph.lines := by
  induction edits with
  | refl => exact List.prefix_rfl
  | tail _ edit ih => exact ih.trans edit.edit.grows.lines

/-! ### Actions -/

/-- The ending is a result with the property, or a fault that is no limit. -/
def Ended (post : List LineId → α → Prop) : Except Fault α × State → Prop
  | (.ok v, τ) => post τ.work.graph.lines v
  | (.error fault, _) => fault.isLimit = false

/-- In a slice with the lines, the action makes grounded edits only, and its result has the property. -/
structure Tracks (index : Index) (here : List LineId) (a : SearchM α) (post : List LineId → α → Prop) : Prop where
  run : ∀ σ, here <+: σ.work.graph.lines → GroundedEdits index σ (exec a σ).2 ∧ Ended post (exec a σ)

/-- In a slice with the lines, the action makes grounded edits only. -/
abbrev Grounds (index : Index) (here : List LineId) (a : SearchM α) : Prop :=
  Tracks index here a fun _ _ => True

namespace Tracks

variable {a : SearchM α} {f : α → SearchM β} {post : List LineId → α → Prop} {post' : List LineId → β → Prop}

theorem pure {v : α} (holds : ∀ later, here <+: later → post later v) : Tracks index here (pure v) post :=
  ⟨fun σ grown => ⟨.refl, holds σ.work.graph.lines grown⟩⟩

theorem misshapen {x : Context} {line : LineId} {shape : Misshape} :
    Tracks index here (misshapen x line shape : SearchM α) post :=
  ⟨fun _ _ => ⟨.refl, rfl⟩⟩

theorem illogical {x : Context} {line : LineId} {surprise : Surprise} :
    Tracks index here (illogical x line surprise : SearchM α) post :=
  ⟨fun _ _ => ⟨.refl, rfl⟩⟩

theorem bind (first : Tracks index here a post)
    (rest : ∀ later v, here <+: later → post later v → Tracks index later (f v) post') :
    Tracks index here (a >>= f) post' := by
  refine ⟨fun σ grown => ?_⟩
  obtain ⟨edits, ended⟩ := first.run σ grown
  rw [exec_bind]
  rcases ran : exec a σ with ⟨fault | v, τ⟩ <;> rw [ran] at edits ended
  · exact ⟨edits, ended⟩
  · obtain ⟨edits', ended'⟩ := (rest _ v (grown.trans edits.lines) ended).run τ List.prefix_rfl
    exact ⟨edits.trans edits', ended'⟩

theorem map {g : α → β} (tracks : Tracks index here a post)
    (holds : ∀ later v, post later v → post' later (g v)) : Tracks index here (g <$> a) post' := by
  refine ⟨fun σ grown => ?_⟩
  obtain ⟨edits, ended⟩ := tracks.run σ grown
  rw [← bind_pure_comp, exec_bind]
  rcases ran : exec a σ with ⟨fault | v, τ⟩ <;> rw [ran] at edits ended
  · exact ⟨edits, ended⟩
  · exact ⟨edits, holds _ v ended⟩

theorem weaken {post' : List LineId → α → Prop} (tracks : Tracks index here a post)
    (holds : ∀ later v, post later v → post' later v) : Tracks index here a post' := by
  refine ⟨fun σ grown => ?_⟩
  obtain ⟨edits, ended⟩ := tracks.run σ grown
  rcases ran : exec a σ with ⟨fault | v, τ⟩ <;> rw [ran] at edits ended
  · exact ⟨edits, ended⟩
  · exact ⟨edits, holds _ v ended⟩

theorem grounds (tracks : Tracks index here a post) : Grounds index here a := tracks.weaken fun _ _ _ => trivial

theorem mono (tracks : Tracks index here a post) (grown : here <+: later) : Tracks index later a post :=
  ⟨fun σ grown' => tracks.run σ (grown.trans grown')⟩

theorem done {v : α} : Grounds index here (Pure.pure v) := .pure fun _ _ => trivial

/-- A result that nothing is asked of. -/
theorem andThen (first : Grounds index here a)
    (rest : ∀ later v, here <+: later → Tracks index later (f v) post') : Tracks index here (a >>= f) post' :=
  first.bind fun later v grown _ => rest later v grown

theorem forM {items : List β} {f : β → SearchM PUnit} (each : ∀ item ∈ items, Grounds index here (f item)) :
    Grounds index here (items.forM f) := by
  induction items generalizing here with
  | nil => exact .done
  | cons item items ih =>
    refine (each item (by simp)).andThen fun later _ grown => ih fun other inside => ?_
    exact (each other (by simp [inside])).mono grown

theorem mapM {items : List β} {f : β → SearchM α} (each : ∀ here item, Grounds index here (f item)) :
    Grounds index here (items.mapM f) := by
  induction items generalizing here with
  | nil => exact .done
  | cons item items ih =>
    rw [List.mapM_cons]
    exact (each here item).andThen fun _ _ _ => ih.andThen fun _ _ _ => .done

end Tracks

/-! ### The steps that all searches are made of -/

variable {x : Context} {r : RegisterSearch} {c : Cursor} {register : Register}

theorem grounds_admitRegister (anchored : Anchored here r.origin) (known : r.key ∈ index.searchKeys) :
    Grounds index here (admitRegister r) :=
  ⟨fun σ grown => ⟨.single (.request σ (.register r) (anchored.mono grown) known), trivial⟩⟩

theorem grounds_admitContent {kind : Content} {search : ContentSearch} (anchored : Anchored here search.origin)
    (known : search.key kind ∈ index.searchKeys) : Grounds index here (admitContent kind search) :=
  ⟨fun σ grown => ⟨.single (.request σ (.content kind search) (anchored.mono grown) known), trivial⟩⟩

theorem grounds_produceIf (direct : Bool) (id : Nat) (key : EdgeKey) :
    Grounds index here (produceIf direct id key) := by
  unfold produceIf
  split
  · exact ⟨fun σ _ => ⟨.single (.produced σ id key), trivial⟩⟩
  · exact .done

theorem tracks_addNode {key : EdgeKey} (anchored : Anchored here node) :
    Tracks index here (onWork (·.addNode line node key)) fun later id => later.findIdx? (· = line) = some id := by
  refine ⟨fun σ grown => ⟨.single (.node σ line node key (anchored.mono grown)), ?_⟩⟩
  change (σ.work.graph.addNode line node key).1.lines.findIdx? (· = line) =
    some (σ.work.graph.addNode line node key).2
  rw [SliceGraph.lines_addNode_eq, SliceGraph.snd_addNode, findIdx?_added]

theorem tracks_addConstant {target : Register} (anchored : Anchored here node) :
    Tracks index here (onWork (·.addConstant line node register target)) fun later id =>
      later.findIdx? (· = line) = some id := by
  refine ⟨fun σ grown => ⟨.single (.constant σ line node register target (anchored.mono grown)), ?_⟩⟩
  change (σ.work.graph.addConstant line node register target).1.lines.findIdx? (· = line) =
    some (σ.work.graph.addConstant line node register target).2
  rw [SliceGraph.lines_addConstant_eq, SliceGraph.snd_addConstant, findIdx?_added]

theorem grounds_keepConstant {k : Constant} (stands : Stands here (some k.node) k.line) :
    Grounds index here (keepConstant k) :=
  ⟨fun σ grown => ⟨.single (.kept σ k (stands.mono grown)), trivial⟩⟩

/-- After a step, the cursor stands at the line, on the register that it goes on with. -/
theorem tracks_step {source : Register} (anchored : Anchored here c.origin) :
    Tracks index here (step c line source register) fun later c' =>
      c'.register = register ∧ Stands later c'.origin line := by
  refine (tracks_addNode anchored).bind fun there id _ found => ?_
  refine (grounds_produceIf ..).andThen fun later _ grown => .pure fun _ grown' => ⟨rfl, id, rfl, ?_⟩
  exact findIdx?_of_prefix found (grown.trans grown')

theorem tracks_terminal {kind : ConstantKind} {value : Text.Octets} {raw : String} {fuzzy : Int}
    (anchored : Anchored here c.origin) :
    Tracks index here (terminal x c line kind value raw fuzzy) fun later c' =>
      c'.register = c.register ∧ Anchored later c'.origin := by
  refine (tracks_addConstant anchored).bind fun there id _ found => ?_
  have stands : Stands there (some (id : Int)) line := ⟨id, rfl, found⟩
  refine (grounds_keepConstant (by exact stands)).andThen fun there' _ grown => ?_
  refine (grounds_produceIf ..).andThen fun later _ grown' => .pure fun _ grown'' => ⟨rfl, ?_⟩
  exact (stands.mono (grown.trans (grown'.trans grown''))).anchored

theorem grounds_record {kind : ConstantKind} {value : Text.Octets} {raw : String} {fuzzy : Int}
    (stands : Stands here c.origin line) : Grounds index here (record x c line kind value raw fuzzy) := by
  refine grounds_keepConstant ?_
  obtain ⟨id, isNode, found⟩ := stands
  exact ⟨id, by simp [isNode], found⟩

theorem grounds_fork {block : BlockId} {position fuzzy : Int} (anchored : Anchored here c.origin)
    (known : .register register block position ∈ index.searchKeys) :
    Grounds index here (fork r c register block position fuzzy) :=
  grounds_admitRegister anchored known

end SmaliTrace.Slice
