import SmaliTrace.Proofs.Slice.Graph
import SmaliTrace.Slice.Worklist

/-!
What the operations of the worklist can do. Linking duplicates changes records and edges only, and a
request is refused, linked to the item made before, or queued.
-/
namespace SmaliTrace.Slice
open SmaliTrace.Smali (Register)

/-- The origin of a register search. -/
def RegisterSearch.asks (r : RegisterSearch) : Origin := ⟨r.origin, r.originRegister⟩

/-- The origin of a content search. -/
def ContentSearch.asks (c : ContentSearch) : Origin := ⟨c.origin, c.originRegister⟩

namespace Worklist

variable {w w' : Worklist}

theorem lines_foldl_linkProduced (o : Origin) (produced : List (NodeId × EdgeKey)) (g : SliceGraph) :
    (produced.foldl (linkProduced · o) g).lines = g.lines := by
  induction produced generalizing g with
  | nil => rfl
  | cons p produced ih =>
    rw [List.foldl_cons, ih, linkProduced]
    split
    · rfl
    · exact SliceGraph.lines_link ..

theorem lines_serve (records : Array Record) (g : SliceGraph) (o : Origin) (stack : List Nat) :
    (serve records g o stack).2.lines = g.lines := by
  induction records, g, stack using serve.induct o with
  | case1 => rw [serve]
  | case2 records g i stack bound idle ih =>
    rw [serve, dif_pos bound, dif_pos idle, ih]
    exact lines_foldl_linkProduced ..
  | case3 records g i stack bound busy ih =>
    rw [serve, dif_pos bound, dif_neg busy, ih]
  | case4 records g i stack beyond ih =>
    rw [serve, dif_neg beyond, ih]

/-- Two worklists that differ in records and edges only. -/
structure Relinked (w w' : Worklist) : Prop where
  lines : w'.graph.lines = w.graph.lines
  maxFuzzy : w'.maxFuzzy = w.maxFuzzy
  registers : w'.registers = w.registers
  fields : w'.fields = w.fields
  arrays : w'.arrays = w.arrays
  results : w'.results = w.results
  done : w'.done = w.done
  current : w'.current = w.current

theorem Relinked.refl (w : Worklist) : Relinked w w := ⟨rfl, rfl, rfl, rfl, rfl, rfl, rfl, rfl⟩

theorem Relinked.trans {w₁ w₂ w₃ : Worklist} (first : Relinked w₁ w₂) (last : Relinked w₂ w₃) :
    Relinked w₁ w₃ where
  lines := last.lines.trans first.lines
  maxFuzzy := last.maxFuzzy.trans first.maxFuzzy
  registers := last.registers.trans first.registers
  fields := last.fields.trans first.fields
  arrays := last.arrays.trans first.arrays
  results := last.results.trans first.results
  done := last.done.trans first.done
  current := last.current.trans first.current

theorem relinked_duplicate (w : Worklist) (i : Nat) (o : Origin) : Relinked w (w.duplicate i o) :=
  ⟨lines_serve .., rfl, rfl, rfl, rfl, rfl, rfl, rfl⟩

theorem relinked_foldl_duplicate (i : Nat) (origins : List Origin) (w : Worklist) :
    Relinked w (origins.foldl (fun w p => w.duplicate i p) w) := by
  induction origins generalizing w with
  | nil => exact .refl w
  | cons o origins ih => exact (relinked_duplicate w i o).trans (ih _)

/-- Makes one record a child of another. -/
def adopt (w : Worklist) (parent child : Nat) : Worklist :=
  { w with records := w.records.modify parent fun r => { r with children := r.children ++ [child] } }

/-- A request becomes a child of the item in progress if it carries the origin of that item, and is none
yet; it then serves all that wait for the item. -/
theorem inherit_cases (w : Worklist) (i : Nat) (o : Origin) :
    w.inherit i o = w ∨
      ∃ c r, w.current = some c ∧ w.records[c]? = some r ∧ r.origin = o ∧
        w.inherit i o = r.pending.foldl (fun w p => w.duplicate i p) (w.adopt c i) := by
  unfold inherit
  split
  · exact .inl rfl
  · next c current =>
    split
    · exact .inl rfl
    · next r found =>
      split
      · exact .inl rfl
      · next fresh =>
        simp only [not_or, ne_eq, Decidable.not_not] at fresh
        exact .inr ⟨c, r, current, found, fresh.2.1, rfl⟩

theorem relinked_adopt (w : Worklist) (parent child : Nat) : Relinked w (w.adopt parent child) :=
  ⟨rfl, rfl, rfl, rfl, rfl, rfl, rfl, rfl⟩

theorem relinked_inherit (w : Worklist) (i : Nat) (o : Origin) : Relinked w (w.inherit i o) := by
  rcases w.inherit_cases i o with same | ⟨c, r, _, _, _, grown⟩
  · rw [same]
    exact .refl w
  · rw [grown]
    exact (relinked_adopt w c i).trans (relinked_foldl_duplicate ..)

theorem relinked_produce (w : Worklist) (node : NodeId) (key : EdgeKey) : Relinked w (w.produce node key) := by
  unfold produce
  split
  · exact .refl w
  · split
    · exact .refl w
    · next r _ =>
      refine ⟨?_, rfl, rfl, rfl, rfl, rfl, rfl, rfl⟩
      have linked : ∀ (pending : List Origin) (g : SliceGraph),
          (pending.foldl (fun g o => linkProduced g o (node, key)) g).lines = g.lines := by
        intro pending
        induction pending with
        | nil => exact fun _ => rfl
        | cons o pending ih =>
          intro g
          exact (ih _).trans (lines_foldl_linkProduced o [(node, key)] g)
      exact linked r.pending w.graph

/-! ### Queues -/

/-- The queue of a kind of content. -/
def contents (w : Worklist) : Content → List ContentSearch
  | .field => w.fields
  | .array => w.arrays
  | .result => w.results

/-- A request with the key and the origin is in a queue. -/
def Queued (w : Worklist) (k : ItemKey) (o : Origin) : Prop :=
  (∃ r ∈ w.registers, r.key = k ∧ r.asks = o) ∨ ∃ kind, ∃ c ∈ w.contents kind, c.key kind = k ∧ c.asks = o

theorem Relinked.queued {k : ItemKey} {o : Origin} (relinked : Relinked w w') :
    Queued w' k o ↔ Queued w k o := by
  have same : w'.contents = w.contents := by
    funext kind
    cases kind with
    | field => exact relinked.fields
    | array => exact relinked.arrays
    | result => exact relinked.results
  rw [Queued, Queued, relinked.registers, same]

/-- Putting a request at the end of its queue changes nothing else. -/
structure Queues (key : ItemKey) (fuzzy offset : Int) (o : Origin) (enqueue : Worklist → Worklist) : Prop where
  graph : ∀ w, (enqueue w).graph = w.graph
  maxFuzzy : ∀ w, (enqueue w).maxFuzzy = w.maxFuzzy
  records : ∀ w, (enqueue w).records = w.records
  done : ∀ w, (enqueue w).done = w.done
  current : ∀ w, (enqueue w).current = w.current
  kept : ∀ w, w.registers <+: (enqueue w).registers
  waits : ∀ w {register block index}, ItemKey.register register block index = key →
    ∃ q ∈ (enqueue w).registers, q.key = .register register block index
  level : ∀ {w}, ∀ q ∈ (enqueue w).registers, q ∈ w.registers ∨ (q.fuzzy = fuzzy ∧ q.offset = offset)
  queued : ∀ {w k q}, Queued (enqueue w) k q → Queued w k q ∨ (k = key ∧ q = o)

theorem queues_register (r : RegisterSearch) :
    Queues r.key r.fuzzy r.offset r.asks fun w => { w with registers := w.registers ++ [r] } where
  graph _ := rfl
  maxFuzzy _ := rfl
  records _ := rfl
  done _ := rfl
  current _ := rfl
  kept _ := List.prefix_append ..
  waits _ _ _ _ same := ⟨r, by simp, same.symm⟩
  level q member := by
    rcases List.mem_append.mp member with old | new
    · exact .inl old
    · obtain rfl := List.mem_singleton.mp new
      exact .inr ⟨rfl, rfl⟩
  queued := by
    rintro w k q (⟨r', member, rfl, rfl⟩ | content)
    · rcases List.mem_append.mp member with old | new
      · exact .inl (.inl ⟨r', old, rfl, rfl⟩)
      · obtain rfl := List.mem_singleton.mp new
        exact .inr ⟨rfl, rfl⟩
    · exact .inl (.inr content)

theorem registers_enqueueContent (kind : Content) (c : ContentSearch) (w : Worklist) :
    (enqueueContent kind c w).registers = w.registers := by
  cases kind <;> rfl

theorem mem_contents_enqueueContent {kind kind' : Content} {c c' : ContentSearch}
    (member : c' ∈ (enqueueContent kind c w).contents kind') :
    c' ∈ w.contents kind' ∨ (kind' = kind ∧ c' = c) := by
  cases kind <;> cases kind' <;> simpa [enqueueContent, contents] using member

theorem queues_content (kind : Content) (c : ContentSearch) :
    Queues (c.key kind) c.fuzzy c.offset c.asks (enqueueContent kind c) where
  graph _ := by cases kind <;> rfl
  maxFuzzy _ := by cases kind <;> rfl
  records _ := by cases kind <;> rfl
  done _ := by cases kind <;> rfl
  current _ := by cases kind <;> rfl
  kept w := by simp [registers_enqueueContent]
  waits _ _ _ _ same := by simp [ContentSearch.key] at same
  level q member := by
    rw [registers_enqueueContent] at member
    exact .inl member
  queued := by
    rintro w k q (⟨r, member, rfl, rfl⟩ | ⟨kind', c', member, rfl, rfl⟩)
    · rw [registers_enqueueContent] at member
      exact .inl (.inl ⟨r, member, rfl, rfl⟩)
    · rcases mem_contents_enqueueContent member with old | ⟨rfl, rfl⟩
      · exact .inl (.inr ⟨kind', c', old, rfl, rfl⟩)
      · exact .inr ⟨rfl, rfl⟩

/-! ### Requests -/

/-- The worklist with a new item, before the item is queued. -/
def opened (w : Worklist) (key : ItemKey) (o : Origin) : Worklist :=
  Worklist.inherit { w with
    records := w.records.push { origin := o }
    done := w.done.insert key w.records.size } w.records.size o

/-- What a request does: it is refused, linked to the item made before, or opens a new item. -/
theorem accept_cases (w : Worklist) (key : ItemKey) (fuzzy offset : Int) (o : Origin)
    (enqueue : Worklist → Worklist) :
    (w.tooFuzzy fuzzy offset = true ∧
      (w.accept key fuzzy offset o enqueue).1 = { w with rejected := w.rejected + 1 }) ∨
    (w.tooFuzzy fuzzy offset = false ∧ ∃ i, w.done[key]? = some i ∧
      (w.accept key fuzzy offset o enqueue).1 = (w.duplicate i o).inherit i o) ∨
    (w.tooFuzzy fuzzy offset = false ∧ w.done[key]? = none ∧
      (w.accept key fuzzy offset o enqueue).1 = enqueue (w.opened key o)) := by
  unfold accept
  split
  · next exceeds => exact .inl ⟨exceeds, rfl⟩
  · next under =>
    have fits : w.tooFuzzy fuzzy offset = false := by simpa using under
    split
    · next i found => exact .inr (.inl ⟨fits, i, found, rfl⟩)
    · next absent => exact .inr (.inr ⟨fits, absent, rfl⟩)

theorem relinked_opened (w : Worklist) (key : ItemKey) (o : Origin) :
    Relinked { w with done := w.done.insert key w.records.size } (w.opened key o) := by
  have inherited := relinked_inherit { w with
    records := w.records.push { origin := o }
    done := w.done.insert key w.records.size } w.records.size o
  exact ⟨inherited.lines, inherited.maxFuzzy, inherited.registers, inherited.fields, inherited.arrays,
    inherited.results, inherited.done, inherited.current⟩

end Worklist

end SmaliTrace.Slice
