import Mathlib.Logic.Relation
import SmaliTrace.Proofs.Slice.Worklist

/-!
The records of a worklist as a graph, which may have cycles: a record passes the origins it serves on to
its children, and every node it produced is linked to all of them. Serving an origin, adopting a child,
producing a node and opening a record keep it so.
-/
namespace SmaliTrace.Slice.Worklist

variable {records : Array Record} {g bare : SliceGraph} {i j c : Nat} {o : Origin} {n p : Int}

/-- There is a record at the index, with the property. -/
def At (records : Array Record) (i : Nat) (P : Record → Prop) : Prop :=
  ∃ record, records[i]? = some record ∧ P record

/-- The record was opened for the origin. -/
def OpenedFor (records : Array Record) (i : Nat) (o : Origin) : Prop := At records i (·.origin = o)

/-- The record passes its origins on to another. -/
def Child (records : Array Record) (i j : Nat) : Prop := At records i (j ∈ ·.children)

/-- Pass-through children, any number of times. -/
abbrev Reach (records : Array Record) : Nat → Nat → Prop := Relation.ReflTransGen (Child records)

/-- The record serves the origin. -/
def Serves (records : Array Record) (i : Nat) (o : Origin) : Prop := At records i (·.serves o = true)

/-- The record has produced the node. -/
def Yields (records : Array Record) (i : Nat) (n : Int) : Prop :=
  At records i fun record => ∃ key, (n, key) ∈ record.produced

theorem serves_iff {record : Record} : record.serves o = true ↔ record.origin = o ∨ o ∈ record.pending := by
  simp [Record.serves]

theorem at_iff {record : Record} (found : records[i]? = some record) {P : Record → Prop} :
    At records i P ↔ P record := by
  simp [At, found]

theorem At.bound {P : Record → Prop} (holds : At records i P) : i < records.size := by
  obtain ⟨_, found, _⟩ := holds
  exact (Array.getElem?_eq_some_iff.mp found).1

/-! ### Changes of one record -/

section Modify

variable {record : Record} {change : Record → Record} {P : Record → Prop}

/-- A property of one record that the change only widens. -/
theorem at_modify {widened : Prop} (found : records[i]? = some record)
    (changes : P (change record) ↔ P record ∨ widened) :
    At (records.modify i change) j P ↔ At records j P ∨ (j = i ∧ widened) := by
  unfold At
  rw [Array.getElem?_modify]
  by_cases here : j = i
  · subst here
    simp [found, changes]
  · have other : i ≠ j := fun same => here same.symm
    simp [here, other]

theorem at_modify_same (found : records[i]? = some record) (keeps : P (change record) ↔ P record) :
    At (records.modify i change) j P ↔ At records j P := by
  have changes : P (change record) ↔ P record ∨ False := by simpa using keeps
  rw [at_modify found changes]
  simp

theorem at_push : At (records.push record) j P ↔ At records j P ∨ (j = records.size ∧ P record) := by
  unfold At
  rw [Array.getElem?_push]
  by_cases here : j = records.size
  · subst here
    simp
  · simp [here]

end Modify

/-- Later records: none is closed, and they have produced the same nodes. -/
structure Extends (records records' : Array Record) : Prop where
  size : records.size ≤ records'.size
  opened : ∀ {i o}, OpenedFor records i o → OpenedFor records' i o
  child : ∀ {i j}, Child records i j → Child records' i j
  serves : ∀ {i o}, Serves records i o → Serves records' i o
  yields : ∀ {i n}, Yields records' i n ↔ Yields records i n

theorem Extends.refl (records : Array Record) : Extends records records := ⟨Nat.le_refl _, id, id, id, Iff.rfl⟩

theorem Extends.trans {records₁ records₂ records₃ : Array Record} (first : Extends records₁ records₂)
    (last : Extends records₂ records₃) : Extends records₁ records₃ where
  size := Nat.le_trans first.size last.size
  opened holds := last.opened (first.opened holds)
  child holds := last.child (first.child holds)
  serves holds := last.serves (first.serves holds)
  yields := last.yields.trans first.yields

theorem Extends.reach {records' : Array Record} (later : Extends records records') (path : Reach records i j) :
    Reach records' i j :=
  Relation.ReflTransGen.mono (fun _ _ => later.child) _ _ path

section Await

variable {record : Record} (found : records[i]? = some record)
include found

theorem child_await {a b : Nat} : Child (records.modify i (Record.await · o)) a b ↔ Child records a b :=
  at_modify_same found Iff.rfl

theorem serves_await {a : Nat} {q : Origin} :
    Serves (records.modify i (Record.await · o)) a q ↔ Serves records a q ∨ (a = i ∧ q = o) := by
  refine at_modify found ?_
  simp [serves_iff, Record.await, or_assoc]

theorem extends_await (o : Origin) : Extends records (records.modify i (Record.await · o)) where
  size := by simp
  opened := (at_modify_same found Iff.rfl).mpr
  child := (child_await found).mpr
  serves holds := (serves_await found).mpr (.inl holds)
  yields := at_modify_same found Iff.rfl

end Await

section Adopt

variable {record : Record} (found : records[c]? = some record)
include found

theorem child_adopt {a b : Nat} :
    Child (records.modify c fun r => { r with children := r.children ++ [i] }) a b ↔
      Child records a b ∨ (a = c ∧ b = i) := by
  refine at_modify found ?_
  simp

theorem serves_adopt {a : Nat} {q : Origin} :
    Serves (records.modify c fun r => { r with children := r.children ++ [i] }) a q ↔ Serves records a q :=
  at_modify_same found Iff.rfl

theorem extends_adopt (i : Nat) :
    Extends records (records.modify c fun r => { r with children := r.children ++ [i] }) where
  size := by simp
  opened := (at_modify_same found Iff.rfl).mpr
  child holds := (child_adopt found).mpr (.inl holds)
  serves := (serves_adopt found).mpr
  yields := at_modify_same found Iff.rfl

end Adopt

theorem serves_push {q : Origin} :
    Serves (records.push { origin := o }) j q ↔ Serves records j q ∨ (j = records.size ∧ q = o) := by
  unfold Serves
  rw [at_push, serves_iff, @eq_comm _ q]
  simp

theorem child_push : Child (records.push { origin := o }) i j ↔ Child records i j := by
  unfold Child
  rw [at_push]
  simp

theorem extends_push (records : Array Record) (o : Origin) : Extends records (records.push { origin := o }) where
  size := by simp
  opened holds := at_push.mpr (.inl holds)
  child := child_push.mpr
  serves holds := serves_push.mpr (.inl holds)
  yields := by
    intro i n
    unfold Yields
    rw [at_push]
    simp

/-! ### Linking what was produced -/

theorem pred_linkProduced {key : EdgeKey} {a : Int} :
    (linkProduced g o (a, key)).Pred n p ↔ g.Pred n p ∨ (n = a ∧ g.Live a ∧ o.node = some p ∧ p ≠ n) := by
  unfold linkProduced
  split
  · next own =>
    refine ⟨.inl, ?_⟩
    rintro (old | ⟨rfl, _, isOrigin, other⟩)
    · exact old
    · rw [isOrigin] at own
      exact absurd (Option.some.inj own).symm other
  · exact SliceGraph.pred_link

theorem live_linkProduced {entry : NodeId × EdgeKey} {a : Int} :
    (linkProduced g o entry).Live a ↔ g.Live a :=
  SliceGraph.live_congr (lines_foldl_linkProduced o [entry] g)

/-- All that a record has produced is linked to an origin. -/
theorem pred_foldl_produced {produced : List (NodeId × EdgeKey)} :
    (produced.foldl (linkProduced · o) g).Pred n p ↔
      g.Pred n p ∨ ((∃ key, (n, key) ∈ produced) ∧ g.Live n ∧ o.node = some p ∧ p ≠ n) := by
  induction produced generalizing g with
  | nil => simp
  | cons entry produced ih =>
    obtain ⟨a, key⟩ := entry
    rw [List.foldl_cons, ih, pred_linkProduced, live_linkProduced, or_assoc]
    refine or_congr_right ?_
    simp only [List.mem_cons, Prod.mk.injEq, exists_or]
    constructor
    · rintro (⟨rfl, rest⟩ | ⟨made, rest⟩)
      · exact ⟨.inl ⟨key, rfl, rfl⟩, rest⟩
      · exact ⟨.inr made, rest⟩
    · rintro ⟨⟨_, rfl, _⟩ | made, rest⟩
      · exact .inl ⟨rfl, rest⟩
      · exact .inr ⟨made, rest⟩

/-- A node is linked to all origins that wait. -/
theorem pred_foldl_pending {a : Int} {key : EdgeKey} {pending : List Origin} :
    (pending.foldl (fun g o => linkProduced g o (a, key)) g).Pred n p ↔
      g.Pred n p ∨ (n = a ∧ g.Live a ∧ ∃ o ∈ pending, o.node = some p ∧ p ≠ n) := by
  induction pending generalizing g with
  | nil => simp
  | cons o pending ih =>
    rw [List.foldl_cons, ih, pred_linkProduced, live_linkProduced, or_assoc]
    refine or_congr_right ?_
    simp only [List.mem_cons, exists_eq_or_imp]
    constructor
    · rintro (⟨same, live, here⟩ | ⟨same, live, later⟩)
      · exact ⟨same, live, .inl here⟩
      · exact ⟨same, live, .inr later⟩
    · rintro ⟨same, live, here | later⟩
      · exact .inl ⟨same, live, here⟩
      · exact .inr ⟨same, live, later⟩

/-! ### The invariant -/

/-- Origins are passed on and linked. `asked` are the requests, by the records that they led to; `bare` is
the graph with the edges of the searches alone. A child may still owe an origin of its parent. -/
structure Coherent (asked owed : Nat → Origin → Prop) (bare : SliceGraph) (records : Array Record)
    (g : SliceGraph) : Prop where
  inRange : ∀ {i j}, Child records i j → j < records.size
  closed : ∀ {i j o}, Child records i j → Serves records i o → Serves records j o ∨ owed j o
  sound : ∀ {j o}, Serves records j o → ∃ i, asked i o ∧ Reach records i j
  nodes : ∀ {j n}, Yields records j n → g.Live n
  lines : g.lines = bare.lines
  edges : ∀ {n p}, g.Pred n p ↔
    bare.Pred n p ∨ ∃ j o, Yields records j n ∧ Serves records j o ∧ o.node = some p ∧ p ≠ n

variable {asked asked' owed owed' : Nat → Origin → Prop}

theorem Coherent.mono (coherent : Coherent asked owed bare records g)
    (moreAsked : ∀ i o, asked i o → asked' i o) (moreOwed : ∀ i o, owed i o → owed' i o) :
    Coherent asked' owed' bare records g where
  inRange := coherent.inRange
  closed child serves := (coherent.closed child serves).imp_right (moreOwed _ _)
  sound serves := by
    obtain ⟨i, isAsked, path⟩ := coherent.sound serves
    exact ⟨i, moreAsked i _ isAsked, path⟩
  nodes := coherent.nodes
  lines := coherent.lines
  edges := coherent.edges

/-- Where nothing is owed, an origin is served along all paths. -/
theorem Coherent.serves_of_reach (coherent : Coherent asked (fun _ _ => False) bare records g)
    (serves : Serves records i o) (path : Reach records i j) : Serves records j o := by
  induction path with
  | refl => exact serves
  | tail _ child ih => exact (coherent.closed child ih).resolve_right id

/-- What is owed while an origin is served: the records on the stack owe it. -/
def OwedOn (owed : Nat → Origin → Prop) (o : Origin) (stack : List Nat) (i : Nat) (q : Origin) : Prop :=
  owed i q ∨ (i ∈ stack ∧ q = o)

/-- One record of the stack serves the origin; its children owe it then. -/
theorem Coherent.await {record : Record} {stack : List Nat} (found : records[i]? = some record)
    (reached : ∃ a, asked a o ∧ Reach records a i)
    (coherent : Coherent asked (OwedOn owed o (i :: stack)) bare records g) :
    Coherent asked (OwedOn owed o (record.children ++ stack)) bare
      (records.modify i (Record.await · o)) (record.produced.foldl (linkProduced · o) g) := by
  have later := extends_await found o
  have linesKept : (record.produced.foldl (linkProduced · o) g).lines = g.lines := lines_foldl_linkProduced ..
  refine ⟨?_, ?_, ?_, ?_, ?_, ?_⟩
  · intro a b child
    have bound := coherent.inRange ((child_await found).mp child)
    simpa using bound
  · intro a b q child serves
    have before := (child_await found).mp child
    rcases (serves_await found).mp serves with old | ⟨rfl, rfl⟩
    · rcases coherent.closed before old with served | owes | ⟨inside, rfl⟩
      · exact .inl (later.serves served)
      · exact .inr (.inl owes)
      · rcases List.mem_cons.mp inside with rfl | inside
        · exact .inl ((serves_await found).mpr (.inr ⟨rfl, rfl⟩))
        · exact .inr (.inr ⟨List.mem_append_right _ inside, rfl⟩)
    · have inside : b ∈ record.children := (at_iff found).mp before
      exact .inr (.inr ⟨List.mem_append_left _ inside, rfl⟩)
  · intro b q serves
    rcases (serves_await found).mp serves with old | ⟨rfl, rfl⟩
    · obtain ⟨a, isAsked, path⟩ := coherent.sound old
      exact ⟨a, isAsked, later.reach path⟩
    · obtain ⟨a, isAsked, path⟩ := reached
      exact ⟨a, isAsked, later.reach path⟩
  · intro b n yields
    exact (SliceGraph.live_congr linesKept).mpr (coherent.nodes (later.yields.mp yields))
  · exact linesKept.trans coherent.lines
  · intro n p
    rw [pred_foldl_produced, coherent.edges, or_assoc]
    refine or_congr_right ⟨?_, ?_⟩
    · rintro (⟨b, q, yields, serves, rest⟩ | ⟨made, _, rest⟩)
      · exact ⟨b, q, later.yields.mpr yields, later.serves serves, rest⟩
      · exact ⟨i, o, later.yields.mpr ((at_iff found).mpr made), (serves_await found).mpr (.inr ⟨rfl, rfl⟩), rest⟩
    · rintro ⟨b, q, yields, serves, rest⟩
      have before := later.yields.mp yields
      rcases (serves_await found).mp serves with old | ⟨rfl, rfl⟩
      · exact .inl ⟨b, q, before, old, rest⟩
      · exact .inr ⟨(at_iff found).mp before, coherent.nodes before, rest⟩

/-- A record that serves the origin owes it no more. -/
theorem Coherent.skip {stack : List Nat} (served : Serves records i o)
    (coherent : Coherent asked (OwedOn owed o (i :: stack)) bare records g) :
    Coherent asked (OwedOn owed o stack) bare records g where
  inRange := coherent.inRange
  closed child serves := by
    rcases coherent.closed child serves with served' | owes | ⟨inside, rfl⟩
    · exact .inl served'
    · exact .inr (.inl owes)
    · rcases List.mem_cons.mp inside with rfl | inside
      · exact .inl served
      · exact .inr (.inr ⟨inside, rfl⟩)
  sound := coherent.sound
  nodes := coherent.nodes
  lines := coherent.lines
  edges := coherent.edges

/-- Serving pays what the records on the stack owe. The stack always holds all that owe the origin, so a
cycle ends where the origin was served before. -/
theorem Coherent.serve (stack : List Nat) (inside : ∀ i ∈ stack, i < records.size)
    (reached : ∀ i ∈ stack, ∃ a, asked a o ∧ Reach records a i)
    (coherent : Coherent asked (OwedOn owed o stack) bare records g) :
    Coherent asked owed bare (serve records g o stack).1 (serve records g o stack).2 ∧
      Extends records (serve records g o stack).1 ∧ ∀ i ∈ stack, Serves (serve records g o stack).1 i o := by
  induction records, g, stack using serve.induct o with
  | case1 records g =>
    rw [Worklist.serve]
    refine ⟨coherent.mono (fun _ _ => id) ?_, .refl records, by simp⟩
    rintro i q (owes | ⟨absent, _⟩)
    · exact owes
    · simp at absent
  | case2 records g i stack bound idle ih =>
    rw [Worklist.serve, dif_pos bound, dif_pos idle]
    have found : records[i]? = some records[i] := Array.getElem?_eq_getElem bound
    have later := extends_await found o
    have step := coherent.await found (reached i (by simp))
    have inside' : ∀ j ∈ records[i].children ++ stack, j < (records.modify i (Record.await · o)).size := by
      intro j member
      rw [Array.size_modify]
      rcases List.mem_append.mp member with isChild | member
      · exact coherent.inRange (i := i) ((at_iff found).mpr isChild)
      · exact inside j (List.mem_cons_of_mem _ member)
    have reached' : ∀ j ∈ records[i].children ++ stack,
        ∃ a, asked a o ∧ Reach (records.modify i (Record.await · o)) a j := by
      intro j member
      rcases List.mem_append.mp member with isChild | member
      · obtain ⟨a, isAsked, path⟩ := reached i (by simp)
        exact ⟨a, isAsked, later.reach (path.tail ((at_iff found).mpr isChild))⟩
      · obtain ⟨a, isAsked, path⟩ := reached j (List.mem_cons_of_mem _ member)
        exact ⟨a, isAsked, later.reach path⟩
    obtain ⟨paid, extended, served⟩ := ih inside' reached' step
    refine ⟨paid, later.trans extended, ?_⟩
    intro j member
    rcases List.mem_cons.mp member with rfl | member
    · exact extended.serves ((serves_await found).mpr (.inr ⟨rfl, rfl⟩))
    · exact served j (List.mem_append_right _ member)
  | case3 records g i stack bound busy ih =>
    rw [Worklist.serve, dif_pos bound, dif_neg busy]
    have found : records[i]? = some records[i] := Array.getElem?_eq_getElem bound
    have serves : Serves records i o := (at_iff found).mpr (by simpa using busy)
    obtain ⟨paid, extended, served⟩ := ih (fun j member => inside j (List.mem_cons_of_mem _ member))
      (fun j member => reached j (List.mem_cons_of_mem _ member)) (coherent.skip serves)
    refine ⟨paid, extended, ?_⟩
    intro j member
    rcases List.mem_cons.mp member with rfl | member
    · exact extended.serves serves
    · exact served j member
  | case4 records g i stack beyond ih => exact absurd (inside i (by simp)) beyond

/-! ### Operations -/

variable {w : Worklist}

/-- The worklist keeps the invariant. -/
abbrev Sound (asked owed : Nat → Origin → Prop) (bare : SliceGraph) (w : Worklist) : Prop :=
  Coherent asked owed bare w.records w.graph

theorem sound_duplicate (inside : i < w.records.size) (reached : ∃ a, asked a o ∧ Reach w.records a i)
    (sound : Sound asked (OwedOn owed o [i]) bare w) :
    Sound asked owed bare (w.duplicate i o) ∧ Extends w.records (w.duplicate i o).records ∧
      Serves (w.duplicate i o).records i o := by
  obtain ⟨paid, extended, served⟩ := Coherent.serve [i] (by simpa using inside) (by simpa using reached) sound
  exact ⟨paid, extended, served i (by simp)⟩

/-- Serving a list of origins pays them all. -/
theorem sound_foldl_duplicate (origins : List Origin) (inside : i < w.records.size)
    (reached : ∀ o ∈ origins, ∃ a, asked a o ∧ Reach w.records a i)
    (sound : Sound asked (fun j o => owed j o ∨ (j = i ∧ o ∈ origins)) bare w) :
    Sound asked owed bare (origins.foldl (fun w o => w.duplicate i o) w) ∧
      Extends w.records (origins.foldl (fun w o => w.duplicate i o) w).records := by
  induction origins generalizing w with
  | nil =>
    refine ⟨sound.mono (fun _ _ => id) ?_, .refl _⟩
    rintro j o (owes | ⟨_, absent⟩)
    · exact owes
    · simp at absent
  | cons o origins ih =>
    have split : Sound asked (OwedOn (fun j q => owed j q ∨ (j = i ∧ q ∈ origins)) o [i]) bare w := by
      refine sound.mono (fun _ _ => id) ?_
      rintro j q (owes | ⟨rfl, member⟩)
      · exact .inl (.inl owes)
      · rcases List.mem_cons.mp member with rfl | member
        · exact .inr ⟨List.mem_singleton.mpr rfl, rfl⟩
        · exact .inl (.inr ⟨rfl, member⟩)
    obtain ⟨paid, first, _⟩ := sound_duplicate inside (reached o (by simp)) split
    obtain ⟨done, rest⟩ := ih (Nat.lt_of_lt_of_le inside first.size)
      (fun q member => by
        obtain ⟨a, isAsked, path⟩ := reached q (List.mem_cons_of_mem _ member)
        exact ⟨a, isAsked, first.reach path⟩) paid
    exact ⟨done, first.trans rest⟩

/-- A record that serves the parent's own origin owes those that wait for the parent. -/
theorem sound_adopt {record : Record} (found : w.records[c]? = some record) (inside : i < w.records.size)
    (serves : Serves w.records i record.origin) (sound : Sound asked owed bare w) :
    Sound asked (fun j o => owed j o ∨ (j = i ∧ o ∈ record.pending)) bare (w.adopt c i) := by
  have later := extends_adopt found i
  refine ⟨?_, ?_, ?_, ?_, ?_, ?_⟩
  · intro a b child
    have size : (w.adopt c i).records.size = w.records.size := by simp [adopt]
    rw [size]
    rcases (child_adopt found).mp child with old | ⟨_, rfl⟩
    · exact sound.inRange old
    · exact inside
  · intro a b q child served
    have before := (serves_adopt found).mp served
    rcases (child_adopt found).mp child with old | ⟨rfl, rfl⟩
    · exact (sound.closed old before).imp later.serves .inl
    · rcases serves_iff.mp ((at_iff found).mp before) with rfl | waits
      · exact .inl (later.serves serves)
      · exact .inr (.inr ⟨rfl, waits⟩)
  · intro b q served
    obtain ⟨a, isAsked, path⟩ := sound.sound ((serves_adopt found).mp served)
    exact ⟨a, isAsked, later.reach path⟩
  · intro b n yields
    exact sound.nodes (later.yields.mp yields)
  · exact sound.lines
  · intro n p
    refine Iff.trans sound.edges (or_congr_right ?_)
    refine exists_congr fun b => exists_congr fun q => ?_
    exact and_congr later.yields.symm (and_congr_left' (serves_adopt found).symm)

/-- Nothing is owed after a request has become a child of the item in progress. -/
theorem sound_inherit (inside : i < w.records.size) (serves : Serves w.records i o)
    (sound : Sound asked owed bare w) :
    Sound asked owed bare (w.inherit i o) ∧ Extends w.records (w.inherit i o).records := by
  rcases w.inherit_cases i o with same | ⟨c, record, _, found, rfl, grown⟩
  · rw [same]
    exact ⟨sound, .refl _⟩
  · rw [grown]
    have later := extends_adopt found i
    have adopted := sound_adopt found inside serves sound
    obtain ⟨paid, rest⟩ := sound_foldl_duplicate record.pending (Nat.lt_of_lt_of_le inside later.size) (by
      intro q waits
      obtain ⟨a, isAsked, path⟩ := sound.sound ((at_iff found).mpr (serves_iff.mpr (.inr waits)))
      exact ⟨a, isAsked, (later.reach path).tail ((child_adopt found).mpr (.inr ⟨rfl, rfl⟩))⟩) adopted
    exact ⟨paid, later.trans rest⟩

/-- The requests with one more. -/
def AskedAlso (asked : Nat → Origin → Prop) (i : Nat) (o : Origin) (j : Nat) (q : Origin) : Prop :=
  asked j q ∨ (j = i ∧ q = o)

/-- A repeated request is served by the item made before. -/
theorem sound_repeat (inside : i < w.records.size) (o : Origin) (sound : Sound asked owed bare w) :
    Sound (AskedAlso asked i o) owed bare ((w.duplicate i o).inherit i o) ∧
      Extends w.records ((w.duplicate i o).inherit i o).records ∧
      Serves ((w.duplicate i o).inherit i o).records i o := by
  have widened : Sound (AskedAlso asked i o) (OwedOn owed o [i]) bare w :=
    sound.mono (fun _ _ => .inl) (fun _ _ => .inl)
  obtain ⟨paid, first, served⟩ := sound_duplicate inside ⟨i, .inr ⟨rfl, rfl⟩, .refl⟩ widened
  obtain ⟨passed, last⟩ := sound_inherit (Nat.lt_of_lt_of_le inside first.size) served paid
  exact ⟨passed, first.trans last, last.serves served⟩

theorem sound_push (o : Origin) (sound : Sound asked owed bare w) :
    Coherent (AskedAlso asked w.records.size o) owed bare (w.records.push { origin := o }) w.graph := by
  have later := extends_push w.records o
  refine ⟨?_, ?_, ?_, ?_, sound.lines, ?_⟩
  · intro a b child
    exact Nat.lt_of_lt_of_le (sound.inRange (child_push.mp child)) later.size
  · intro a b q child serves
    rcases serves_push.mp serves with old | ⟨rfl, _⟩
    · exact (sound.closed (child_push.mp child) old).imp_left later.serves
    · exact absurd (child_push.mp child).bound (Nat.lt_irrefl _)
  · intro b q serves
    rcases serves_push.mp serves with old | ⟨rfl, rfl⟩
    · obtain ⟨a, isAsked, path⟩ := sound.sound old
      exact ⟨a, .inl isAsked, later.reach path⟩
    · exact ⟨w.records.size, .inr ⟨rfl, rfl⟩, .refl⟩
  · intro b n yields
    exact sound.nodes (later.yields.mp yields)
  · intro n p
    refine Iff.trans sound.edges (or_congr_right ⟨?_, ?_⟩)
    · rintro ⟨b, q, yields, serves, rest⟩
      exact ⟨b, q, later.yields.mpr yields, later.serves serves, rest⟩
    · rintro ⟨b, q, yields, serves, rest⟩
      have before := later.yields.mp yields
      rcases serves_push.mp serves with old | ⟨rfl, _⟩
      · exact ⟨b, q, before, old, rest⟩
      · exact absurd before.bound (Nat.lt_irrefl _)

/-- A first request opens a record. -/
theorem sound_opened (key : ItemKey) (o : Origin) (sound : Sound asked owed bare w) :
    Sound (AskedAlso asked w.records.size o) owed bare (w.opened key o) ∧
      Extends w.records (w.opened key o).records ∧ OpenedFor (w.opened key o).records w.records.size o := by
  have first := extends_push w.records o
  have served : Serves (w.records.push { origin := o }) w.records.size o := serves_push.mpr (.inr ⟨rfl, rfl⟩)
  obtain ⟨passed, last⟩ := sound_inherit (w := { w with
    records := w.records.push { origin := o }
    done := w.done.insert key w.records.size }) (by simp) served (sound_push o sound)
  exact ⟨passed, first.trans last, last.opened (at_push.mpr (.inr ⟨rfl, rfl⟩))⟩

section Produce

variable {record : Record} {a : Int} {key : EdgeKey}

theorem produce_eq (current : w.current = some c) (found : w.records[c]? = some record) :
    w.produce a key = { w with
      records := w.records.modify c fun r => { r with produced := r.produced ++ [(a, key)] }
      graph := record.pending.foldl (fun g o => linkProduced g o (a, key)) w.graph } := by
  simp [produce, current, found]

variable (current : w.current = some c) (found : w.records[c]? = some record)
include current found

theorem opened_produce : OpenedFor (w.produce a key).records i o ↔ OpenedFor w.records i o := by
  rw [produce_eq current found]
  exact at_modify_same found Iff.rfl

theorem child_produce : Child (w.produce a key).records i j ↔ Child w.records i j := by
  rw [produce_eq current found]
  exact at_modify_same found Iff.rfl

theorem serves_produce : Serves (w.produce a key).records i o ↔ Serves w.records i o := by
  rw [produce_eq current found]
  exact at_modify_same found Iff.rfl

theorem yields_produce : Yields (w.produce a key).records i n ↔ Yields w.records i n ∨ (i = c ∧ n = a) := by
  rw [produce_eq current found]
  refine at_modify found ?_
  simp [exists_or]

/-- A node that the search has linked to the origin of its item is linked to all that wait. -/
theorem sound_produce (live : w.graph.Live a)
    (linked : ∀ p, record.origin.node = some p → a = p ∨ w.graph.Pred a p) (sound : Sound asked owed bare w) :
    Sound asked owed bare (w.produce a key) := by
  have kept := (relinked_produce w a key).lines
  have sameChild : Child (w.produce a key).records = Child w.records := by
    funext i j
    exact propext (child_produce current found)
  refine ⟨?_, ?_, ?_, ?_, kept.trans sound.lines, ?_⟩
  · intro i j child
    have bound := sound.inRange ((child_produce current found).mp child)
    rw [produce_eq current found]
    simpa using bound
  · intro i j q child serves
    have before := (serves_produce current found).mp serves
    refine (sound.closed ((child_produce current found).mp child) before).imp_left ?_
    exact (serves_produce current found).mpr
  · intro j q serves
    rw [Reach, sameChild]
    exact sound.sound ((serves_produce current found).mp serves)
  · intro j n yields
    rw [SliceGraph.live_congr kept]
    rcases (yields_produce current found).mp yields with old | ⟨_, rfl⟩
    · exact sound.nodes old
    · exact live
  · intro n p
    have graph : (w.produce a key).graph =
        record.pending.foldl (fun g o => linkProduced g o (a, key)) w.graph := by
      rw [produce_eq current found]
    rw [graph, pred_foldl_pending]
    constructor
    · rintro (old | ⟨rfl, _, q, waits, rest⟩)
      · refine (sound.edges.mp old).imp_right ?_
        rintro ⟨j, q, yields, serves, rest⟩
        exact ⟨j, q, (yields_produce current found).mpr (.inl yields),
          (serves_produce current found).mpr serves, rest⟩
      · have serves : Serves w.records c q := (at_iff found).mpr (serves_iff.mpr (.inr waits))
        exact .inr ⟨c, q, (yields_produce current found).mpr (.inr ⟨rfl, rfl⟩),
          (serves_produce current found).mpr serves, rest⟩
    · rintro (old | ⟨j, q, yields, serves, isOrigin, other⟩)
      · exact .inl (sound.edges.mpr (.inl old))
      · have before := (serves_produce current found).mp serves
        rcases (yields_produce current found).mp yields with old | ⟨rfl, rfl⟩
        · exact .inl (sound.edges.mpr (.inr ⟨j, q, old, before, isOrigin, other⟩))
        · rcases serves_iff.mp ((at_iff found).mp before) with rfl | waits
          · exact .inl ((linked p isOrigin).resolve_left other.symm)
          · exact .inr ⟨rfl, live, q, waits, isOrigin, other⟩

end Produce

/-- The search itself may change the graph. -/
theorem Coherent.edit {g' bare' : SliceGraph} {added : Int → Int → Prop} (grown : g.lines <+: g'.lines)
    (lines : g'.lines = bare'.lines) (edges : ∀ n p, g'.Pred n p ↔ g.Pred n p ∨ added n p)
    (bareEdges : ∀ n p, bare'.Pred n p ↔ bare.Pred n p ∨ added n p)
    (coherent : Coherent asked owed bare records g) : Coherent asked owed bare' records g' where
  inRange := coherent.inRange
  closed := coherent.closed
  sound := coherent.sound
  nodes yields := SliceGraph.live_of_prefix grown (coherent.nodes yields)
  lines := lines
  edges := by
    intro n p
    rw [edges, bareEdges, coherent.edges, or_right_comm]

end SmaliTrace.Slice.Worklist
