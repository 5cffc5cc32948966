import Mathlib
import SmaliTrace.Proofs.Slice.Records

/-!
Sessions: a worklist in the hands of a search that asks, pops, produces and adds to the graph in any order.
The session also keeps what happened. Whenever a repeated request comes, the edges are those that the
search made itself and one from each node to each origin that asked for it.
-/
namespace SmaliTrace.Slice
open SmaliTrace.Smali (Register)

/-- The origin is a node of the graph. -/
def Origin.Live (o : Origin) (g : SliceGraph) : Prop := ∃ p, o.node = some p ∧ g.Live p

/-- A worklist with its history: the graph that the search makes without it, the item popped last with its
origin, the requests that were not too fuzzy, and the nodes that items produced. -/
structure Session where
  work : Worklist
  bare : SliceGraph
  popped : Option (ItemKey × Origin) := none
  requests : List (ItemKey × Origin) := []
  yields : List (ItemKey × NodeId) := []

/-- What a search does with its worklist and graph. -/
inductive Event where
  | admitRegister (r : RegisterSearch)
  | admitContent (kind : Content) (c : ContentSearch)
  | popRegister
  | popContent (kind : Content)
  | produce (node : NodeId) (key : EdgeKey)
  | addNode (line : LineId) (pred : Option NodeId) (key : EdgeKey)
  | addConstant (line : LineId) (pred : Option NodeId) (register target : Register)
  | link (node : NodeId) (pred : Option NodeId) (key : EdgeKey)

namespace Session

/-- A worklist on a graph, before anything happened. -/
def start (g : SliceGraph) (maxFuzzy : Int) : Session :=
  { work := { graph := g, maxFuzzy := maxFuzzy }, bare := g }

/-- The requests after one more, which does not count when it is too fuzzy. -/
def heard (s : Session) (key : ItemKey) (fuzzy offset : Int) (o : Origin) : List (ItemKey × Origin) :=
  if s.work.tooFuzzy fuzzy offset then s.requests else s.requests ++ [(key, o)]

/-- An edit of the graph by the search itself. -/
def edit (s : Session) (change : SliceGraph → SliceGraph) : Session :=
  { s with work := { s.work with graph := change s.work.graph }, bare := change s.bare }

/-- One event. What was produced is noted for the item popped last, and edits are made in both graphs. -/
def step (s : Session) : Event → Session
  | .admitRegister r =>
    { s with work := (s.work.admitRegister r).1, requests := s.heard r.key r.fuzzy r.offset r.asks }
  | .admitContent kind c =>
    { s with work := (s.work.admitContent kind c).1, requests := s.heard (c.key kind) c.fuzzy c.offset c.asks }
  | .popRegister =>
    match s.work.popRegister? with
    | some (r, work) => { s with work := work, popped := some (r.key, r.asks) }
    | none => s
  | .popContent kind =>
    match s.work.popContent? kind with
    | some (c, work) => { s with work := work, popped := some (c.key kind, c.asks) }
    | none => s
  | .produce node key =>
    let made := s.popped.toList.map fun (item, _) => (item, node)
    { s with work := s.work.produce node key, yields := s.yields ++ made }
  | .addNode line pred key => s.edit fun g => (g.addNode line pred key).1
  | .addConstant line pred register target => s.edit fun g => (g.addConstant line pred register target).1
  | .link node pred key => s.edit fun g => g.link node pred key

/-- What the search has to see to: origins are nodes, and a node is produced for the item popped last, when
it is linked to the origin of that item. -/
def Allows (s : Session) : Event → Prop
  | .admitRegister r => r.asks.Live s.work.graph
  | .admitContent _ c => c.asks.Live s.work.graph
  | .produce node _ => ∃ k o p, s.popped = some (k, o) ∧ o.node = some p ∧
      (node = p ∨ s.work.graph.Pred node p)
  | _ => True

/-- The sessions on a graph. -/
inductive Reachable (g : SliceGraph) (maxFuzzy : Int) : Session → Prop
  | start : Reachable g maxFuzzy (.start g maxFuzzy)
  | step {s : Session} {e : Event} (before : Reachable g maxFuzzy s) (allowed : s.Allows e) :
      Reachable g maxFuzzy (s.step e)

/-- The item passes its origins on to another, at once or through others. -/
def Passes (s : Session) (k k' : ItemKey) : Prop :=
  ∃ i j, s.work.done[k]? = some i ∧ s.work.done[k']? = some j ∧ Worklist.Reach s.work.records i j

end Session

/-! ### Taking requests -/

namespace Worklist

variable {w w' : Worklist} {k key : ItemKey} {o : Origin}

/-- A record was opened for the key and the origin, which is a node. -/
def Opened (w : Worklist) (k : ItemKey) (o : Origin) : Prop :=
  ∃ i, w.done[k]? = some i ∧ OpenedFor w.records i o ∧ o.Live w.graph

/-- Taking a request off its queue makes its item the one in progress. -/
structure Pops (w : Worklist) (k : ItemKey) (o : Origin) (w' : Worklist) : Prop where
  graph : w'.graph = w.graph
  records : w'.records = w.records
  done : w'.done = w.done
  current : w'.current = w.done[k]?
  waited : Queued w k o
  queued : ∀ {k q}, Queued w' k q → Queued w k q

theorem pops_register {r : RegisterSearch} (popped : w.popRegister? = some (r, w')) :
    Pops w r.key r.asks w' := by
  unfold popRegister? at popped
  split at popped
  · simp at popped
  · next first rest queue =>
    cases popped
    refine ⟨rfl, rfl, rfl, rfl, .inl ⟨r, by simp [queue], rfl, rfl⟩, ?_⟩
    rintro k q (⟨r', member, rfl, rfl⟩ | content)
    · exact .inl ⟨r', by rw [queue]; exact List.mem_cons_of_mem _ member, rfl, rfl⟩
    · exact .inr content

theorem popContent?_cases {kind : Content} {c : ContentSearch} (popped : w.popContent? kind = some (c, w')) :
    c ∈ w.contents kind ∧ (∀ kind', w'.contents kind' ⊆ w.contents kind') ∧ w'.registers = w.registers ∧
      w'.graph = w.graph ∧ w'.records = w.records ∧ w'.done = w.done ∧ w'.current = w.done[c.key kind]? := by
  cases kind <;>
  · unfold popContent? at popped
    dsimp only at popped
    split at popped
    · simp at popped
    · next first rest queue =>
      cases popped
      refine ⟨by simp [contents, queue], fun kind' => ?_, rfl, rfl, rfl, rfl, rfl⟩
      cases kind' <;> simp [contents, queue]

theorem pops_content {kind : Content} {c : ContentSearch} (popped : w.popContent? kind = some (c, w')) :
    Pops w (c.key kind) c.asks w' := by
  obtain ⟨member, rest, registers, graph, records, done, current⟩ := popContent?_cases popped
  refine ⟨graph, records, done, current, .inr ⟨kind, c, member, rfl, rfl⟩, ?_⟩
  rintro k q (⟨r, inside, rfl, rfl⟩ | ⟨kind', c', inside, rfl, rfl⟩)
  · exact .inl ⟨r, registers ▸ inside, rfl, rfl⟩
  · exact .inr ⟨kind', c', rest kind' inside, rfl, rfl⟩

/-- A later worklist: items keep their records, and no line is lost. -/
structure Later (w w' : Worklist) : Prop where
  done : ∀ {k : ItemKey} {i : Nat}, w.done[k]? = some i → w'.done[k]? = some i
  opened : ∀ {i o}, OpenedFor w.records i o → OpenedFor w'.records i o
  lines : w.graph.lines <+: w'.graph.lines

theorem Later.live (later : Later w w') (live : o.Live w.graph) : o.Live w'.graph := by
  obtain ⟨p, isNode, live⟩ := live
  exact ⟨p, isNode, SliceGraph.live_of_prefix later.lines live⟩

theorem Opened.later (opened : Opened w k o) (later : Later w w') : Opened w' k o := by
  obtain ⟨i, found, record, live⟩ := opened
  exact ⟨i, later.done found, later.opened record, later.live live⟩

end Worklist

/-! ### The invariant -/

namespace Session
open Worklist

variable {s : Session} {w : Worklist} {key : ItemKey} {o : Origin} {i : Nat}

/-- A request with the origin led to the record. -/
def Asked (s : Session) (i : Nat) (o : Origin) : Prop := ∃ k, (k, o) ∈ s.requests ∧ s.work.done[k]? = some i

/-- The records tell what happened, and nothing is owed. -/
structure Valid (s : Session) : Prop where
  range : ∀ {k : ItemKey} {i : Nat}, s.work.done[k]? = some i → i < s.work.records.size
  queued : ∀ {k o}, Queued s.work k o → Opened s.work k o
  popped : ∀ {k o}, s.popped = some (k, o) → Opened s.work k o ∧ s.work.current = s.work.done[k]?
  origins : ∀ {k o}, (k, o) ∈ s.requests → o.Live s.work.graph
  answered : ∀ {k o}, (k, o) ∈ s.requests → ∃ i, s.work.done[k]? = some i ∧ Serves s.work.records i o
  produced : ∀ {k n}, (k, n) ∈ s.yields → ∃ j, s.work.done[k]? = some j ∧ Yields s.work.records j n
  producer : ∀ {j n}, Yields s.work.records j n → ∃ k, s.work.done[k]? = some j ∧ (k, n) ∈ s.yields
  sound : Sound s.Asked (fun _ _ => False) s.bare s.work

theorem valid_start (g : SliceGraph) (maxFuzzy : Int) : (start g maxFuzzy).Valid where
  range found := by simp [start] at found
  queued := by
    rintro k o (⟨r, absent, _⟩ | ⟨kind, c, absent, _⟩)
    · simp [start] at absent
    · cases kind <;> simp [start, contents] at absent
  popped found := by simp [start] at found
  origins absent := by simp [start] at absent
  answered absent := by simp [start] at absent
  produced absent := by simp [start] at absent
  producer yields := by simp [start, Yields, At] at yields
  sound := by
    refine ⟨?_, ?_, ?_, ?_, rfl, ?_⟩
    · simp [start, Child, At]
    · simp [start, Child, At]
    · simp [start, Serves, At]
    · simp [start, Yields, At]
    · simp [start, Yields, At]

/-- A request that is not too fuzzy, once its record serves the origin. -/
theorem Valid.request (valid : s.Valid) (later : Later s.work w) (records : Extends s.work.records w.records)
    (made : w.done[key]? = some i)
    (keys : ∀ {k : ItemKey} {j : Nat}, w.done[k]? = some j → s.work.done[k]? = some j ∨ j = i)
    (inside : i < w.records.size) (current : w.current = s.work.current) (live : o.Live s.work.graph)
    (queued : ∀ {k q}, Queued w k q → Queued s.work k q ∨ Opened w k q) (serves : Serves w.records i o)
    (sound : Sound (AskedAlso s.Asked i o) (fun _ _ => False) s.bare w) :
    Valid { s with work := w, requests := s.requests ++ [(key, o)] } where
  range found := by
    rcases keys found with old | rfl
    · exact Nat.lt_of_lt_of_le (valid.range old) records.size
    · exact inside
  queued isQueued := by
    rcases queued isQueued with old | opened
    · exact (valid.queued old).later later
    · exact opened
  popped isPopped := by
    obtain ⟨opened, isCurrent⟩ := valid.popped isPopped
    refine ⟨opened.later later, ?_⟩
    obtain ⟨j, found, _⟩ := opened
    exact current.trans (isCurrent.trans (found.trans (later.done found).symm))
  origins member := by
    rcases List.mem_append.mp member with old | new
    · exact later.live (valid.origins old)
    · cases List.mem_singleton.mp new
      exact later.live live
  answered member := by
    rcases List.mem_append.mp member with old | new
    · obtain ⟨j, found, served⟩ := valid.answered old
      exact ⟨j, later.done found, records.serves served⟩
    · cases List.mem_singleton.mp new
      exact ⟨i, made, serves⟩
  produced member := by
    obtain ⟨j, found, yields⟩ := valid.produced member
    exact ⟨j, later.done found, records.yields.mpr yields⟩
  producer yields := by
    obtain ⟨k, found, member⟩ := valid.producer (records.yields.mp yields)
    exact ⟨k, later.done found, member⟩
  sound := by
    refine sound.mono ?_ fun _ _ => id
    rintro j q (⟨k, member, found⟩ | ⟨rfl, rfl⟩)
    · exact ⟨k, List.mem_append_left _ member, later.done found⟩
    · exact ⟨key, by simp, made⟩

theorem Valid.repeated (valid : s.Valid) (found : s.work.done[key]? = some i) (live : o.Live s.work.graph) :
    Valid { s with work := (s.work.duplicate i o).inherit i o, requests := s.requests ++ [(key, o)] } := by
  have relinked := (relinked_duplicate s.work i o).trans (relinked_inherit (s.work.duplicate i o) i o)
  obtain ⟨sound, records, serves⟩ := sound_repeat (valid.range found) o valid.sound
  have later : Later s.work ((s.work.duplicate i o).inherit i o) :=
    ⟨by simp [relinked.done], records.opened, by simp [relinked.lines]⟩
  refine valid.request later records (later.done found) ?_ (Nat.lt_of_lt_of_le (valid.range found) records.size)
    relinked.current live (fun isQueued => .inl (relinked.queued.mp isQueued)) serves sound
  intro k j before
  rw [relinked.done] at before
  exact .inl before

theorem Valid.opened {fuzzy offset : Int} {enqueue : Worklist → Worklist} (valid : s.Valid)
    (queues : Queues key fuzzy offset o enqueue) (absent : s.work.done[key]? = none)
    (live : o.Live s.work.graph) :
    Valid { s with work := enqueue (s.work.opened key o), requests := s.requests ++ [(key, o)] } := by
  have relinked := relinked_opened s.work key o
  obtain ⟨sound, records, record⟩ := sound_opened key o valid.sound
  rw [← queues.records (s.work.opened key o)] at records record
  have done : (enqueue (s.work.opened key o)).done = s.work.done.insert key s.work.records.size :=
    (queues.done _).trans relinked.done
  have lines : (enqueue (s.work.opened key o)).graph.lines = s.work.graph.lines :=
    (congrArg SliceGraph.lines (queues.graph _)).trans relinked.lines
  have later : Later s.work (enqueue (s.work.opened key o)) := by
    refine ⟨?_, records.opened, by simp [lines]⟩
    intro k j found
    have other : key ≠ k := by
      rintro rfl
      simp [absent] at found
    rw [done, Std.HashMap.getElem?_insert]
    simpa [other] using found
  have made : (enqueue (s.work.opened key o)).done[key]? = some s.work.records.size := by simp [done]
  refine valid.request later records made ?_ record.bound ((queues.current _).trans relinked.current) live
    ?_ ?_ ?_
  · intro k j found
    rw [done, Std.HashMap.getElem?_insert] at found
    split at found
    · exact .inr (Option.some.inj found).symm
    · exact .inl found
  · intro k q isQueued
    rcases queues.queued isQueued with old | ⟨rfl, rfl⟩
    · exact .inl (relinked.queued.mp old)
    · exact .inr ⟨_, made, record, later.live live⟩
  · obtain ⟨r, found, isOrigin⟩ := record
    exact ⟨r, found, serves_iff.mpr (.inl isOrigin)⟩
  · rw [Sound, queues.records, queues.graph]
    exact sound

/-- Whether a request is refused, repeated or new, the invariant is kept. -/
theorem Valid.accept {fuzzy offset : Int} {enqueue : Worklist → Worklist} (valid : s.Valid)
    (queues : Queues key fuzzy offset o enqueue) (live : o.Live s.work.graph) :
    Valid { s with
      work := (s.work.accept key fuzzy offset o enqueue).1, requests := s.heard key fuzzy offset o } := by
  rcases s.work.accept_cases key fuzzy offset o enqueue with
    ⟨exceeds, refused⟩ | ⟨fits, i, found, linked⟩ | ⟨fits, absent, opened⟩
  · rw [refused, heard, if_pos exceeds]
    exact ⟨valid.range, valid.queued, valid.popped, valid.origins, valid.answered, valid.produced, valid.producer,
      valid.sound⟩
  · rw [linked, heard, fits]
    exact valid.repeated found live
  · rw [opened, heard, fits]
    exact valid.opened queues absent live

theorem Valid.pop (valid : s.Valid) (pops : Pops s.work key o w) :
    Valid { s with work := w, popped := some (key, o) } := by
  have later : Later s.work w := by
    refine ⟨?_, ?_, ?_⟩
    · simp [pops.done]
    · simp [pops.records]
    · simp [pops.graph]
  refine ⟨?_, ?_, ?_, fun member => later.live (valid.origins member), ?_, ?_, ?_, ?_⟩
  · intro k i
    dsimp only
    rw [pops.done, pops.records]
    exact valid.range
  · intro k q isQueued
    exact (valid.queued (pops.queued isQueued)).later later
  · rintro k q isPopped
    cases isPopped
    dsimp only
    rw [pops.done]
    exact ⟨(valid.queued pops.waited).later later, pops.current⟩
  · intro k q
    dsimp only
    rw [pops.done, pops.records]
    exact valid.answered
  · intro k n
    dsimp only
    rw [pops.done, pops.records]
    exact valid.produced
  · intro j n
    dsimp only
    rw [pops.done, pops.records]
    exact valid.producer
  · unfold Sound Asked
    dsimp only
    rw [pops.done, pops.records, pops.graph]
    exact valid.sound

theorem Valid.produce {node p : Int} (edge : EdgeKey) (valid : s.Valid) (popped : s.popped = some (key, o))
    (isOrigin : o.node = some p) (linked : node = p ∨ s.work.graph.Pred node p) :
    Valid { s with work := s.work.produce node edge, yields := s.yields ++ [(key, node)] } := by
  obtain ⟨⟨c, made, ⟨record, found, rfl⟩, q, isNode, live⟩, current⟩ := valid.popped popped
  have current : s.work.current = some c := current.trans made
  have nodeLive : s.work.graph.Live node := by
    rcases linked with rfl | pred
    · cases isNode.symm.trans isOrigin
      exact live
    · exact SliceGraph.live_of_pred pred
  have relinked := relinked_produce s.work node edge
  have later : Later s.work (s.work.produce node edge) :=
    ⟨by simp [relinked.done], (opened_produce current found).mpr, by simp [relinked.lines]⟩
  have size : (s.work.produce node edge).records.size = s.work.records.size := by
    simp [produce_eq current found]
  refine ⟨?_, ?_, ?_, fun member => later.live (valid.origins member), ?_, ?_, ?_, ?_⟩
  · intro k i found
    rw [size]
    exact valid.range (relinked.done ▸ found)
  · intro k q isQueued
    exact (valid.queued (relinked.queued.mp isQueued)).later later
  · intro k q isPopped
    obtain ⟨opened, isCurrent⟩ := valid.popped isPopped
    refine ⟨opened.later later, ?_⟩
    dsimp only
    rw [relinked.done]
    exact relinked.current.trans isCurrent
  · intro k q member
    obtain ⟨i, found', serves⟩ := valid.answered member
    exact ⟨i, later.done found', (serves_produce current found).mpr serves⟩
  · intro k n member
    rcases List.mem_append.mp member with old | new
    · obtain ⟨j, found', yields⟩ := valid.produced old
      exact ⟨j, later.done found', (yields_produce current found).mpr (.inl yields)⟩
    · cases List.mem_singleton.mp new
      exact ⟨c, later.done made, (yields_produce current found).mpr (.inr ⟨rfl, rfl⟩)⟩
  · intro j n yields
    rcases (yields_produce current found).mp yields with old | ⟨rfl, rfl⟩
    · obtain ⟨k, found', member⟩ := valid.producer old
      exact ⟨k, later.done found', List.mem_append_left _ member⟩
    · exact ⟨key, later.done made, by simp⟩
  · have sameAsked : Asked { s with
        work := s.work.produce node edge, yields := s.yields ++ [(key, node)] } = s.Asked := by
      funext i q
      simp only [Asked, relinked.done]
    rw [sameAsked]
    refine sound_produce current found nodeLive ?_ valid.sound
    intro p' isOrigin'
    cases isOrigin'.symm.trans isOrigin
    exact linked

/-! ### Edits of the graph -/

/-- The edit adds edges that depend on the lines of the graph only. -/
structure Adds (change : SliceGraph → SliceGraph) (added : List LineId → Int → Int → Prop) : Prop where
  grown : ∀ g, g.lines <+: (change g).lines
  lines : ∀ {g h : SliceGraph}, g.lines = h.lines → (change g).lines = (change h).lines
  edges : ∀ {g : SliceGraph} {n p : Int}, (change g).Pred n p ↔ g.Pred n p ∨ added g.lines n p

theorem adds_addNode (line : LineId) (pred : Option NodeId) (edge : EdgeKey) :
    Adds (fun g => (g.addNode line pred edge).1) fun lines n p =>
      n = ((lines.findIdx? (· = line)).getD lines.length : Nat) ∧ pred = some p ∧ p ≠ n where
  grown _ := (SliceGraph.lines_addNode line pred edge).1
  lines same := by rw [SliceGraph.lines_addNode_eq, SliceGraph.lines_addNode_eq, same]
  edges := by
    intro g n p
    rw [SliceGraph.pred_addNode, SliceGraph.snd_addNode]

theorem adds_addConstant (line : LineId) (pred : Option NodeId) (register target : Register) :
    Adds (fun g => (g.addConstant line pred register target).1) fun lines n p =>
      n = ((lines.findIdx? (· = line)).getD lines.length : Nat) ∧ pred = some p ∧ p ≠ n where
  grown _ := (SliceGraph.lines_addConstant line pred register target).1
  lines same := by rw [SliceGraph.lines_addConstant_eq, SliceGraph.lines_addConstant_eq, same]
  edges := by
    intro g n p
    rw [SliceGraph.pred_addConstant, SliceGraph.snd_addConstant]

theorem adds_link (node : NodeId) (pred : Option NodeId) (edge : EdgeKey) :
    Adds (fun g => g.link node pred edge) fun lines n p =>
      n = node ∧ (0 ≤ node ∧ node < lines.length) ∧ pred = some p ∧ p ≠ n where
  grown _ := by simp
  lines same := by rw [SliceGraph.lines_link, SliceGraph.lines_link, same]
  edges := by
    intro g n p
    rw [SliceGraph.pred_link, SliceGraph.Live, SliceGraph.length_lines]

theorem Valid.edit {change : SliceGraph → SliceGraph} {added : List LineId → Int → Int → Prop}
    (valid : s.Valid) (adds : Adds change added) : (s.edit change).Valid := by
  have later : Later s.work (s.edit change).work := ⟨id, id, adds.grown _⟩
  refine ⟨valid.range, ?_, ?_, fun member => later.live (valid.origins member), valid.answered, valid.produced,
    valid.producer, ?_⟩
  · intro k q isQueued
    have before : Queued s.work k q := isQueued
    exact (valid.queued before).later later
  · intro k q isPopped
    obtain ⟨opened, current⟩ := valid.popped isPopped
    exact ⟨opened.later later, current⟩
  · refine valid.sound.edit (adds.grown _) (adds.lines valid.sound.lines) (fun n p => adds.edges) fun n p => ?_
    rw [valid.sound.lines]
    exact adds.edges

/-! ### Transparency -/

theorem Valid.step {e : Event} (valid : s.Valid) (allowed : s.Allows e) : (s.step e).Valid := by
  cases e with
  | admitRegister r => exact valid.accept (queues_register r) allowed
  | admitContent kind c => exact valid.accept (queues_content kind c) allowed
  | popRegister =>
    unfold Session.step
    dsimp only
    split
    · next r w popped => exact valid.pop (pops_register popped)
    · exact valid
  | popContent kind =>
    unfold Session.step
    dsimp only
    split
    · next c w popped => exact valid.pop (pops_content popped)
    · exact valid
  | produce node edge =>
    obtain ⟨k, o, p, popped, isOrigin, linked⟩ := allowed
    have stepped : s.step (.produce node edge) =
        { s with work := s.work.produce node edge, yields := s.yields ++ [(k, node)] } := by
      simp [Session.step, popped]
    rw [stepped]
    exact valid.produce edge popped isOrigin linked
  | addNode line pred edge => exact valid.edit (adds_addNode line pred edge)
  | addConstant line pred register target => exact valid.edit (adds_addConstant line pred register target)
  | link node pred edge => exact valid.edit (adds_link node pred edge)

theorem Reachable.valid {g : SliceGraph} {maxFuzzy : Int} (reachable : Reachable g maxFuzzy s) : s.Valid := by
  induction reachable with
  | start => exact valid_start g maxFuzzy
  | step _ allowed ih => exact ih.step allowed

/-- The edge from a node to an origin that asked for it, directly or through items that passed it on. -/
def Owes (s : Session) (n p : Int) : Prop :=
  ∃ k o k', (k, o) ∈ s.requests ∧ s.Passes k k' ∧ (k', n) ∈ s.yields ∧ o.node = some p ∧ p ≠ n

theorem Valid.serves_of_passes {k k' : ItemKey} {n : Int} (valid : s.Valid) (member : (k, o) ∈ s.requests)
    (passes : s.Passes k k') (made : (k', n) ∈ s.yields) :
    ∃ j, Yields s.work.records j n ∧ Serves s.work.records j o := by
  obtain ⟨i, j, found, found', path⟩ := passes
  obtain ⟨i', sameRecord, serves⟩ := valid.answered member
  obtain ⟨j', sameRecord', yields⟩ := valid.produced made
  cases found.symm.trans sameRecord
  cases found'.symm.trans sameRecord'
  exact ⟨j, yields, valid.sound.serves_of_reach serves path⟩

/-- Repeated requests are transparent: whenever they come, every node that an item or one it passes its
origins on to has produced is linked to every origin that asked for the item. The edges of the graph are
these and those that the search made itself, whatever the order was. -/
theorem duplicates_transparent {g : SliceGraph} {maxFuzzy : Int} (reachable : Reachable g maxFuzzy s) :
    (∀ k o k' n, (k, o) ∈ s.requests → s.Passes k k' → (k', n) ∈ s.yields →
      ∃ p, o.node = some p ∧ (n = p ∨ s.work.graph.Pred n p)) ∧
    ∀ n p, s.work.graph.Pred n p ↔ s.bare.Pred n p ∨ s.Owes n p := by
  have valid := reachable.valid
  have edges : ∀ n p, s.work.graph.Pred n p ↔ s.bare.Pred n p ∨ s.Owes n p := by
    intro n p
    refine Iff.trans valid.sound.edges (or_congr_right ⟨?_, ?_⟩)
    · rintro ⟨j, o, yields, serves, rest⟩
      obtain ⟨i, ⟨k, member, found⟩, path⟩ := valid.sound.sound serves
      obtain ⟨k', found', made⟩ := valid.producer yields
      exact ⟨k, o, k', member, ⟨i, j, found, found', path⟩, made, rest⟩
    · rintro ⟨k, o, k', member, passes, made, rest⟩
      obtain ⟨j, yields, serves⟩ := valid.serves_of_passes member passes made
      exact ⟨j, o, yields, serves, rest⟩
  refine ⟨?_, edges⟩
  intro k o k' n member passes made
  obtain ⟨p, isOrigin, _⟩ := valid.origins member
  refine ⟨p, isOrigin, ?_⟩
  by_cases own : n = p
  · exact .inl own
  · have owed : s.Owes n p := ⟨k, o, k', member, passes, made, isOrigin, fun same => own same.symm⟩
    exact .inr ((edges n p).mpr (.inr owed))

/-- A request for `v0` at the top of a block. -/
def askAt (block : Nat) (origin : NodeId) : Event :=
  .admitRegister
    { register := "v0", block := ⟨default, block⟩, index := 0, origin := some origin, originRegister := "v0" }

/-- The key of these requests. -/
def keyAt (block : Nat) : ItemKey := .register "v0" ⟨default, block⟩ 0

/-- Three nodes without edges. -/
def threeNodes : SliceGraph :=
  ⟨#[⟨.body default 0, none, []⟩, ⟨.body default 1, none, []⟩, ⟨.body default 2, none, []⟩]⟩

/-- Block 1 is asked for by nodes 0 and 1, and popped. -/
def joinPopped : Session := (((start threeNodes 5).step (askAt 1 0)).step (askAt 1 1)).step .popRegister

/-- Block 1 has passed node 0 on to block 0, where node 3 is found. -/
def topFound : Session :=
  ((joinPopped.step (askAt 0 0)).step .popRegister).step (.addNode (.body default 3) (some 0) ⟨"v0", "v0"⟩)

/-- Block 0 has produced node 3, and node 2 asks for block 1. -/
def askedLate : Session := (topFound.step (.produce 3 ⟨"v0", "v0"⟩)).step (askAt 1 2)

theorem live_of_size {g : SliceGraph} {p n : Nat} (size : g.nodes.size = n) (bound : p < n) : g.Live p :=
  ⟨by omega, by omega⟩

theorem reachable_joinPopped : Reachable threeNodes 5 joinPopped := by
  have first : Reachable threeNodes 5 ((start threeNodes 5).step (askAt 1 0)) :=
    .step .start ⟨0, rfl, live_of_size rfl (n := 3) (by decide)⟩
  have size : ((start threeNodes 5).step (askAt 1 0)).work.graph.nodes.size = 3 := by cbv
  have second : Reachable threeNodes 5 (((start threeNodes 5).step (askAt 1 0)).step (askAt 1 1)) :=
    .step first ⟨1, rfl, live_of_size size (by decide)⟩
  exact .step second trivial

theorem reachable_topFound : Reachable threeNodes 5 topFound := by
  have size : joinPopped.work.graph.nodes.size = 3 := by cbv
  have passed : Reachable threeNodes 5 (joinPopped.step (askAt 0 0)) :=
    .step reachable_joinPopped ⟨0, rfl, live_of_size size (by decide)⟩
  have popped : Reachable threeNodes 5 ((joinPopped.step (askAt 0 0)).step .popRegister) := .step passed trivial
  exact .step popped trivial

theorem reachable_askedLate : Reachable threeNodes 5 askedLate := by
  have linked : topFound.work.graph.Pred 3 0 :=
    ⟨⟨.body default 3, none, [(⟨"v0", "v0"⟩, [0])]⟩, by cbv, by decide⟩
  have produced : Reachable threeNodes 5 (topFound.step (.produce 3 ⟨"v0", "v0"⟩)) :=
    .step reachable_topFound ⟨keyAt 0, ⟨some 0, "v0"⟩, 0, by cbv, rfl, .inr linked⟩
  have size : (topFound.step (.produce 3 ⟨"v0", "v0"⟩)).work.graph.nodes.size = 4 := by cbv
  exact .step produced ⟨2, rfl, live_of_size size (by decide)⟩

/-- Node 3 is linked to node 1, which asked before it was found, and to node 2, which asked after. -/
theorem askedLate_linked :
    Reachable threeNodes 5 askedLate ∧ askedLate.work.graph.Pred 3 1 ∧ askedLate.work.graph.Pred 3 2 := by
  obtain ⟨linked, -⟩ := duplicates_transparent reachable_askedLate
  have requests : askedLate.requests = [(keyAt 1, ⟨some 0, "v0"⟩), (keyAt 1, ⟨some 1, "v0"⟩),
      (keyAt 0, ⟨some 0, "v0"⟩), (keyAt 1, ⟨some 2, "v0"⟩)] := by cbv
  have yields : askedLate.yields = [(keyAt 0, 3)] := by cbv
  have found : askedLate.work.done[keyAt 1]? = some 0 := by cbv
  have found' : askedLate.work.done[keyAt 0]? = some 1 := by cbv
  have child : Child askedLate.work.records 0 1 :=
    ⟨⟨⟨some 0, "v0"⟩, [], [⟨some 1, "v0"⟩, ⟨some 2, "v0"⟩], [1]⟩, by cbv, by decide⟩
  have passes : askedLate.Passes (keyAt 1) (keyAt 0) := ⟨0, 1, found, found', .single child⟩
  have made : (keyAt 0, 3) ∈ askedLate.yields := by simp [yields]
  have before := linked (keyAt 1) ⟨some 1, "v0"⟩ (keyAt 0) 3 (by simp [requests]) passes made
  have after := linked (keyAt 1) ⟨some 2, "v0"⟩ (keyAt 0) 3 (by simp [requests]) passes made
  exact ⟨reachable_askedLate, by simpa using before, by simpa using after⟩

end Session

end SmaliTrace.Slice
