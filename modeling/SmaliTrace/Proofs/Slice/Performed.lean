import SmaliTrace.Proofs.Slice.Completeness

/-!
The work items that a search performs. An item waits from the first request for its key that passes the
fuzzy check; when a search is complete, every key that was asked for is that of an item that was performed.
-/
namespace SmaliTrace.Slice
open SmaliTrace.Smali SmaliTrace.ClassFile

/-- A unit of work. -/
inductive Item where
  | register (search : RegisterSearch)
  | content (kind : Content) (search : ContentSearch)
deriving DecidableEq, Repr

namespace Item

/-- What makes two items the same work. -/
def key : Item → ItemKey
  | register r => r.key
  | content kind c => c.key kind

/-- The fuzzy level of the item. -/
def level : Item → Int
  | register r => r.fuzzy
  | content _ c => c.fuzzy

/-- The offset that the level is checked with. -/
def offset : Item → Int
  | register r => r.offset
  | content _ c => c.offset

/-- Performs the item. -/
def perform (x : Context) : Item → SearchM Unit
  | register r => searchRegister x r
  | content kind c => searchContent x kind c

end Item

namespace Worklist

/-- The item waits in its queue. -/
def Waits (w : Worklist) : Item → Prop
  | .register r => r ∈ w.registers
  | .content kind c => c ∈ w.contents kind

/-- The item that is performed next. -/
def next? (w : Worklist) : Option Item :=
  match w.popRegister? with
  | some (r, _) => some (.register r)
  | none => (nextContent? w).map fun (kind, c, _) => .content kind c

end Worklist

/-- The items that draining the worklist performs, in order. -/
def performed (x : Context) : (budget : Nat) → State → List Item
  | 0, _ => []
  | budget + 1, σ =>
    match σ.work.next?, exec (performNext x) σ with
    | some item, (.ok (), τ) => item :: performed x budget τ
    | _, _ => []

variable {x : Context} {σ τ ρ : State} {item : Item}

/-! ### What a state gains -/

/-- Keys and the lines of the slice stay, and so do constants, if at a lower level. -/
structure Gains (σ τ : State) : Prop where
  maxFuzzy : τ.work.maxFuzzy = σ.work.maxFuzzy
  done : ∀ key, key ∈ σ.work.done → key ∈ τ.work.done
  lines : σ.work.graph.lines <+: τ.work.graph.lines
  constants : ∀ k ∈ σ.constants, ∃ k' ∈ τ.constants, k'.line = k.line ∧ k'.fuzzy ≤ k.fuzzy

namespace Gains

theorem refl (σ : State) : Gains σ σ where
  maxFuzzy := rfl
  done _ member := member
  lines := List.prefix_rfl
  constants k inside := ⟨k, inside, rfl, le_refl _⟩

theorem trans (first : Gains σ τ) (last : Gains τ ρ) : Gains σ ρ where
  maxFuzzy := last.maxFuzzy.trans first.maxFuzzy
  done key member := last.done key (first.done key member)
  lines := first.lines.trans last.lines
  constants k inside := by
    obtain ⟨k₁, inside₁, line₁, level₁⟩ := first.constants k inside
    obtain ⟨k₂, inside₂, line₂, level₂⟩ := last.constants k₁ inside₁
    exact ⟨k₂, inside₂, line₂.trans line₁, level₂.trans level₁⟩

theorem of_same (maxFuzzy : τ.work.maxFuzzy = σ.work.maxFuzzy) (done : τ.work.done = σ.work.done)
    (lines : σ.work.graph.lines <+: τ.work.graph.lines) (constants : τ.constants = σ.constants) : Gains σ τ where
  maxFuzzy := maxFuzzy
  done _ member := by rwa [done]
  lines := lines
  constants k inside := ⟨k, by rwa [constants], rfl, le_refl _⟩

theorem hasConstant (gains : Gains σ τ) {line : LineId} (found : σ.HasConstant line) : τ.HasConstant line := by
  obtain ⟨k, inside, rfl⟩ := found
  obtain ⟨k', inside', same, _⟩ := gains.constants k inside
  exact ⟨k', inside', same⟩

end Gains

/-- The constant is the same, at a level that is not higher. -/
def Constant.Lowered (k k' : Constant) : Prop := k' = { k with fuzzy := k'.fuzzy } ∧ k'.fuzzy ≤ k.fuzzy

theorem Constant.Lowered.refl (k : Constant) : k.Lowered k := ⟨rfl, le_refl _⟩

/-- What is kept stays, and the lower of two levels on a line. -/
theorem exists_lowered_keep {k₀ : Constant} (inside : k₀ ∈ σ.constants) (k : Constant) :
    ∃ k' ∈ (σ.keep k).constants, k₀.Lowered k' := by
  unfold State.keep addConstant
  split
  · next i found =>
    obtain ⟨j, atJ⟩ := Array.mem_iff_getElem?.mp inside
    by_cases same : i = j
    · refine ⟨{ k₀ with fuzzy := min k₀.fuzzy k.fuzzy }, Array.mem_of_getElem? (i := j) ?_, rfl, min_le_left ..⟩
      simp [Array.getElem?_modify, same, atJ]
    · refine ⟨k₀, Array.mem_of_getElem? (i := j) ?_, .refl k₀⟩
      simp [Array.getElem?_modify, same, atJ]
  · exact ⟨k₀, by simp [inside], .refl k₀⟩

theorem gains_keep (σ : State) (k : Constant) : Gains σ (σ.keep k) where
  maxFuzzy := rfl
  done _ member := member
  lines := List.prefix_rfl
  constants k₀ inside := by
    obtain ⟨k', kept, same, lower⟩ := exists_lowered_keep inside k
    exact ⟨k', kept, by rw [same], lower⟩

/-- Items keep waiting. A new one waits under a key that is noted, within the fuzzy ceiling, and every new key
is that of an item that waits. -/
structure Enlists (σ τ : State) : Prop extends Gains σ τ where
  waits : ∀ item, σ.work.Waits item → τ.work.Waits item
  fresh : ∀ item, τ.work.Waits item →
    σ.work.Waits item ∨ (item.key ∈ τ.work.done ∧ τ.work.tooFuzzy item.level item.offset = false)
  asked : ∀ key, key ∈ τ.work.done → key ∈ σ.work.done ∨ ∃ item, τ.work.Waits item ∧ item.key = key

namespace Enlists

theorem refl (σ : State) : Enlists σ σ where
  toGains := .refl σ
  waits _ waiting := waiting
  fresh _ waiting := .inl waiting
  asked _ member := .inl member

theorem trans (first : Enlists σ τ) (last : Enlists τ ρ) : Enlists σ ρ where
  toGains := first.toGains.trans last.toGains
  waits item waiting := last.waits item (first.waits item waiting)
  fresh item waiting := by
    rcases last.fresh item waiting with before | new
    · rcases first.fresh item before with start | ⟨keyed, fits⟩
      · exact .inl start
      · exact .inr ⟨last.done _ keyed, (tooFuzzy_congr last.maxFuzzy ..).trans fits⟩
    · exact .inr new
  asked key member := by
    rcases last.asked key member with before | waiting
    · rcases first.asked key before with start | ⟨item, waiting, same⟩
      · exact .inl start
      · exact .inr ⟨item, last.waits item waiting, same⟩
    · exact .inr waiting

end Enlists

theorem Worklist.Relinked.waits {w w' : Worklist} (relinked : Worklist.Relinked w w') :
    w'.Waits item ↔ w.Waits item := by
  cases item with
  | register r => simp only [Worklist.Waits, relinked.registers]
  | content kind c =>
    cases kind with
    | field => simp only [Worklist.Waits, Worklist.contents, relinked.fields]
    | array => simp only [Worklist.Waits, Worklist.contents, relinked.arrays]
    | result => simp only [Worklist.Waits, Worklist.contents, relinked.results]

/-- Only the graph and the links change. -/
theorem enlists_of_relinked {w : Worklist} (maxFuzzy : w.maxFuzzy = σ.work.maxFuzzy)
    (done : w.done = σ.work.done) (lines : σ.work.graph.lines <+: w.graph.lines)
    (waits : ∀ item, w.Waits item ↔ σ.work.Waits item) : Enlists σ { σ with work := w } where
  toGains := .of_same maxFuzzy done lines rfl
  waits item := (waits item).mpr
  fresh item waiting := .inl ((waits item).mp waiting)
  asked _ member := .inl (done ▸ member)

theorem enlists_accept (item : Item) {fuzzy offset : Int} {o : Origin} {enqueue : Worklist → Worklist}
    (queues : Worklist.Queues item.key fuzzy offset o enqueue)
    (level : item.level = fuzzy ∧ item.offset = offset)
    (waits : ∀ w other, (enqueue w).Waits other ↔ w.Waits other ∨ other = item) :
    Enlists σ { σ with work := (σ.work.accept item.key fuzzy offset o enqueue).1 } := by
  rcases σ.work.accept_cases item.key fuzzy offset o enqueue with
    ⟨_, refused⟩ | ⟨_, i, _, linked⟩ | ⟨fits, absent, queued⟩
  · rw [refused]
    exact enlists_of_relinked rfl rfl List.prefix_rfl fun _ => Iff.rfl
  · rw [linked]
    have relinked := (Worklist.relinked_duplicate σ.work i o).trans (Worklist.relinked_inherit _ i o)
    exact enlists_of_relinked relinked.maxFuzzy relinked.done (by rw [relinked.lines]) fun _ => relinked.waits
  · have opened := σ.work.relinked_opened item.key o
    have done := (queues.done _).trans opened.done
    have maxFuzzy := (queues.maxFuzzy _).trans opened.maxFuzzy
    have waits' : ∀ other, (enqueue (σ.work.opened item.key o)).Waits other ↔ σ.work.Waits other ∨ other = item :=
      fun other => (waits _ other).trans (or_congr_left opened.waits)
    rw [queued]
    refine ⟨⟨maxFuzzy, fun key member => ?_, ?_, ?_⟩, ?_, ?_, ?_⟩
    · simp only [done, Std.HashMap.mem_insert]
      exact .inr member
    · rw [queues.graph, opened.lines]
    · exact fun k inside => ⟨k, inside, rfl, le_refl _⟩
    · exact fun other waiting => (waits' other).mpr (.inl waiting)
    · intro other waiting
      refine ((waits' other).mp waiting).imp_right ?_
      rintro rfl
      rw [level.1, level.2]
      refine ⟨?_, (tooFuzzy_congr maxFuzzy ..).trans fits⟩
      simp [done]
    · intro key member
      simp only [done, Std.HashMap.mem_insert, beq_iff_eq] at member
      rcases member with same | before
      · exact .inr ⟨item, (waits' item).mpr (.inr rfl), same⟩
      · exact .inl before

theorem Worklist.waits_enqueueRegister (r : RegisterSearch) (w : Worklist) (other : Item) :
    ({ w with registers := w.registers ++ [r] } : Worklist).Waits other ↔ w.Waits other ∨ other = .register r := by
  cases other <;> simp [Worklist.Waits, Worklist.contents]

theorem Worklist.waits_enqueueContent (kind : Content) (c : ContentSearch) (w : Worklist) (other : Item) :
    (Worklist.enqueueContent kind c w).Waits other ↔ w.Waits other ∨ other = .content kind c := by
  cases other with
  | register r => simp [Worklist.Waits, Worklist.registers_enqueueContent]
  | content kind' c' =>
    cases kind <;> cases kind' <;> simp [Worklist.Waits, Worklist.contents, Worklist.enqueueContent]

theorem Edit.enlists (edit : Edit σ τ) : Enlists σ τ := by
  cases edit with
  | register r =>
    exact enlists_accept (.register r) (Worklist.queues_register r) ⟨rfl, rfl⟩ (Worklist.waits_enqueueRegister r)
  | content kind c =>
    exact enlists_accept (.content kind c) (Worklist.queues_content kind c) ⟨rfl, rfl⟩
      (Worklist.waits_enqueueContent kind c)
  | node line pred key => exact enlists_of_relinked rfl rfl (SliceGraph.lines_addNode ..).1 fun _ => Iff.rfl
  | constant line pred register target =>
    exact enlists_of_relinked rfl rfl (SliceGraph.lines_addConstant ..).1 fun _ => Iff.rfl
  | produced id key =>
    have relinked := Worklist.relinked_produce σ.work id key
    exact enlists_of_relinked relinked.maxFuzzy relinked.done (by rw [relinked.lines]) fun _ => relinked.waits
  | kept k => exact ⟨gains_keep σ k, fun _ waiting => waiting, fun _ => .inl, fun _ => .inl⟩

theorem Edits.enlists (edits : Edits σ τ) : Enlists σ τ := by
  induction edits with
  | refl => exact .refl σ
  | tail _ edit ih => exact ih.trans edit.enlists

theorem Develops.enlists {α : Type} {a : SearchM α} (develops : Develops a) {v : Except Fault α}
    (ran : exec a σ = (v, τ)) : Enlists σ τ :=
  (develops.edits ran).enlists

/-! ### Performing items -/

theorem Item.develops_perform (x : Context) (item : Item) : Develops (item.perform x) := by
  cases item with
  | register r => exact develops_searchRegister x r
  | content kind c => exact develops_searchContent x kind c

/-- The item was taken off its queue, and nothing else changed. -/
structure Takes (item : Item) (σ τ : State) : Prop where
  waited : σ.work.Waits item
  left : ∀ other, σ.work.Waits other → other = item ∨ τ.work.Waits other
  before : ∀ other, τ.work.Waits other → σ.work.Waits other
  maxFuzzy : τ.work.maxFuzzy = σ.work.maxFuzzy
  done : τ.work.done = σ.work.done
  graph : τ.work.graph = σ.work.graph
  constants : τ.constants = σ.constants

/-- Nothing is asked for and no constant is added: only the slice graph and the counters change, and the lines of
the slice stay. -/
structure Quiet (σ τ : State) : Prop where
  waits : ∀ other, τ.work.Waits other ↔ σ.work.Waits other
  maxFuzzy : τ.work.maxFuzzy = σ.work.maxFuzzy
  done : τ.work.done = σ.work.done
  lines : σ.work.graph.lines <+: τ.work.graph.lines
  constants : τ.constants = σ.constants

theorem takes_of_popRegister? {r : RegisterSearch} {work : Worklist}
    (popped : σ.work.popRegister? = some (r, work)) : Takes (.register r) σ { σ with work := work } := by
  unfold Worklist.popRegister? at popped
  split at popped
  · simp at popped
  · next rest queue =>
    cases popped
    refine ⟨by simp [Worklist.Waits, queue], fun other waiting => ?_, fun other waiting => ?_, rfl, rfl, rfl, rfl⟩
    · cases other with
      | register q => simpa [Worklist.Waits, queue] using waiting
      | content kind c => exact .inr waiting
    · cases other with
      | register q =>
        rw [Worklist.Waits, queue]
        exact List.mem_cons_of_mem r waiting
      | content kind c => exact waiting

theorem takes_of_popContent? {kind : Content} {c : ContentSearch} {work : Worklist} (tally : Tally)
    (popped : σ.work.popContent? kind = some (c, work)) :
    Takes (.content kind c) σ { σ with work := work, tally := tally } := by
  unfold Worklist.popContent? at popped
  cases kind <;>
  · dsimp only at popped
    split at popped
    · simp at popped
    · next rest queue =>
      cases popped
      refine ⟨by simp [Worklist.Waits, Worklist.contents, queue], fun other waiting => ?_, fun other waiting => ?_,
        rfl, rfl, rfl, rfl⟩
      · cases other with
        | register q => exact .inr waiting
        | content kind c => cases kind <;> simp_all [Worklist.Waits, Worklist.contents]
      · cases other with
        | register q => exact waiting
        | content kind c => cases kind <;> simp_all [Worklist.Waits, Worklist.contents]

/-- The next item is taken off its queue and performed. -/
theorem performNext_cases (ran : exec (performNext x) σ = (.ok (), τ)) (next : σ.work.next? = some item) :
    ∃ ρ ρ', Takes item σ ρ ∧ exec (item.perform x) ρ = (.ok (), ρ') ∧ Quiet ρ' τ := by
  unfold performNext at ran
  obtain ⟨_, _, got, ran⟩ := exec_bind_eq_ok_iff.mp ran
  cases got
  unfold Worklist.next? at next
  split at ran
  · next r work popped =>
    obtain ⟨_, _, taken, ran⟩ := exec_bind_eq_ok_iff.mp ran
    cases taken
    obtain ⟨_, ρ', searched, ran⟩ := exec_bind_eq_ok_iff.mp ran
    obtain ⟨_, _, counted, ran⟩ := exec_bind_eq_ok_iff.mp ran
    cases counted
    obtain ⟨_, _, got, ran⟩ := exec_bind_eq_ok_iff.mp ran
    cases got
    simp only [popped, Option.some.injEq] at next
    subst next
    refine ⟨_, ρ', takes_of_popRegister? popped, searched, ?_⟩
    split at ran
    · simp at ran
    · cases ran
      exact ⟨fun other => by cases other <;> rfl, rfl, rfl, List.prefix_rfl, rfl⟩
  · next empty =>
    simp only [empty] at next
    split at ran
    · next none => simp [none] at next
    · next kind c work popped =>
      obtain ⟨_, _, taken, ran⟩ := exec_bind_eq_ok_iff.mp ran
      cases taken
      simp only [popped, Option.map_some, Option.some.injEq] at next
      subst next
      obtain ⟨kind', _, popped'⟩ := List.exists_of_findSome?_eq_some popped
      obtain ⟨⟨c', work'⟩, popped', same⟩ := Option.map_eq_some_iff.mp popped'
      cases same
      exact ⟨_, τ, takes_of_popContent? _ popped', ran, fun _ => Iff.rfl, rfl, rfl, List.prefix_rfl, rfl⟩

/-! ### Draining the worklist -/

theorem Worklist.not_waits_of_isFinished {w : Worklist} (finished : w.isFinished = true) (item : Item) :
    ¬ w.Waits item := by
  simp only [Worklist.isFinished, Bool.and_eq_true, List.isEmpty_iff] at finished
  obtain ⟨⟨⟨registers, fields⟩, arrays⟩, results⟩ := finished
  cases item with
  | register r => simp [Worklist.Waits, registers]
  | content kind c => cases kind <;> simp [Worklist.Waits, Worklist.contents, fields, arrays, results]

theorem Worklist.exists_next?_of_not_isFinished {w : Worklist} (busy : w.isFinished = false) :
    ∃ item, w.next? = some item := by
  by_contra none
  have none : w.next? = .none := by
    cases next : w.next? with
    | none => rfl
    | some item => exact absurd ⟨item, next⟩ none
  cases registers : w.registers with
  | cons r rest => simp [Worklist.next?, Worklist.popRegister?, registers] at none
  | nil =>
    simp only [Worklist.next?, Worklist.popRegister?, registers, nextContent?, Option.map_eq_none_iff,
      List.findSome?_eq_none_iff, List.mem_cons, List.not_mem_nil, or_false, forall_eq_or_imp, forall_eq] at none
    have empty : ∀ kind, w.popContent? kind = .none → w.contents kind = [] := by
      intro kind none
      unfold Worklist.popContent? at none
      cases kind <;>
      · dsimp only at none
        split at none
        · assumption
        · simp at none
    obtain ⟨fields, arrays, results⟩ := none
    have fields : w.fields = [] := empty .field fields
    have arrays : w.arrays = [] := empty .array arrays
    have results : w.results = [] := empty .result results
    simp [Worklist.isFinished, registers, fields, arrays, results] at busy

theorem waits_of_next? {w : Worklist} (next : w.next? = some item) : w.Waits item := by
  unfold Worklist.next? at next
  split at next
  · next r rest popped =>
    cases next
    exact (takes_of_popRegister? (σ := { work := w }) popped).waited
  · obtain ⟨⟨kind, c, rest⟩, popped, rfl⟩ := Option.map_eq_some_iff.mp next
    obtain ⟨kind', _, popped'⟩ := List.exists_of_findSome?_eq_some popped
    obtain ⟨⟨c', rest'⟩, popped', same⟩ := Option.map_eq_some_iff.mp popped'
    cases same
    exact (takes_of_popContent? (σ := { work := w }) {} popped').waited

/-- Draining ends when nothing waits, and else performs the next item and goes on. -/
theorem drain_cases {budget : Nat} (ran : exec (drain x budget) σ = (.ok (), τ)) :
    (σ.work.isFinished = true ∧ τ = σ ∧ performed x budget σ = []) ∨
      ∃ rest item ρ, σ.work.next? = some item ∧ exec (performNext x) σ = (.ok (), ρ) ∧
        exec (drain x rest) ρ = (.ok (), τ) ∧ budget = rest + 1 ∧
        performed x budget σ = item :: performed x rest ρ := by
  have idle : ∀ budget, σ.work.isFinished = true → performed x budget σ = [] := by
    rintro (_ | budget) finished
    · rfl
    · have none : σ.work.next? = none := by
        cases next : σ.work.next? with
        | none => rfl
        | some item => exact absurd (waits_of_next? next) (Worklist.not_waits_of_isFinished finished item)
      simp [performed, none]
  cases budget with
  | zero =>
    obtain ⟨_, _, got, ran⟩ := exec_bind_eq_ok_iff.mp ran
    cases got
    split at ran
    · simp at ran
    · next finished =>
      cases ran
      have finished : σ.work.isFinished = true := by simpa using finished
      exact .inl ⟨finished, rfl, idle 0 finished⟩
  | succ budget =>
    obtain ⟨_, _, got, ran⟩ := exec_bind_eq_ok_iff.mp ran
    cases got
    split at ran
    · next busy =>
      obtain ⟨_, ρ, performs, rest⟩ := exec_bind_eq_ok_iff.mp ran
      obtain ⟨item, next⟩ := Worklist.exists_next?_of_not_isFinished (by simpa using busy)
      exact .inr ⟨budget, item, ρ, next, performs, rest, rfl, by simp [performed, next, performs]⟩
    · next finished =>
      cases ran
      have finished : σ.work.isFinished = true := by simpa using finished
      exact .inl ⟨finished, rfl, idle _ finished⟩

/-- What every item keeps holds in the end, when nothing waits. -/
theorem drain_invariant {P : State → Prop} {budget : Nat} (ran : exec (drain x budget) σ = (.ok (), τ))
    (start : P σ) (step : ∀ item ∈ performed x budget σ, ∀ ρ ρ', ρ.work.next? = some item →
      exec (performNext x) ρ = (.ok (), ρ') → P ρ → P ρ') :
    P τ ∧ ∀ item, ¬ τ.work.Waits item := by
  induction budget generalizing σ with
  | zero =>
    rcases drain_cases ran with ⟨finished, rfl, _⟩ | ⟨rest, _, _, _, _, _, impossible, _⟩
    · exact ⟨start, Worklist.not_waits_of_isFinished finished⟩
    · omega
  | succ budget ih =>
    rcases drain_cases ran with ⟨finished, rfl, _⟩ | ⟨rest, item, ρ, next, first, later, same, items⟩
    · exact ⟨start, Worklist.not_waits_of_isFinished finished⟩
    · cases same
      rw [items] at step
      refine ih later (step item (by simp) σ ρ next first start) fun item inside => step item (by simp [inside])

/-- Every item that waits is noted, and within the fuzzy ceiling. -/
def Ready (σ : State) : Prop :=
  ∀ item, σ.work.Waits item → item.key ∈ σ.work.done ∧ σ.work.tooFuzzy item.level item.offset = false

theorem Ready.enlists (ready : Ready σ) (enlists : Enlists σ τ) : Ready τ := by
  intro item waiting
  rcases enlists.fresh item waiting with before | new
  · obtain ⟨keyed, fits⟩ := ready item before
    exact ⟨enlists.done _ keyed, (tooFuzzy_congr enlists.maxFuzzy ..).trans fits⟩
  · exact new

theorem Takes.gains (takes : Takes item σ τ) : Gains σ τ :=
  .of_same takes.maxFuzzy takes.done (by rw [takes.graph]) takes.constants

theorem Quiet.gains (quiet : Quiet σ τ) : Gains σ τ :=
  .of_same quiet.maxFuzzy quiet.done quiet.lines quiet.constants

theorem Ready.performNext (ready : Ready σ) (next : σ.work.next? = some item)
    (ran : exec (performNext x) σ = (.ok (), τ)) : Ready τ := by
  obtain ⟨ρ, ρ', takes, performs, quiet⟩ := performNext_cases ran next
  have taken : Ready ρ := by
    intro other waiting
    obtain ⟨keyed, fits⟩ := ready other (takes.before other waiting)
    exact ⟨by rwa [takes.done], (tooFuzzy_congr takes.maxFuzzy ..).trans fits⟩
  have done := taken.enlists ((item.develops_perform x).enlists performs)
  intro other waiting
  obtain ⟨keyed, fits⟩ := done other ((quiet.waits other).mp waiting)
  exact ⟨by rwa [quiet.done], (tooFuzzy_congr quiet.maxFuzzy ..).trans fits⟩

theorem gains_of_drain {budget : Nat} (ran : exec (drain x budget) σ = (.ok (), τ)) : Gains σ τ := by
  refine (drain_invariant (P := Gains σ) ran (.refl σ) fun item _ ρ ρ' next performs before => ?_).1
  obtain ⟨_, _, takes, performs, quiet⟩ := performNext_cases performs next
  have middle := (item.develops_perform x).enlists performs
  exact ((before.trans takes.gains).trans middle.toGains).trans quiet.gains

/-- Every item of a drained worklist ran to its end, and what it gained is there in the end. -/
theorem ran_of_mem_performed {budget : Nat} (ready : Ready σ) (ran : exec (drain x budget) σ = (.ok (), τ))
    (inside : item ∈ performed x budget σ) :
    ∃ ρ ρ', exec (item.perform x) ρ = (.ok (), ρ') ∧ Gains σ ρ ∧ Gains ρ' τ ∧ item.key ∈ ρ.work.done ∧
      ρ.work.tooFuzzy item.level item.offset = false := by
  induction budget generalizing σ with
  | zero => simp [performed] at inside
  | succ budget ih =>
    rcases drain_cases ran with ⟨_, _, none⟩ | ⟨rest, first, π, next, performs, later, same, items⟩
    · simp [none] at inside
    · cases same
      obtain ⟨ρ, ρ', takes, performs', quiet⟩ := performNext_cases performs next
      have gains := gains_of_drain later
      rw [items] at inside
      rcases List.mem_cons.mp inside with rfl | inside
      · obtain ⟨keyed, fits⟩ := ready item takes.waited
        exact ⟨ρ, ρ', performs', takes.gains, quiet.gains.trans gains, by rwa [takes.done],
          (tooFuzzy_congr takes.maxFuzzy ..).trans fits⟩
      · obtain ⟨ρ₁, ρ₁', performs₁, before, after, keyed, fits⟩ :=
          ih (ready.performNext next performs) later inside
        have start : Gains σ π :=
          (takes.gains.trans ((first.develops_perform x).enlists performs').toGains).trans quiet.gains
        exact ⟨ρ₁, ρ₁', performs₁, start.trans before, after, keyed, fits⟩

/-- Every item that waits is performed. -/
theorem mem_performed_of_waits {budget : Nat} (waiting : σ.work.Waits item)
    (ran : exec (drain x budget) σ = (.ok (), τ)) : item ∈ performed x budget σ := by
  have invariant := drain_invariant (P := fun ρ => item ∈ performed x budget σ ∨ ρ.work.Waits item) ran
    (.inr waiting) ?_
  · obtain ⟨done | waiting, empty⟩ := invariant
    · exact done
    · exact absurd waiting (empty item)
  · rintro other inside ρ ρ' next performs (done | waiting)
    · exact .inl done
    · obtain ⟨π, π', takes, performs', quiet⟩ := performNext_cases performs next
      rcases takes.left item waiting with rfl | waiting
      · exact .inl inside
      · exact .inr ((quiet.waits item).mpr (((other.develops_perform x).enlists performs').waits item waiting))

/-- Every key that was asked for is that of an item that was performed. -/
theorem exists_performed_of_done {budget : Nat}
    (start : ∀ key, key ∈ σ.work.done → ∃ item, σ.work.Waits item ∧ item.key = key)
    (ran : exec (drain x budget) σ = (.ok (), τ)) {key : ItemKey} (asked : key ∈ τ.work.done) :
    ∃ item ∈ performed x budget σ, item.key = key := by
  have invariant := drain_invariant (P := fun ρ => ∀ key, key ∈ ρ.work.done →
    (∃ item ∈ performed x budget σ, item.key = key) ∨ ∃ item, ρ.work.Waits item ∧ item.key = key) ran
    (fun key member => .inr (start key member)) ?_
  · obtain ⟨followed, empty⟩ := invariant
    rcases followed key asked with done | ⟨item, waiting, _⟩
    · exact done
    · exact absurd waiting (empty item)
  · intro item inside ρ ρ' next performs followed key member
    obtain ⟨π, π', takes, performs', quiet⟩ := performNext_cases performs next
    have enlists := (item.develops_perform x).enlists performs'
    rw [quiet.done] at member
    rcases enlists.asked key member with before | ⟨other, waiting, same⟩
    · rw [takes.done] at before
      rcases followed key before with done | ⟨other, waiting, same⟩
      · exact .inl done
      · rcases takes.left other waiting with rfl | waiting
        · exact .inl ⟨other, inside, same⟩
        · exact .inr ⟨other, (quiet.waits other).mpr (enlists.waits other waiting), same⟩
    · exact .inr ⟨other, (quiet.waits other).mpr waiting, same⟩

/-! ### Whole searches -/

/-- A search that ran to its end: every item it performed succeeded, and every key it asked for is that of an
item. -/
structure Drained (x : Context) (items : List Item) (τ : State) : Prop where
  ran : ∀ item ∈ items, ∃ ρ ρ', exec (item.perform x) ρ = (.ok (), ρ') ∧
    ρ.work.maxFuzzy = x.options.maxFuzzy ∧ Gains ρ' τ ∧ item.key ∈ τ.work.done ∧
    ρ.work.tooFuzzy item.level item.offset = false
  asked : ∀ key, key ∈ τ.work.done → ∃ item ∈ items, item.key = key

theorem not_waits_startState (x : Context) (item : Item) : ¬ (startState x).work.Waits item := by
  cases item with
  | register r => simp [Worklist.Waits, startState]
  | content kind c => cases kind <;> simp [Worklist.Waits, Worklist.contents, startState]

/-- A seed and the draining of its worklist that both succeed make a whole search. -/
theorem drained_of_ran {seed : SearchM Unit} {budget : Nat} (develops : Develops seed)
    (ran : exec (do seed; drain x budget) (startState x) = (.ok (), τ)) :
    ∃ σ, exec seed (startState x) = (.ok (), σ) ∧ Ready σ ∧ exec (drain x budget) σ = (.ok (), τ) ∧
      Drained x (performed x budget σ) τ := by
  obtain ⟨_, σ, seeded, drained⟩ := exec_bind_eq_ok_iff.mp ran
  have enlists := develops.enlists seeded
  have ready : Ready σ := Ready.enlists (fun item waiting => absurd waiting (not_waits_startState _ item)) enlists
  have start : ∀ key, key ∈ σ.work.done → ∃ item, σ.work.Waits item ∧ item.key = key := by
    intro key member
    rcases enlists.asked key member with before | waiting
    · simp [startState] at before
    · exact waiting
  refine ⟨σ, seeded, ready, drained, fun item inside => ?_, fun key asked => ?_⟩
  · obtain ⟨ρ, ρ', performs, before, after, keyed, fits⟩ := ran_of_mem_performed ready drained inside
    have middle := (item.develops_perform x).enlists performs
    exact ⟨ρ, ρ', performs, before.maxFuzzy.trans enlists.maxFuzzy, after, after.done _ (middle.done _ keyed), fits⟩
  · exact exists_performed_of_done start drained asked

/-- The items that the search of a backward pattern with the given number and seed performs, in order. -/
def backwardItems (index : Index) (options : Options) (p : BackwardPattern) (i : Nat) (line : LineId) : List Item :=
  performed (backwardContext index options p i) options.maxIterations.toNat
    (exec (seedBackward (backwardContext index options p i) p line)
      (startState (backwardContext index options p i))).2

/-- The search that a seed asks for, from its node in the graph. -/
def seedSearch (s : Site) (register : Register) (id : Nat) : RegisterSearch where
  register := register
  block := s.blockId
  index := (s.position : Int) - 1
  origin := some (id : Int)
  originRegister := register

/-- A seed is a node of the graph, and asks for its register right above its line. -/
theorem seedBackward_cases {p : BackwardPattern} {line : LineId}
    (ran : exec (seedBackward x p line) σ = (.ok (), τ)) :
    ∃ s register, x.index.site? line = some s ∧ seedRegister? p s = some register ∧ ∃ id : Nat,
      τ = { σ with work := ((σ.work.addNode s.id none ⟨register, register⟩).1.admitRegister
        (seedSearch s register id)).1 } := by
  unfold seedBackward at ran
  split at ran
  · simp at ran
  · next s isSite =>
    obtain ⟨register, ρ₁, tracked, ran⟩ := exec_bind_eq_ok_iff.mp ran
    obtain ⟨id, ρ₂, added, admitted⟩ := exec_bind_eq_ok_iff.mp ran
    have same : ρ₁ = σ := by
      unfold seedRegister at tracked
      split at tracked
      · simp at tracked
      · cases tracked
        rfl
      · split at tracked
        · cases tracked
          rfl
        · simp at tracked
      · simp at tracked
    cases added
    cases admitted
    subst same
    exact ⟨s, register, isSite, seedRegister?_of_exec tracked, _, rfl⟩

section Completed

variable {index : Index} {options : Options} {p : BackwardPattern} {i : Nat} {result : SearchResult}

/-- The result of a completed search has the constants of its final state. -/
theorem mem_constants_of_completed {line : LineId} (completed : (runSearch (backwardContext index options p i) p.text
      (seedBackward (backwardContext index options p i) p line)).result.outcome = .completed) (k : Constant) :
    k ∈ (runSearch (backwardContext index options p i) p.text
      (seedBackward (backwardContext index options p i) p line)).result.constants ↔
        k ∈ (backwardState index options p i line).constants := by
  obtain ⟨-, -, constants⟩ := runSearch_of_completed completed
  rw [constants, sortConstants, List.mem_mergeSort, Array.mem_toList_iff]
  rfl

/-- A search whose seed and worklist succeed is completed. -/
theorem exists_completed_of_ran {line : LineId} (isSeed : (backwardSeeds index p)[i]? = some line)
    (ran : (exec (do
      seedBackward (backwardContext index options p i) p line
      drain (backwardContext index options p i) options.maxIterations.toNat)
      (startState (backwardContext index options p i))).1 = .ok ()) :
    ∃ result : SearchResult, (backward index options p).searches[i]? = some result ∧ result.outcome = .completed ∧
      ∀ k, k ∈ result.constants ↔ k ∈ (backwardState index options p i line).constants := by
  rw [getElem?_searches, isSeed]
  refine ⟨_, rfl, ?_⟩
  have completed : (runSearch (backwardContext index options p i) p.text
      (seedBackward (backwardContext index options p i) p line)).result.outcome = .completed := by
    unfold runSearch
    dsimp only
    split
    next ending _ ran' =>
      have ended : ending = .ok () := (congrArg Prod.fst ran').symm.trans ran
      rw [ended]
  exact ⟨completed, mem_constants_of_completed completed⟩

/-- The slice of a completed search is that of its final state. -/
theorem graph_of_completed {line : LineId} (found : (backward index options p).searches[i]? = some result)
    (completed : result.outcome = .completed) (isSeed : (backwardSeeds index p)[i]? = some line) :
    result.graph = (backwardState index options p i line).work.graph := by
  rw [getElem?_searches, isSeed] at found
  cases found
  exact (runSearch_of_completed completed).2.1

/-- A completed search drained its worklist, from the state that its seed left. -/
theorem drained_of_completed (found : (backward index options p).searches[i]? = some result)
    (completed : result.outcome = .completed) :
    ∃ line σ, (backwardSeeds index p)[i]? = some line ∧
      exec (seedBackward (backwardContext index options p i) p line)
        (startState (backwardContext index options p i)) = (.ok (), σ) ∧ Ready σ ∧
      exec (drain (backwardContext index options p i) options.maxIterations.toNat) σ =
        (.ok (), backwardState index options p i line) ∧
      backwardItems index options p i line =
        performed (backwardContext index options p i) options.maxIterations.toNat σ ∧
      Drained (backwardContext index options p i) (backwardItems index options p i line)
        (backwardState index options p i line) ∧
      ∀ k, k ∈ result.constants ↔ k ∈ (backwardState index options p i line).constants := by
  rw [getElem?_searches] at found
  obtain ⟨line, isSeed, rfl⟩ := Option.map_eq_some_iff.mp found
  obtain ⟨ran, -, -⟩ := runSearch_of_completed completed
  obtain ⟨σ, seeded, ready, drains, drained⟩ := drained_of_ran (develops_seedBackward ..) ran
  have items : backwardItems index options p i line =
      performed (backwardContext index options p i) options.maxIterations.toNat σ := by
    rw [backwardItems, seeded]
  exact ⟨line, σ, isSeed, seeded, ready, drains, items, items ▸ drained, mem_constants_of_completed completed⟩

end Completed

end SmaliTrace.Slice
