import SmaliTrace.Proofs.Slice.Performed

/-!
A search takes turns. In each it takes the next item off its queue and performs it, until nothing waits, an
item fails, or a limit is reached. What every turn keeps holds in the end, however the search ends.
-/
namespace SmaliTrace.Slice
open SmaliTrace.Smali SmaliTrace.ClassFile

variable {x : Context} {σ τ ρ : State} {item : Item} {w : Worklist}

/-! ### Running single actions -/

@[simp] theorem exec_pure {α : Type} (v : α) (σ : State) : exec (pure v : SearchM α) σ = (.ok v, σ) := rfl

@[simp] theorem exec_get (σ : State) : exec (get : SearchM State) σ = (.ok σ, σ) := rfl

@[simp] theorem exec_set (τ σ : State) : exec (set τ : SearchM PUnit) σ = (.ok (), τ) := rfl

@[simp] theorem exec_onWork {α : Type} (f : Worklist → Worklist × α) (σ : State) :
    exec (onWork f) σ = (.ok (f σ.work).2, { σ with work := (f σ.work).1 }) := rfl

/-! ### Taking items -/

/-- The items that wait, in the order they are taken. -/
def Worklist.waiting (w : Worklist) : List Item :=
  w.registers.map .register ++ (w.fields.map (.content .field) ++
    (w.arrays.map (.content .array) ++ w.results.map (.content .result)))

theorem Worklist.isFinished_iff : w.isFinished = true ↔ w.waiting = [] := by
  simp [Worklist.isFinished, Worklist.waiting, and_assoc]

/-- The next item, and the state without it. -/
def State.take? (σ : State) : Option (Item × State) :=
  match σ.work.popRegister? with
  | some (r, work) => some (.register r, { σ with work := work })
  | none => (nextContent? σ.work).map fun (kind, c, work) =>
      (.content kind c, { σ with work := work, tally := σ.tally.bump kind.counter })

/-- The item was the first to wait; apart from it, only the counters and the item in progress change. -/
structure Took (item : Item) (σ ρ : State) : Prop where
  waiting : σ.work.waiting = item :: ρ.work.waiting
  graph : ρ.work.graph = σ.work.graph
  done : ρ.work.done = σ.work.done
  completed : ρ.work.completed = σ.work.completed
  constants : ρ.constants = σ.constants
  records : ρ.work.records = σ.work.records

theorem nextContent?_cases (w : Worklist) :
    (nextContent? w = none ∧ w.fields = [] ∧ w.arrays = [] ∧ w.results = []) ∨
      ∃ kind c w', nextContent? w = some (kind, c, w') ∧
        w.fields.map (Item.content .field) ++
            (w.arrays.map (Item.content .array) ++ w.results.map (Item.content .result)) =
          Item.content kind c :: (w'.fields.map (Item.content .field) ++
            (w'.arrays.map (Item.content .array) ++ w'.results.map (Item.content .result))) ∧
        w'.registers = w.registers ∧ w'.graph = w.graph ∧ w'.done = w.done ∧ w'.completed = w.completed ∧
          w'.records = w.records := by
  simp only [nextContent?, List.findSome?_cons, List.findSome?_nil, Worklist.popContent?]
  cases fields : w.fields with
  | cons c rest => exact .inr ⟨.field, c, _, rfl, by simp, rfl, rfl, rfl, rfl, rfl⟩
  | nil =>
    cases arrays : w.arrays with
    | cons c rest => exact .inr ⟨.array, c, _, rfl, by simp, rfl, rfl, rfl, rfl, rfl⟩
    | nil =>
      cases results : w.results with
      | cons c rest => exact .inr ⟨.result, c, _, rfl, by simp, rfl, rfl, rfl, rfl, rfl⟩
      | nil => exact .inl ⟨rfl, rfl, rfl, rfl⟩

/-- Registers go first, then fields, arrays and results; nothing is taken when nothing waits. -/
theorem take?_cases (σ : State) :
    (σ.take? = none ∧ σ.work.waiting = []) ∨ ∃ item ρ, σ.take? = some (item, ρ) ∧ Took item σ ρ := by
  cases registers : σ.work.registers with
  | cons r rest =>
    refine .inr ⟨.register r, _, by rw [State.take?, Worklist.popRegister?, registers], ?_⟩
    exact ⟨by simp [Worklist.waiting, registers], rfl, rfl, rfl, rfl, rfl⟩
  | nil =>
    have none : σ.work.popRegister? = none := by rw [Worklist.popRegister?, registers]
    rcases nextContent?_cases σ.work with ⟨empty, fields, arrays, results⟩ |
      ⟨kind, c, w', popped, queues, same, graph, done, completed, records⟩
    · refine .inl ⟨by rw [State.take?, none, empty]; rfl, ?_⟩
      simp [Worklist.waiting, registers, fields, arrays, results]
    · refine .inr ⟨.content kind c, _, by rw [State.take?, none, popped]; rfl, ?_⟩
      refine ⟨?_, graph, done, completed, rfl, records⟩
      simp only [Worklist.waiting, same, registers, List.map_nil, List.nil_append]
      exact queues

theorem took_of_take? (taken : σ.take? = some (item, ρ)) : Took item σ ρ := by
  rcases take?_cases σ with ⟨none, _⟩ | ⟨item', ρ', taken', took⟩
  · simp [none] at taken
  · cases taken.symm.trans taken'
    exact took

theorem takes_of_take? (taken : σ.take? = some (item, ρ)) : Takes item σ ρ := by
  unfold State.take? at taken
  split at taken
  · next r work popped =>
    cases taken
    exact takes_of_popRegister? popped
  · obtain ⟨⟨kind, c, work⟩, popped, same⟩ := Option.map_eq_some_iff.mp taken
    cases same
    obtain ⟨kind', _, popped'⟩ := List.exists_of_findSome?_eq_some popped
    obtain ⟨⟨c', work'⟩, popped', same⟩ := Option.map_eq_some_iff.mp popped'
    cases same
    exact takes_of_popContent? _ popped'

theorem finished_of_take? (nothing : σ.take? = none) : σ.work.isFinished = true := by
  rcases take?_cases σ with ⟨_, waiting⟩ | ⟨item, ρ, taken, _⟩
  · exact Worklist.isFinished_iff.mpr waiting
  · simp [nothing] at taken

theorem Took.not_isFinished (took : Took item σ ρ) : σ.work.isFinished = false := by
  cases finished : σ.work.isFinished with
  | false => rfl
  | true =>
    have waiting := took.waiting
    simp [Worklist.isFinished_iff.mp finished] at waiting

/-! ### Turns -/

/-- What is left to do when the item succeeded: a register search is counted, and the count is checked. -/
def Item.settle (x : Context) : Item → State → Except Fault Unit × State
  | register _, σ =>
    if x.options.maxCompleted < (σ.work.complete.completed : Int) then
      (.error (.searchLimit x.options.maxCompleted), { σ with work := σ.work.complete })
    else (.ok (), { σ with work := σ.work.complete })
  | content _ _, σ => (.ok (), σ)

theorem exec_performNext_of_take? (taken : σ.take? = some (item, ρ)) :
    exec (performNext x) σ =
      match exec (item.perform x) ρ with
      | (.error fault, τ) => (.error fault, τ)
      | (.ok (), τ) => item.settle x τ := by
  unfold State.take? at taken
  split at taken
  · next r work popped =>
    cases taken
    simp only [performNext, exec_bind, exec_get, popped, exec_set, Item.perform]
    rcases exec (searchRegister x r) { σ with work := work } with ⟨fault | ⟨⟩, τ⟩
    · rfl
    · simp only [exec_onWork, Item.settle]
      split
      · rfl
      · rfl
  · next none =>
    obtain ⟨⟨kind, c, work⟩, popped, same⟩ := Option.map_eq_some_iff.mp taken
    cases same
    simp only [performNext, exec_bind, exec_get, none, popped, exec_set, Item.perform]
    rcases exec (searchContent x kind c) _ with ⟨fault | ⟨⟩, τ⟩
    · rfl
    · rfl

theorem exec_drain_of_finished (budget : Nat) (finished : σ.work.isFinished = true) :
    exec (drain x budget) σ = (.ok (), σ) := by
  cases budget <;> simp [drain, exec_bind, finished]

theorem exec_drain_zero (busy : σ.work.isFinished = false) :
    exec (drain x 0) σ = (.error (.iterationLimit x.options.maxIterations), σ) := by
  simp [drain, exec_bind, busy]

theorem exec_drain_succ (budget : Nat) (busy : σ.work.isFinished = false) :
    exec (drain x (budget + 1)) σ =
      match exec (performNext x) σ with
      | (.error fault, τ) => (.error fault, τ)
      | (.ok (), τ) => exec (drain x budget) τ := by
  simp only [drain, exec_bind, exec_get, busy, Bool.not_false, if_true]
  rcases exec (performNext x) σ with ⟨fault | ⟨⟩, τ⟩
  · rfl
  · rfl

section Preserved

variable {P : State → Prop}
  (perform : ∀ item σ ρ, σ.take? = some (item, ρ) → P σ → P (exec (item.perform x) ρ).2)
  (complete : ∀ σ, P σ → P { σ with work := σ.work.complete })
include perform complete

theorem performNext_preserves (taken : σ.take? = some (item, ρ)) (start : P σ) :
    P (exec (performNext x) σ).2 := by
  have performed := perform item σ ρ taken start
  rw [exec_performNext_of_take? taken]
  rcases ran : exec (item.perform x) ρ with ⟨fault | ⟨⟩, τ⟩ <;> rw [ran] at performed
  · exact performed
  · cases item with
    | content kind c => exact performed
    | register r =>
      have counted := complete τ performed
      dsimp only [Item.settle]
      split
      · exact counted
      · exact counted

/-- What performing and counting items keep holds in the end, however draining ends. -/
theorem drain_preserves (budget : Nat) (start : P σ) : P (exec (drain x budget) σ).2 := by
  induction budget generalizing σ with
  | zero =>
    cases busy : σ.work.isFinished with
    | true => rwa [exec_drain_of_finished 0 busy]
    | false => rwa [exec_drain_zero busy]
  | succ budget ih =>
    rcases take?_cases σ with ⟨_, nothing⟩ | ⟨item, ρ, taken, took⟩
    · rwa [exec_drain_of_finished _ (Worklist.isFinished_iff.mpr nothing)]
    · have later := performNext_preserves perform complete taken start
      rw [exec_drain_succ budget (took.not_isFinished)]
      rcases ran : exec (performNext x) σ with ⟨fault | ⟨⟩, τ⟩ <;> rw [ran] at later
      · exact later
      · exact ih later

end Preserved

/-! ### Whole searches -/

/-- What a slice is asked for. -/
inductive Pattern where
  | backward (p : BackwardPattern)
  | forward (p : ForwardPattern)

/-- One search of a slice: its surroundings, the line it starts at, and what puts that line into the slice. -/
structure Search where
  context : Context
  line : LineId
  seed : SearchM Unit

namespace Search

/-- How the search ends, and the state it leaves. -/
def run (s : Search) : Except Fault Unit × State :=
  exec (do s.seed; drain s.context s.context.options.maxIterations.toNat) (startState s.context)

/-- The outcome, as the search ended. -/
def outcome (s : Search) : Outcome :=
  match s.run.1 with
  | .ok () => .completed
  | .error fault => .aborted fault

/-- What the search found. -/
def result (s : Search) : SearchResult where
  id := s.context.search
  graph := s.run.2.work.graph
  constants := sortConstants s.context.label s.run.2.constants.toList
  outcome := s.outcome

end Search

namespace Pattern

/-- What the pattern gives. -/
def slice (index : Index) (options : Options) : Pattern → Criterion
  | backward p => Slice.backward index options p
  | forward p => Slice.forward index options p

/-- The search with the given number. -/
def search? (index : Index) (options : Options) (i : Nat) : Pattern → Option Search
  | backward p => (backwardSeeds index p)[i]?.map fun line =>
      let context := backwardContext index options p i
      ⟨context, line, seedBackward context p line⟩
  | forward p => (forwardSeeds index p)[i]?.map fun seed =>
      ⟨{ index := index, options := options, search := i, forward := true, pattern := none }, seed.line.id,
        seedForward seed⟩

/-- The lines that the searches start at, in order. -/
def seedLines (index : Index) : Pattern → List LineId
  | backward p => backwardSeeds index p
  | forward p => (forwardSeeds index p).map fun seed => seed.line.id

end Pattern

theorem result_runSearch (x : Context) (pattern : String) (line : LineId) (seed : SearchM Unit) :
    (runSearch x pattern seed).result = (⟨x, line, seed⟩ : Search).result := by
  rcases ran : exec (do seed; drain x x.options.maxIterations.toNat) (startState x) with ⟨fault | ⟨⟩, τ⟩
  · have ran' : ((do seed; drain x x.options.maxIterations.toNat) : SearchM Unit).run
      { work := { maxFuzzy := x.options.maxFuzzy } } = (.error fault, τ) := ran
    simp only [runSearch, ran', Search.result, Search.outcome, Search.run, ran]
    split
    · rfl
    · rfl
  · have ran' : ((do seed; drain x x.options.maxIterations.toNat) : SearchM Unit).run
      { work := { maxFuzzy := x.options.maxFuzzy } } = (.ok (), τ) := ran
    simp only [runSearch, ran', Search.result, Search.outcome, Search.run, ran]

/-- The results of a slice are those of its searches. -/
theorem Pattern.getElem?_searches (index : Index) (options : Options) (i : Nat) (pattern : Pattern) :
    (pattern.slice index options).searches[i]? = (pattern.search? index options i).map Search.result := by
  cases pattern with
  | backward p =>
    rw [slice, Slice.getElem?_searches, search?, Option.map_map]
    congr 1
    funext line
    exact result_runSearch ..
  | forward p =>
    simp only [slice, Slice.forward, runAll, search?, List.getElem?_map, List.getElem?_zipIdx]
    cases (forwardSeeds index p)[i]? with
    | none => rfl
    | some seed => simp [result_runSearch _ _ seed.line.id]

theorem Pattern.line_search? {index : Index} {options : Options} {i : Nat} {pattern : Pattern} {s : Search}
    (found : pattern.search? index options i = some s) : (pattern.seedLines index)[i]? = some s.line := by
  cases pattern with
  | backward p =>
    obtain ⟨line, isSeed, rfl⟩ := Option.map_eq_some_iff.mp found
    exact isSeed
  | forward p =>
    obtain ⟨seed, isSeed, rfl⟩ := Option.map_eq_some_iff.mp found
    simp [seedLines, isSeed]

end SmaliTrace.Slice
