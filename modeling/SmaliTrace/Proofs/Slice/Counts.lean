import SmaliTrace.Proofs.Slice.Termination

/-!
What the counters count. A search counts a constant when it is new, a content item when it is taken and a register
item when it is done, and its loop turns once for each item that it takes. So whatever is sliced, one pattern after the
other, the counters are the totals of what the searches did and found.
-/
namespace SmaliTrace

/-! ### Tallies -/

theorem Number.wrap_add_wrap (m n : Int) : wrap (m + wrap n) = wrap (m + n) := by
  rw [Int.add_comm, wrap_wrap_add, Int.add_comm]

namespace Tally

/-- Each counter has counted so often, in the arithmetic of 64-bit words. -/
def Counts (t : Tally) (n : Counter → Nat) : Prop := ∀ c, t.get c = Number.wrap (n c)

variable {t u : Tally} {m n : Counter → Nat}

theorem counts_empty : Counts {} fun _ => 0 := fun c =>
  (get_empty c).trans (Number.wrap_eq (by omega) (by omega)).symm

theorem Counts.congr (counts : t.Counts m) (same : ∀ c, m c = n c) : t.Counts n := fun c => same c ▸ counts c

theorem Counts.bump (counts : t.Counts n) (d : Counter) :
    (t.bump d).Counts fun c => n c + if d = c then 1 else 0 := by
  intro c
  rw [Tally.bump, get_add]
  dsimp only
  split
  · next same =>
    rw [same, counts c, Number.wrap_wrap_add]
    rfl
  · exact counts c

theorem Counts.plus (counts : t.Counts m) (counts' : u.Counts n) : (t.plus u).Counts fun c => m c + n c := by
  intro c
  have sum : (t.plus u).get c = Number.wrap (t.get c + u.get c) := by simp [get, Tally.plus]
  rw [sum, counts c, counts' c, Number.wrap_wrap_add, Number.wrap_add_wrap]
  exact congrArg Number.wrap (Int.natCast_add _ _).symm

/-- The tallies of a list, added up. -/
theorem Counts.foldl_plus {α : Type} {l : List α} {f : α → Tally} {n : α → Counter → Nat} (counts : t.Counts m)
    (each : ∀ a ∈ l, (f a).Counts (n a)) :
    (l.foldl (fun t a => t.plus (f a)) t).Counts fun c => m c + (l.map (n · c)).sum := by
  induction l generalizing t m with
  | nil => exact counts
  | cons a l ih =>
    obtain ⟨first, rest⟩ := List.forall_mem_cons.mp each
    refine (ih (counts.plus first) rest).congr fun c => ?_
    rw [List.map_cons, List.sum_cons, Nat.add_assoc]

theorem Counts.wrap_sum (counts : t.Counts n) (cs : List Counter) :
    Number.wrap (cs.map t.get).sum = Number.wrap ((cs.map n).sum : Nat) := by
  induction cs with
  | nil => rfl
  | cons c cs ih =>
    rw [List.map_cons, List.map_cons, List.sum_cons, List.sum_cons, ← Number.wrap_add_wrap, ih, Number.wrap_add_wrap,
      counts c, Number.wrap_wrap_add]
    exact congrArg Number.wrap (Int.natCast_add _ _).symm

theorem Counts.sum_le (counts : t.Counts n) (cs : List Counter) : (cs.map t.get).sum ≤ ((cs.map n).sum : Nat) := by
  induction cs with
  | nil => exact Int.le_refl _
  | cons c cs ih =>
    have first : t.get c ≤ n c := by
      rw [counts c, Number.wrap, Number.wordCount, Int.bmod_def]
      omega
    rw [List.map_cons, List.map_cons, List.sum_cons, List.sum_cons]
    omega

theorem Counts.sum_eq (counts : t.Counts n) {cs : List Counter} (small : (cs.map n).sum < 9223372036854775808) :
    (cs.map t.get).sum = ((cs.map n).sum : Nat) := by
  induction cs with
  | nil => rfl
  | cons c cs ih =>
    rw [List.map_cons, List.sum_cons] at small
    have first : t.get c = n c := (counts c).trans (Number.wrap_eq (by omega) (by omega))
    rw [List.map_cons, List.map_cons, List.sum_cons, List.sum_cons, first, ih (by omega)]
    exact (Int.natCast_add _ _).symm

end Tally

namespace Slice

variable {x : Context} {σ τ ρ : State} {item : Item} {before : List Item} {index : Index} {options : Options}

/-! ### What a search has counted so far -/

/-- The counter of the searches for items of this kind. -/
def Item.counter : Item → Counter
  | register _ => .registerSearches
  | content kind _ => kind.counter

/-- The counters of searches for items. -/
def searchCounters : List Counter := [.registerSearches, .fieldSearches, .arraySearches, .returnSearches]

/-- Every item is counted by one of the counters. -/
theorem sum_countP_counter (items : List Item) :
    (searchCounters.map fun c => items.countP fun item => item.counter = c).sum = items.length := by
  induction items with
  | nil => rfl
  | cons item items ih =>
    have one : (searchCounters.map fun c => if item.counter = c then 1 else 0).sum = 1 := by
      rcases item with r | ⟨_ | _ | _, c⟩ <;> rfl
    simp only [searchCounters, List.map_cons, List.map_nil, List.sum_cons, List.sum_nil, List.countP_cons,
      decide_eq_true_eq, List.length_cons] at one ih ⊢
    omega

/-- What a search that took the items has counted while it runs. -/
def State.booked (before : List Item) (σ : State) (c : Counter) : Nat :=
  match c with
  | .constants => σ.constants.size
  | .fieldSearches | .arraySearches | .returnSearches => before.countP fun item => item.counter = c
  | _ => 0

theorem size_addConstant (constants : Array Constant) (k : Constant) :
    (addConstant constants k).1.size = constants.size + if (addConstant constants k).2 then 1 else 0 := by
  unfold addConstant
  split <;> simp

/-- The constants are counted, and of the items that were taken those that are content. -/
def Booked (before : List Item) (σ : State) : Prop := σ.tally.Counts (σ.booked before)

theorem Booked.edit (booked : Booked before σ) (edit : Edit σ τ) : Booked before τ := by
  cases edit with
  | kept k =>
    have size := size_addConstant σ.constants k
    unfold Booked State.keep
    dsimp only
    split
    · next isNew =>
      refine (booked.bump .constants).congr fun c => ?_
      rw [if_pos isNew] at size
      cases c <;> simp [State.booked, size]
    · next known =>
      refine booked.congr fun c => ?_
      rw [if_neg known] at size
      cases c <;> simp [State.booked, size]
  | _ => exact booked

theorem Edit.completed (edit : Edit σ τ) : τ.work.completed = σ.work.completed := by
  cases edit with
  | register r => exact (requests_ask σ (.register r)).completed
  | content kind c => exact (requests_ask σ (.content kind c)).completed
  | produced id key => exact (Worklist.rewired_produce σ.work id key).completed
  | _ => rfl

theorem Edits.booked (edits : Edits σ τ) (booked : Booked before σ) :
    Booked before τ ∧ τ.work.completed = σ.work.completed := by
  induction edits with
  | refl => exact ⟨booked, rfl⟩
  | tail _ edit ih => exact ⟨ih.1.edit edit, edit.completed.trans ih.2⟩

/-- A content item is counted when it is taken, a register item is not. -/
theorem Booked.take (booked : Booked before σ) (isTaken : σ.take? = some (item, ρ)) :
    Booked (before ++ [item]) ρ := by
  unfold State.take? at isTaken
  split at isTaken
  · next r work _ =>
    cases isTaken
    refine Tally.Counts.congr booked fun c => ?_
    cases c <;> simp [State.booked, Item.counter]
  · obtain ⟨⟨kind, content, work⟩, _, same⟩ := Option.map_eq_some_iff.mp isTaken
    cases same
    refine Tally.Counts.congr (Tally.Counts.bump booked kind.counter) fun c => ?_
    cases kind <;> cases c <;> simp [State.booked, Item.counter, Content.counter]

theorem counts_work (w : Worklist) : w.tally.Counts fun c =>
    match c with
    | .registerSearches => w.completed
    | .rejectedFuzzy => w.rejected
    | _ => 0 := by
  have zero : Number.wrap 0 = 0 := rfl
  intro c
  cases c <;> simp [Worklist.tally, Tally.get_add, zero]

/-! ### The loop -/

/-- The turns of the loop that drains the worklist, the one that it has no budget for included. -/
def ticks (x : Context) : (budget : Nat) → State → Nat
  | 0, σ => if σ.work.isFinished then 0 else 1
  | budget + 1, σ =>
    if σ.work.isFinished then 0
    else
      match exec (performNext x) σ with
      | (.ok (), τ) => ticks x budget τ + 1
      | (.error _, _) => 1

/-- A search that took more items has booked them, and has done no more register searches than it took. If none of
them failed it has done as many. -/
structure Advances (before : List Item) (items : List Item) (ending : Except Fault Unit) (σ τ : State) : Prop where
  booked : Booked (before ++ items) τ
  completed_le : τ.work.completed ≤ σ.work.completed + items.countP fun item => item.counter = .registerSearches
  completed_eq : ending = .ok () →
    τ.work.completed = σ.work.completed + items.countP fun item => item.counter = .registerSearches

theorem Advances.refl {ending : Except Fault Unit} (booked : Booked before σ) : Advances before [] ending σ σ :=
  ⟨by rwa [List.append_nil], Nat.le_refl _, fun _ => rfl⟩

theorem Advances.trans {first rest : List Item} {ending : Except Fault Unit}
    (ahead : Advances before first (.ok ()) σ ρ) (behind : Advances (before ++ first) rest ending ρ τ) :
    Advances before (first ++ rest) ending σ τ := by
  have middle := ahead.completed_eq rfl
  refine ⟨by rw [← List.append_assoc]; exact behind.booked, ?_, fun ended => ?_⟩
  · have := behind.completed_le
    rw [List.countP_append]
    omega
  · have := behind.completed_eq ended
    rw [List.countP_append]
    omega

theorem Booked.turn (booked : Booked before σ) (isTaken : σ.take? = some (item, ρ)) :
    Advances before [item] (exec (performNext x) σ).1 σ (exec (performNext x) σ).2 := by
  have taken := (took_of_take? isTaken).completed
  obtain ⟨performed, same⟩ := ((item.develops_perform x).run ρ).booked (booked.take isTaken)
  rw [taken] at same
  rw [exec_performNext_of_take? isTaken]
  rcases ran : exec (item.perform x) ρ with ⟨fault | ⟨⟩, τ⟩ <;> rw [ran] at performed same
  · exact ⟨performed, same.le.trans (Nat.le_add_right ..), nofun⟩
  · cases item with
    | content kind c =>
      have none : [Item.content kind c].countP (fun item => item.counter = .registerSearches) = 0 := by
        cases kind <;> rfl
      exact ⟨performed, by rw [none]; exact same.le, fun _ => by rw [none]; exact same⟩
    | register r =>
      have counted : τ.work.complete.completed = σ.work.completed + 1 := congrArg (· + 1) same
      dsimp only [Item.settle]
      split
      · exact ⟨performed, counted.le, fun _ => counted⟩
      · exact ⟨performed, counted.le, fun _ => counted⟩

theorem Booked.drain (booked : Booked before σ) (budget : Nat) :
    Advances before (taken x budget σ) (exec (drain x budget) σ).1 σ (exec (drain x budget) σ).2 := by
  induction budget generalizing σ before with
  | zero =>
    cases busy : σ.work.isFinished with
    | true =>
      rw [exec_drain_of_finished 0 busy]
      exact .refl booked
    | false =>
      rw [exec_drain_zero busy]
      exact .refl booked
  | succ budget ih =>
    rcases take?_cases σ with ⟨none, nothing⟩ | ⟨item, ρ, isTaken, took⟩
    · rw [exec_drain_of_finished _ (Worklist.isFinished_iff.mpr nothing), taken, none]
      exact .refl booked
    · have turned := booked.turn (x := x) isTaken
      rw [exec_drain_succ budget took.not_isFinished]
      simp only [taken, isTaken]
      rcases ran : exec (performNext x) σ with ⟨fault | ⟨⟩, τ⟩ <;> rw [ran] at turned
      · exact turned
      · exact turned.trans (ih turned.booked)

/-- The loop turns at least once for each item that is taken, and once for each if it comes to its end. -/
theorem length_taken (budget : Nat) (σ : State) :
    (taken x budget σ).length ≤ ticks x budget σ ∧
      ((exec (drain x budget) σ).1 = .ok () → (taken x budget σ).length = ticks x budget σ) := by
  induction budget generalizing σ with
  | zero =>
    refine ⟨Nat.zero_le _, fun ok => ?_⟩
    cases busy : σ.work.isFinished with
    | true =>
      rw [ticks, if_pos busy]
      rfl
    | false =>
      rw [exec_drain_zero busy] at ok
      cases ok
  | succ budget ih =>
    rcases take?_cases σ with ⟨none, nothing⟩ | ⟨item, ρ, isTaken, took⟩
    · simp [taken, none, ticks, Worklist.isFinished_iff.mpr nothing]
    · rw [exec_drain_succ budget took.not_isFinished]
      simp only [taken, isTaken, ticks, took.not_isFinished, Bool.false_eq_true, if_false]
      rcases exec (performNext x) σ with ⟨fault | ⟨⟩, τ⟩
      · exact ⟨Nat.le_refl _, fun ok => by cases ok⟩
      · simpa using ih τ

/-! ### One search -/

namespace Search

variable {s : Search}

/-- The items that the search takes. -/
def takenItems (s : Search) : List Item :=
  match exec s.seed (startState s.context) with
  | (.ok (), σ) => taken s.context s.context.options.maxIterations.toNat σ
  | (.error _, _) => []

/-- How often the loop of the search turns; without a seed it does not start. -/
def iterations (s : Search) : Nat :=
  match exec s.seed (startState s.context) with
  | (.ok (), σ) => ticks s.context s.context.options.maxIterations.toNat σ
  | (.error _, _) => 0

theorem advances (develops : Develops s.seed) : Advances [] s.takenItems s.run.1 (startState s.context) s.run.2 := by
  have start : Booked [] (startState s.context) := Tally.counts_empty.congr fun c => by cases c <;> rfl
  obtain ⟨seeded, same⟩ := (develops.run (startState s.context)).booked start
  unfold takenItems run
  rw [exec_bind]
  rcases ran : exec s.seed (startState s.context) with ⟨fault | ⟨⟩, σ⟩ <;> rw [ran] at seeded same
  · exact ⟨seeded, same.le, nofun⟩
  · have planted : Advances [] [] (.ok ()) (startState s.context) σ := ⟨seeded, same.le, fun _ => same⟩
    exact planted.trans (seeded.drain s.context.options.maxIterations.toNat)

theorem length_takenItems (s : Search) :
    s.takenItems.length ≤ s.iterations ∧ (s.run.1 = .ok () → s.takenItems.length = s.iterations) := by
  unfold takenItems iterations run
  rw [exec_bind]
  rcases exec s.seed (startState s.context) with ⟨fault | ⟨⟩, σ⟩
  · exact ⟨Nat.le_refl _, nofun⟩
  · exact length_taken _ σ

theorem outcome_eq_completed_iff : s.outcome = .completed ↔ s.run.1 = .ok () := by
  unfold outcome
  split
  · next ok => simp [ok]
  · next fault failed => simp [failed]

/-- What the search counts. -/
def count (s : Search) : Counter → Nat
  | .seeds => 1
  | .registerSearches => s.run.2.work.completed
  | .rejectedFuzzy => s.run.2.work.rejected
  | .abortedSeeds =>
    match s.outcome with
    | .completed => 0
    | .aborted _ => 1
  | .loggedErrors =>
    match s.outcome with
    | .completed => 0
    | .aborted fault => if fault.isLimit then 0 else 1
  | c => s.run.2.booked s.takenItems c

/-- A search counts no more searches for items than its loop turns, and as many if it is completed. -/
theorem sum_count (develops : Develops s.seed) :
    (searchCounters.map s.count).sum ≤ s.iterations ∧
      (s.outcome = .completed → (searchCounters.map s.count).sum = s.iterations) := by
  have advances := s.advances develops
  have items := sum_countP_counter s.takenItems
  have turns := s.length_takenItems
  have nothing : (startState s.context).work.completed = 0 := rfl
  simp only [searchCounters, List.map_cons, List.map_nil, List.sum_cons, List.sum_nil, count, State.booked] at items ⊢
  refine ⟨?_, fun completed => ?_⟩
  · have := advances.completed_le
    omega
  · have ended := outcome_eq_completed_iff.mp completed
    have := advances.completed_eq ended
    have := turns.2 ended
    omega

/-- What the search counted when its loop ended, and itself. -/
theorem counts_run (develops : Develops s.seed) :
    ((s.run.2.tally.plus s.run.2.work.tally).bump .seeds).Counts fun c =>
      match c with
      | .abortedSeeds | .loggedErrors => 0
      | c => s.count c := by
  have booked := (s.advances develops).booked
  refine ((booked.plus (counts_work s.run.2.work)).bump .seeds).congr fun c => ?_
  cases c <;> simp [State.booked, count]

theorem counts_runSearch (develops : Develops s.seed) (pattern : String) :
    (runSearch s.context pattern s.seed).tally.Counts s.count := by
  have counts := s.counts_run develops
  unfold runSearch
  rcases ran : s.run with ⟨fault | ⟨⟩, τ⟩ <;> rw [ran] at counts
  · have ran' : ((do s.seed; drain s.context s.context.options.maxIterations.toNat) : SearchM Unit).run
      { work := { maxFuzzy := s.context.options.maxFuzzy } } = (.error fault, τ) := ran
    have ended : s.outcome = .aborted fault := by simp only [outcome, ran]
    simp only [ran']
    split
    · next isLimit =>
      refine (counts.bump .abortedSeeds).congr fun c => ?_
      cases c <;> simp [count, ended, isLimit]
    · next noLimit =>
      refine ((counts.bump .abortedSeeds).bump .loggedErrors).congr fun c => ?_
      cases c <;> simp [count, ended, noLimit]
  · have ran' : ((do s.seed; drain s.context s.context.options.maxIterations.toNat) : SearchM Unit).run
      { work := { maxFuzzy := s.context.options.maxFuzzy } } = (.ok (), τ) := ran
    have ended : s.outcome = .completed := outcome_eq_completed_iff.mpr (congrArg Prod.fst ran)
    simp only [ran']
    refine counts.congr fun c => ?_
    cases c <;> simp [count, ended]

end Search

/-! ### The searches of a pattern -/

namespace Pattern

variable {pattern : Pattern}

/-- The searches that are run for the pattern. -/
def runs (index : Index) (options : Options) : Pattern → List Search
  | backward p => (backwardSeeds index p).zipIdx.map fun (line, i) =>
      let context := backwardContext index options p i
      ⟨context, line, seedBackward context p line⟩
  | forward p => (forwardSeeds index p).zipIdx.map fun (seed, i) =>
      ⟨{ index := index, options := options, search := i, forward := true, pattern := none }, seed.line.id,
        seedForward seed⟩

theorem getElem?_runs (i : Nat) : (pattern.runs index options)[i]? = pattern.search? index options i := by
  cases pattern with
  | backward p =>
    simp only [runs, search?, List.getElem?_map, List.getElem?_zipIdx]
    cases (backwardSeeds index p)[i]? <;> simp
  | forward p =>
    simp only [runs, search?, List.getElem?_map, List.getElem?_zipIdx]
    cases (forwardSeeds index p)[i]? <;> simp

theorem develops_of_mem_runs {s : Search} (inside : s ∈ pattern.runs index options) : Develops s.seed := by
  cases pattern with
  | backward p =>
    obtain ⟨⟨line, i⟩, _, rfl⟩ := List.mem_map.mp inside
    exact develops_seedBackward ..
  | forward p =>
    obtain ⟨⟨seed, i⟩, _, rfl⟩ := List.mem_map.mp inside
    exact develops_seedForward ..

theorem searches_slice : (pattern.slice index options).searches = (pattern.runs index options).map Search.result :=
  List.ext_getElem? fun i => by rw [getElem?_searches, List.getElem?_map, getElem?_runs]

/-- The searches are numbered in order. -/
theorem ids_slice : (pattern.slice index options).searches.map SearchResult.id =
    List.range (pattern.slice index options).searches.length := by
  rw [searches_slice, List.map_map, List.length_map]
  cases pattern with
  | backward p =>
    rw [runs, List.map_map, List.length_map, List.length_zipIdx, List.range_eq_range']
    exact List.zipIdx_map_snd 0 _
  | forward p =>
    rw [runs, List.map_map, List.length_map, List.length_zipIdx, List.range_eq_range']
    exact List.zipIdx_map_snd 0 _

/-- What is counted for the pattern is what its searches count. -/
theorem counts_slice :
    (pattern.slice index options).tally.Counts fun c => ((pattern.runs index options).map (·.count c)).sum := by
  have tally : ∃ text, (pattern.slice index options).tally =
      (pattern.runs index options).foldl (fun t s => t.plus (runSearch s.context text s.seed).tally) {} := by
    cases pattern with
    | backward p => exact ⟨p.text, by simp only [slice, Slice.backward, runAll, runs, List.foldl_map]; rfl⟩
    | forward p => exact ⟨p.text, by simp only [slice, Slice.forward, runAll, runs, List.foldl_map]⟩
  obtain ⟨text, tally⟩ := tally
  rw [tally]
  have each : ∀ s ∈ pattern.runs index options, (runSearch s.context text s.seed).tally.Counts s.count :=
    fun s inside => s.counts_runSearch (develops_of_mem_runs inside) text
  exact (Tally.counts_empty.foldl_plus each).congr fun c => Nat.zero_add _

end Pattern

/-! ### One pattern after the other -/

/-- The counters agree with what the searches found, and with how often their loops turned. -/
structure CountersAgree (criteria : List Criterion) (runs : List Search) (tally : Tally) : Prop where
  found : criteria.flatMap Criterion.searches = runs.map Search.result
  seeds : tally.get .seeds = Number.wrap (criteria.flatMap Criterion.searches).length
  constants : tally.get .constants =
    Number.wrap (((criteria.flatMap Criterion.searches).map fun s => s.constants.length).sum : Nat)
  abortedSeeds : tally.get .abortedSeeds = Number.wrap (criteria.flatMap Criterion.abortedSearches).length
  loggedErrors : tally.get .loggedErrors = Number.wrap (criteria.flatMap Criterion.faults).length
  searches_le : (searchCounters.map tally.get).sum ≤ ((runs.map Search.iterations).sum : Nat)
  searches_eq : (∀ s ∈ criteria.flatMap Criterion.searches, s.outcome = .completed) →
    Number.wrap (searchCounters.map tally.get).sum = Number.wrap ((runs.map Search.iterations).sum : Nat) ∧
      ((runs.map Search.iterations).sum < 9223372036854775808 →
        (searchCounters.map tally.get).sum = ((runs.map Search.iterations).sum : Nat))

variable {runs : List Search}

/-- The searches for items are no more than the turns of the loops, and as many if all searches are completed. -/
theorem sum_searchCounters (develops : ∀ s ∈ runs, Develops s.seed) :
    (searchCounters.map fun c => (runs.map (·.count c)).sum).sum ≤ (runs.map Search.iterations).sum ∧
      ((∀ s ∈ runs, s.outcome = .completed) →
        (searchCounters.map fun c => (runs.map (·.count c)).sum).sum = (runs.map Search.iterations).sum) := by
  induction runs with
  | nil => exact ⟨Nat.le_refl _, fun _ => rfl⟩
  | cons s runs ih =>
    obtain ⟨first, rest⟩ := List.forall_mem_cons.mp develops
    have one := s.sum_count first
    have others := ih rest
    simp only [searchCounters, List.map_cons, List.map_nil, List.sum_cons, List.sum_nil, List.forall_mem_cons]
      at one others ⊢
    refine ⟨by omega, fun completed => ?_⟩
    have := one.2 completed.1
    have := others.2 completed.2
    omega

theorem sum_count_constants (runs : List Search) :
    (runs.map (·.count .constants)).sum = ((runs.map Search.result).map fun s => s.constants.length).sum := by
  rw [List.map_map]
  refine congrArg (fun f => (runs.map f).sum) (funext fun s => ?_)
  simp [Search.count, State.booked, Search.result, sortConstants, List.length_mergeSort]

theorem sum_count_abortedSeeds (runs : List Search) :
    (runs.map (·.count .abortedSeeds)).sum =
      ((runs.map Search.result).filter fun s => s.outcome ≠ .completed).length := by
  induction runs with
  | nil => rfl
  | cons s runs ih =>
    rw [List.map_cons, List.sum_cons, List.map_cons, List.filter_cons, ih]
    cases ended : s.outcome <;> simp [Search.count, Search.result, ended, Nat.add_comm]

theorem sum_count_loggedErrors (runs : List Search) :
    (runs.map (·.count .loggedErrors)).sum =
      ((runs.map Search.result).filterMap fun s =>
        match s.outcome with
        | .aborted fault => if fault.isLimit then none else some fault
        | .completed => none).length := by
  induction runs with
  | nil => rfl
  | cons s runs ih =>
    rw [List.map_cons, List.sum_cons, List.map_cons, List.filterMap_cons, ih]
    cases ended : s.outcome with
    | completed => simp [Search.count, Search.result, ended]
    | aborted fault => cases limit : fault.isLimit <;> simp [Search.count, Search.result, ended, limit, Nat.add_comm]

theorem countersAgree_of_counts {criteria : List Criterion} {tally : Tally} (develops : ∀ s ∈ runs, Develops s.seed)
    (found : criteria.flatMap Criterion.searches = runs.map Search.result)
    (counts : tally.Counts fun c => (runs.map (·.count c)).sum) : CountersAgree criteria runs tally := by
  have wraps {m n : Nat} (same : m = n) : Number.wrap m = Number.wrap n := same ▸ rfl
  have turns := sum_searchCounters develops
  refine ⟨found, ?_, ?_, ?_, ?_, (counts.sum_le searchCounters).trans (Int.ofNat_le.mpr turns.1), fun completed => ?_⟩
  · rw [counts .seeds, found, List.length_map]
    exact wraps (by simp [Search.count])
  · rw [counts .constants, found]
    exact wraps (sum_count_constants runs)
  · have aborted : criteria.flatMap Criterion.abortedSearches =
        (criteria.flatMap Criterion.searches).filter fun s => s.outcome ≠ .completed := List.filter_flatMap.symm
    rw [counts .abortedSeeds, aborted, found]
    exact wraps (sum_count_abortedSeeds runs)
  · have faults : criteria.flatMap Criterion.faults = (criteria.flatMap Criterion.searches).filterMap fun s =>
        match s.outcome with
        | .aborted fault => if fault.isLimit then none else some fault
        | .completed => none := List.filterMap_flatMap.symm
    rw [counts .loggedErrors, faults, found]
    exact wraps (sum_count_loggedErrors runs)
  · have same := turns.2 fun s inside => completed s.result (found ▸ List.mem_map_of_mem inside)
    exact ⟨(counts.wrap_sum searchCounters).trans (wraps same), fun small => by
      rw [counts.sum_eq (same ▸ small), same]⟩

/-- Patterns that are sliced one after the other on a program, with whatever options, from counters that are all zero:
the counters agree with what was found. The searches of each pattern are numbered from zero on, and every number has
the slice graph, the constants and the outcome of its search. -/
theorem counters_agree (program : Program) (excluded : List String) (evaluations : List (Options × Pattern)) :
    let index := (Index.ofProgram program excluded).index
    let criteria := evaluations.map fun e => e.2.slice index e.1
    CountersAgree criteria (evaluations.flatMap fun e => e.2.runs index e.1)
        (criteria.foldl (fun t c => t.plus c.tally) {}) ∧
      ∀ options pattern, (options, pattern) ∈ evaluations →
        (pattern.slice index options).searches.map SearchResult.id =
            List.range (pattern.slice index options).searches.length ∧
          ∀ i < (pattern.slice index options).searches.length, ∃ s, pattern.search? index options i = some s ∧
            (pattern.slice index options).searches[i]? = some s.result := by
  intro index criteria
  refine ⟨countersAgree_of_counts ?_ ?_ ?_, fun options pattern _ => ⟨pattern.ids_slice, fun i bound => ?_⟩⟩
  · intro s inside
    obtain ⟨e, _, isRun⟩ := List.mem_flatMap.mp inside
    exact e.2.develops_of_mem_runs isRun
  · rw [List.flatMap_map, List.map_flatMap]
    exact congrArg (evaluations.flatMap ·) (funext fun e => e.2.searches_slice)
  · rw [List.foldl_map]
    refine (Tally.counts_empty.foldl_plus fun e _ => e.2.counts_slice).congr fun c => ?_
    rw [List.map_flatMap, List.flatMap, List.sum_flatten, List.map_map, Nat.zero_add]
    rfl
  · have isResult := List.getElem?_eq_getElem bound
    rw [Pattern.getElem?_searches] at isResult ⊢
    obtain ⟨s, found, _⟩ := Option.map_eq_some_iff.mp isResult
    exact ⟨s, found, by rw [found]; rfl⟩

/-- The argument of each call between the two ways. -/
def callPattern : BackwardPattern := { owner := "L;", method := "f", params := "", param := 0 }

/-- The three calls are searched for completely, in four turns. -/
theorem twoWays_counters :
    let slice := (Pattern.backward callPattern).slice (Index.ofProgram twoWaysProgram []).index (ceilingOf 0)
    let tally : Tally := [slice].foldl (fun t c => t.plus c.tally) {}
    (∀ s ∈ slice.searches, s.outcome = .completed) ∧ tally.get .seeds = 3 ∧
      (searchCounters.map tally.get).sum = 4 := by
  intro slice tally
  have agree := (counters_agree twoWaysProgram [] [(ceilingOf 0, .backward callPattern)]).1
  have ran : ((Pattern.backward callPattern).runs (Index.ofProgram twoWaysProgram []).index (ceilingOf 0)).map
      (fun s => (s.iterations, s.outcome)) = [(1, .completed), (2, .completed), (1, .completed)] := by
    rw [index_twoWaysProgram]
    cbv
  simp only [List.map_cons, List.map_nil, List.flatMap_singleton] at agree
  generalize (Pattern.backward callPattern).runs (Index.ofProgram twoWaysProgram []).index (ceilingOf 0) = runs
    at ran agree
  have found : [slice].flatMap Criterion.searches = runs.map Search.result := agree.found
  have turns : (runs.map Search.iterations).sum = 4 := by
    have counted := congrArg (List.map Prod.fst) ran
    rw [List.map_map] at counted
    exact congrArg List.sum counted
  have completed : ∀ s ∈ [slice].flatMap Criterion.searches, s.outcome = .completed := by
    intro s inside
    obtain ⟨run, isRun, rfl⟩ := List.mem_map.mp (found ▸ inside)
    have listed : (run.iterations, run.outcome) ∈ runs.map fun s => (s.iterations, s.outcome) :=
      List.mem_map_of_mem isRun
    rw [ran] at listed
    simp only [List.mem_cons, List.not_mem_nil, Prod.mk.injEq, or_false] at listed
    rcases listed with ⟨-, same⟩ | ⟨-, same⟩ | ⟨-, same⟩ <;> exact same
  refine ⟨fun s inside => completed s (by rwa [List.flatMap_singleton]), ?_, ?_⟩
  · have length : ([slice].flatMap Criterion.searches).length = 3 := by
      rw [found, List.length_map]
      simpa using congrArg List.length ran
    exact agree.seeds.trans (by rw [length]; rfl)
  · have exact := (agree.searches_eq completed).2 (by rw [turns]; decide)
    rw [turns] at exact
    exact exact

end Slice
end SmaliTrace
