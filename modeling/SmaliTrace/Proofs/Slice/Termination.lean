import SmaliTrace.Proofs.Slice.Caps
import SmaliTrace.Proofs.Slice.Loops

/-!
Searches end without their caps. An item is queued under a key that was not asked for before, and all keys are
made of the registers, blocks, fields and methods of the program; so a search takes no more items than there are
keys, and caps of that size are never reached.
-/
namespace SmaliTrace.Slice

variable {x : Context} {index : Index} {σ τ ρ : State} {item : Item} {before : List Item}

/-! ### Every key once -/

/-- The items that draining takes off their queues, in order; the last one may have failed. -/
def taken (x : Context) : (budget : Nat) → State → List Item
  | 0, _ => []
  | budget + 1, σ =>
    match σ.take? with
    | none => []
    | some (item, _) =>
      item ::
        match exec (performNext x) σ with
        | (.ok (), τ) => taken x budget τ
        | (.error _, _) => []

/-- The items that were taken before and those that wait have the keys that were asked for, each once. -/
structure Enrolled (before : List Item) (σ : State) : Prop where
  distinct : ((before ++ σ.work.waiting).map Item.key).Nodup
  asked : ∀ key, key ∈ σ.work.done ↔ key ∈ (before ++ σ.work.waiting).map Item.key

theorem Enrolled.congr (enrolled : Enrolled before σ) (waiting : τ.work.waiting = σ.work.waiting)
    (done : τ.work.done = σ.work.done) : Enrolled before τ :=
  ⟨waiting ▸ enrolled.distinct, fun key => by rw [done, waiting]; exact enrolled.asked key⟩

theorem Enrolled.admitted (enrolled : Enrolled before σ) (admitted : Worklist.Admitted item σ.work τ.work) :
    Enrolled before τ := by
  have order : ((before ++ τ.work.waiting).map Item.key).Perm
      (item.key :: (before ++ σ.work.waiting).map Item.key) := by
    have moved : (before ++ τ.work.waiting).Perm (item :: (before ++ σ.work.waiting)) :=
      (admitted.waiting.append_left before).trans List.perm_middle
    exact moved.map Item.key
  refine ⟨order.nodup_iff.mpr (List.nodup_cons.mpr ⟨?_, enrolled.distinct⟩), fun key => ?_⟩
  · rw [← enrolled.asked]
    exact admitted.fresh
  · rw [admitted.done, order.mem_iff, List.mem_cons, enrolled.asked]

theorem GroundedEdit.enrolled (edit : GroundedEdit index σ τ) (enrolled : Enrolled before σ) : Enrolled before τ := by
  cases edit with
  | request item =>
    rcases (requests_ask σ item).admits with ⟨waiting, done⟩ | admitted
    · exact enrolled.congr waiting done
    · exact enrolled.admitted admitted
  | node line pred key => exact enrolled.congr rfl rfl
  | constant line pred register target => exact enrolled.congr rfl rfl
  | produced id key =>
    have rewired := Worklist.rewired_produce σ.work id key
    exact enrolled.congr rewired.waiting rewired.done
  | kept k => exact enrolled.congr rfl rfl

theorem GroundedEdit.completed (edit : GroundedEdit index σ τ) : τ.work.completed = σ.work.completed := by
  cases edit with
  | request item => exact (requests_ask σ item).completed
  | node line pred key => rfl
  | constant line pred register target => rfl
  | produced id key => exact (Worklist.rewired_produce σ.work id key).completed
  | kept k => rfl

theorem Took.enrolled (took : Took item σ ρ) (enrolled : Enrolled before σ) : Enrolled (before ++ [item]) ρ := by
  have same : before ++ [item] ++ ρ.work.waiting = before ++ σ.work.waiting := by
    rw [took.waiting, List.append_assoc, List.singleton_append]
  refine ⟨same ▸ enrolled.distinct, fun key => ?_⟩
  rw [same, took.done]
  exact enrolled.asked key

/-! ### Turns -/

/-- Where a search stands that has taken the items: every key was asked for once and is one of the program, and no
more searches were counted than items taken. -/
structure Progress (index : Index) (before : List Item) (σ : State) : Prop where
  enrolled : Enrolled before σ
  grounded : Grounded index σ
  known : ∀ item ∈ before, item.key ∈ index.searchKeys
  counted : σ.work.completed ≤ before.length

namespace Progress

theorem edits (progress : Progress index before σ) (edits : GroundedEdits index σ τ) :
    Progress index before τ ∧ τ.work.completed = σ.work.completed := by
  induction edits with
  | refl => exact ⟨progress, rfl⟩
  | tail _ edit ih =>
    obtain ⟨progress, same⟩ := ih
    have completed := edit.completed
    refine ⟨⟨edit.enrolled progress.enrolled, edit.grounded progress.grounded, progress.known, ?_⟩,
      completed.trans same⟩
    rw [completed]
    exact progress.counted

theorem take (progress : Progress index before σ) (took : Took item σ ρ) : Progress index (before ++ [item]) ρ where
  enrolled := took.enrolled progress.enrolled
  grounded := took.grounded progress.grounded
  known other inside := by
    rcases List.mem_append.mp inside with old | new
    · exact progress.known other old
    · obtain rfl := List.mem_singleton.mp new
      exact (progress.grounded other (by simp [took.waiting])).2
  counted := by
    have := progress.counted
    rw [took.completed, List.length_append]
    omega

theorem keys_subset (progress : Progress index before σ) :
    (before ++ σ.work.waiting).map Item.key ⊆ index.searchKeys := by
  intro key inside
  obtain ⟨item, isItem, rfl⟩ := List.mem_map.mp inside
  rcases List.mem_append.mp isItem with old | waits
  · exact progress.known item old
  · exact (progress.grounded item waits).2

/-- The items that were taken and those that wait are not more than there are keys. -/
theorem length_le (progress : Progress index before σ) :
    before.length + σ.work.waiting.length ≤ index.searchKeys.length := by
  have fits := (progress.enrolled.distinct.subperm progress.keys_subset).length_le
  simpa using fits

variable (faithful : x.index.Faithful)
include faithful

/-- A turn takes the next item. It ends without a limit, or the count of searches exceeds its cap. -/
theorem turn (progress : Progress x.index before σ) (taken : σ.take? = some (item, ρ)) :
    Progress x.index (before ++ [item]) (exec (performNext x) σ).2 ∧
      ∀ fault, (exec (performNext x) σ).1 = .error fault → fault.isLimit = false ∨
        x.options.maxCompleted < ((exec (performNext x) σ).2.work.completed : Int) := by
  have took := took_of_take? taken
  obtain ⟨edits, ended⟩ := progress.grounded.perform faithful taken
  obtain ⟨performed, same⟩ := (progress.take took).edits edits
  rw [exec_performNext_of_take? taken]
  rcases ran : exec (item.perform x) ρ with ⟨fault | ⟨⟩, τ⟩ <;> rw [ran] at performed same ended
  · refine ⟨performed, fun other isFault => .inl ?_⟩
    cases isFault
    exact ended
  · cases item with
    | content kind c => exact ⟨performed, fun fault isFault => by cases isFault⟩
    | register r =>
      have counted : Progress x.index (before ++ [.register r]) { τ with work := τ.work.complete } := by
        refine ⟨performed.enrolled.congr rfl rfl, performed.grounded, performed.known, ?_⟩
        have := progress.counted
        have := took.completed
        simp only [Worklist.complete, List.length_append, List.length_singleton]
        dsimp only at same
        omega
      simp only [Item.settle]
      split
      · next reached => exact ⟨counted, fun _ _ => .inr reached⟩
      · exact ⟨counted, fun fault isFault => by cases isFault⟩

theorem drain (progress : Progress x.index before σ) (budget : Nat) :
    Progress x.index (before ++ taken x budget σ) (exec (drain x budget) σ).2 := by
  induction budget generalizing σ before with
  | zero =>
    rw [taken, List.append_nil]
    cases busy : σ.work.isFinished with
    | true => rwa [exec_drain_of_finished 0 busy]
    | false => rwa [exec_drain_zero busy]
  | succ budget ih =>
    rcases take?_cases σ with ⟨none, nothing⟩ | ⟨item, ρ, isTaken, took⟩
    · rw [exec_drain_of_finished _ (Worklist.isFinished_iff.mpr nothing)]
      simpa [taken, none] using progress
    · have turned := (progress.turn faithful isTaken).1
      rw [exec_drain_succ budget took.not_isFinished]
      simp only [taken, isTaken]
      rcases ran : exec (performNext x) σ with ⟨fault | ⟨⟩, τ⟩ <;> rw [ran] at turned
      · exact turned
      · have later := ih turned
        rwa [List.append_assoc, List.singleton_append] at later

/-- A cap is reached only after as many items as it allows. -/
theorem limit_cases (progress : Progress x.index before σ) {budget : Nat} {limit : Fault}
    (isLimit : limit.isLimit = true) (ran : (exec (Slice.drain x budget) σ).1 = .error limit) :
    ((taken x budget σ).length = budget ∧ (exec (Slice.drain x budget) σ).2.work.waiting ≠ []) ∨
      x.options.maxCompleted < ((exec (Slice.drain x budget) σ).2.work.completed : Int) := by
  induction budget generalizing σ before with
  | zero =>
    cases busy : σ.work.isFinished with
    | true =>
      rw [exec_drain_of_finished 0 busy] at ran
      cases ran
    | false =>
      rw [exec_drain_zero busy]
      refine .inl ⟨rfl, fun nothing => ?_⟩
      rw [Worklist.isFinished_iff.mpr nothing] at busy
      cases busy
  | succ budget ih =>
    rcases take?_cases σ with ⟨none, nothing⟩ | ⟨item, ρ, isTaken, took⟩
    · rw [exec_drain_of_finished _ (Worklist.isFinished_iff.mpr nothing)] at ran
      cases ran
    · obtain ⟨turned, faults⟩ := progress.turn faithful isTaken
      rw [exec_drain_succ budget took.not_isFinished] at ran ⊢
      simp only [taken, isTaken]
      rcases performs : exec (performNext x) σ with ⟨fault | ⟨⟩, τ⟩ <;> rw [performs] at turned faults ran
      · cases ran
        rcases faults limit rfl with noLimit | reached
        · simp [noLimit] at isLimit
        · exact .inr reached
      · exact (ih turned ran).imp_left fun ⟨length, waits⟩ => ⟨by simp [length], waits⟩

/-- Caps that allow as many items as there are keys are not reached. -/
theorem not_limit (progress : Progress x.index [] σ) {budget : Nat} (iterations : x.index.searchKeys.length ≤ budget)
    (completed : (x.index.searchKeys.length : Int) ≤ x.options.maxCompleted) {fault : Fault}
    (ran : (exec (Slice.drain x budget) σ).1 = .error fault) : fault.isLimit = false := by
  cases isLimit : fault.isLimit with
  | false => rfl
  | true =>
    have drained := progress.drain faithful budget
    have fits := drained.length_le
    have counted := drained.counted
    rw [List.nil_append] at fits counted
    rcases progress.limit_cases faithful isLimit ran with ⟨length, waits⟩ | reached
    · have := List.length_pos_iff.mpr waits
      omega
    · omega

end Progress

theorem isFinished_of_drain {budget : Nat} (ran : (exec (drain x budget) σ).1 = .ok ()) :
    (exec (drain x budget) σ).2.work.isFinished = true := by
  induction budget generalizing σ with
  | zero =>
    cases busy : σ.work.isFinished with
    | true => rwa [exec_drain_of_finished 0 busy]
    | false =>
      rw [exec_drain_zero busy] at ran
      cases ran
  | succ budget ih =>
    cases busy : σ.work.isFinished with
    | true => rwa [exec_drain_of_finished _ busy]
    | false =>
      rw [exec_drain_succ budget busy] at ran ⊢
      rcases performs : exec (performNext x) σ with ⟨fault | ⟨⟩, τ⟩ <;> rw [performs] at ran
      · cases ran
      · exact ih ran

/-! ### Whole searches -/

/-- The items that a search takes, in order, and those that still wait when it ends. -/
def Search.items (s : Search) : List Item :=
  match exec s.seed (startState s.context) with
  | (.ok (), σ) => taken s.context s.context.options.maxIterations.toNat σ ++ s.run.2.work.waiting
  | (.error _, _) => s.run.2.work.waiting

/-- The search worked off its queues, or an item failed; no cap was reached. -/
def Settled : Except Fault Unit × State → Prop
  | (.ok (), τ) => τ.work.isFinished = true
  | (.error fault, _) => fault.isLimit = false

theorem Settled.not_limit {ending : Except Fault Unit × State} {fault : Fault} (settled : Settled ending)
    (ran : ending.1 = .error fault) : fault.isLimit = false := by
  obtain ⟨_, τ⟩ := ending
  cases ran
  exact settled

theorem progress_of_idle (waiting : σ.work.waiting = []) (done : σ.work.done = {}) (completed : σ.work.completed = 0) :
    Progress index [] σ where
  enrolled := ⟨by simp [waiting], fun key => by simp [waiting, done]⟩
  grounded item waits := by simp [waiting] at waits
  known item inside := by simp at inside
  counted := by simp [completed]

namespace Planted

variable {s : Search} (isPlanted : Planted s.context s.line s.seed) (faithful : s.context.index.Faithful)
include isPlanted faithful

theorem progress : ∃ before, s.items = before ++ s.run.2.work.waiting ∧ Progress s.context.index before s.run.2 := by
  unfold Search.items Search.run
  rw [exec_bind]
  rcases isPlanted with ⟨fault, failed, _⟩ | ⟨key, edits, _⟩
  · rw [failed]
    exact ⟨[], rfl, progress_of_idle rfl rfl rfl⟩
  · have seeded : Progress s.context.index [] (exec s.seed (startState s.context)).2 :=
      (Progress.edits (progress_of_idle rfl rfl rfl) edits).1
    rcases ran : exec s.seed (startState s.context) with ⟨fault | ⟨⟩, σ⟩ <;> rw [ran] at seeded
    · exact ⟨[], rfl, seeded⟩
    · exact ⟨_, rfl, by simpa using seeded.drain faithful s.context.options.maxIterations.toNat⟩

theorem settled (iterations : (s.context.index.searchKeys.length : Int) ≤ s.context.options.maxIterations)
    (completed : (s.context.index.searchKeys.length : Int) ≤ s.context.options.maxCompleted) : Settled s.run := by
  unfold Search.run
  rw [exec_bind]
  rcases isPlanted with ⟨fault, failed, noLimit⟩ | ⟨key, edits, ended⟩
  · rw [failed]
    exact noLimit
  · have seeded : Progress s.context.index [] (exec s.seed (startState s.context)).2 :=
      (Progress.edits (progress_of_idle rfl rfl rfl) edits).1
    rcases ran : exec s.seed (startState s.context) with ⟨fault | ⟨⟩, σ⟩ <;> rw [ran] at seeded ended
    · exact ended
    · have enough : s.context.index.searchKeys.length ≤ s.context.options.maxIterations.toNat := by omega
      rcases drained : exec (drain s.context s.context.options.maxIterations.toNat) σ with ⟨fault | ⟨⟩, τ⟩
      · simp only [drained]
        exact seeded.not_limit faithful enough completed (congrArg Prod.fst drained)
      · have finished := isFinished_of_drain (congrArg Prod.fst drained)
        rw [drained] at finished
        simp only [drained]
        exact finished

end Planted

/-- Whatever the caps, a search queues and takes no key twice, and only keys of the program. With caps that allow as
many items as there are keys, or more, it always ends in the same way: its queues are worked off, or an item
failed. The loops of its items come to their ends. -/
theorem searches_end (program : Program) (excluded : List String) (options : Options) (pattern : Pattern) (i : Nat)
    (s : Search) (found : pattern.search? (Index.ofProgram program excluded).index options i = some s) :
    (∀ iterations completed : Int,
      ((s.capped iterations completed).items.map Item.key).Nodup ∧
      (∀ key, key ∈ (s.capped iterations completed).run.2.work.done ↔
        key ∈ (s.capped iterations completed).items.map Item.key) ∧
      ∀ key ∈ (s.capped iterations completed).items.map Item.key,
        key ∈ (Index.ofProgram program excluded).index.searchKeys) ∧
    (∃ ending, Settled ending ∧ ∀ iterations completed : Int,
      ((Index.ofProgram program excluded).index.searchKeys.length : Int) ≤ iterations →
      ((Index.ofProgram program excluded).index.searchKeys.length : Int) ≤ completed →
        (s.capped iterations completed).run = ending) ∧
    LoopsEnd s.context := by
  have faithful := Index.faithful_ofProgram program excluded
  refine ⟨fun iterations completed => ?_, ?_, loopsEnd s.context⟩
  · obtain ⟨index, isPlanted⟩ := Pattern.planted_capped faithful found iterations completed
    obtain ⟨before, items, progress⟩ := isPlanted.progress (index ▸ faithful)
    rw [items]
    refine ⟨progress.enrolled.distinct, progress.enrolled.asked, fun key inside => ?_⟩
    rw [← index]
    exact progress.keys_subset inside
  · let bound : Int := (Index.ofProgram program excluded).index.searchKeys.length
    obtain ⟨index, isPlanted⟩ := Pattern.planted_capped faithful found bound bound
    have enough : ((s.capped bound bound).context.index.searchKeys.length : Int) ≤ bound := by rw [index]
    have settled := isPlanted.settled (index ▸ faithful) enough enough
    refine ⟨(s.capped bound bound).run, settled, fun iterations completed more more' => ?_⟩
    rcases isPlanted.run_capped (index ▸ faithful) more more' with same | ⟨limit, cut, isLimit, _⟩
    · exact same
    · have noLimit := settled.not_limit cut
      simp [noLimit] at isLimit

/-- The search from the sink of two ways takes eight items, and reaches no cap that leaves room for them. -/
theorem twoWays_ends :
    (Pattern.backward sinkPattern).search? (Index.ofProgram twoWaysProgram []).index ((ceilingOf 1).capped 8 16) 0 =
        some (twoWaysSearch 8) ∧
      (twoWaysSearch 8).items.length = 8 ∧ ((twoWaysSearch 8).items.map Item.key).Nodup ∧
      ∃ ending, Settled ending ∧ ∀ iterations completed : Int,
        ((Index.ofProgram twoWaysProgram []).index.searchKeys.length : Int) ≤ iterations →
        ((Index.ofProgram twoWaysProgram []).index.searchKeys.length : Int) ≤ completed →
          ((twoWaysSearch 8).capped iterations completed).run = ending := by
  obtain ⟨keys, ending, _⟩ := searches_end twoWaysProgram [] ((ceilingOf 1).capped 8 16) (.backward sinkPattern) 0
    (twoWaysSearch 8) (search?_twoWays 8)
  exact ⟨search?_twoWays 8, by cbv, (keys 8 16).1, ending⟩

end SmaliTrace.Slice
