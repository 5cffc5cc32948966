import Mathlib
import SmaliTrace.Proofs.Index.Sites
import SmaliTrace.Proofs.Slice.BackwardLine

/-!
Backward searches are complete. Each key is searched once, and what a search of a key passes on the way is
either walked there and then or asked for; when nothing is left in the queue, every path from a place that
was asked for has been followed to its end.
-/
namespace SmaliTrace.Slice
open SmaliTrace.Smali SmaliTrace.ClassFile

variable {x : Context} {r : RegisterSearch} {c : Cursor} {σ τ ρ : State} {v : Option Cursor}

/-- All paths from the place are followed, up to places that were asked for. -/
inductive Walked (x : Index) (σ : State) : Place → Prop
  | intro {place : Place} (ends : ∀ line, Ends x place line → σ.Keeps line)
      (onward : ∀ next, PathStep x place next → ¬ σ.Asked next → Walked x σ next) : Walked x σ place

theorem Walked.mono {index : Index} {place : Place} (walked : Walked index σ place)
    (asks : ∀ place, σ.Asked place → τ.Asked place) (keeps : ∀ line, σ.Keeps line → τ.Keeps line) :
    Walked index τ place := by
  induction walked with
  | intro ends _ ih =>
    refine ⟨fun line ended => keeps line (ends line ended), fun next step fresh => ih next step ?_⟩
    exact fun asked => fresh (asks next asked)

theorem Walked.grow {index : Index} {place : Place} (walked : Walked index σ place) (grows : Grows σ τ) :
    Walked index τ place :=
  walked.mono (fun _ asked => asked.grow grows) fun _ kept => kept.grow grows

/-! ### One block -/

theorem linesBack_succ {b : BlockId} {n : Nat} {s : Site} (line : (x.index.sites b)[n]? = some s) :
    linesBack x b n = s :: linesBack x b ((n : Int) - 1) := by
  obtain ⟨bound, rfl⟩ := List.getElem?_eq_some_iff.mp line
  have start : ((n : Int) + 1).toNat = n + 1 := by omega
  have stop : ((n : Int) - 1 + 1).toNat = n := by omega
  rw [linesBack, linesBack, start, stop, List.take_succ_eq_append_getElem bound, List.reverse_append]
  rfl

theorem linesBack_toNat (b : BlockId) (index : Int) :
    linesBack x b index = linesBack x b (((index + 1).toNat : Int) - 1) := by
  simp only [linesBack]
  congr 2
  omega

/-- The lines of a block that a search goes over are walked, if the top of the block is. -/
theorem walked_of_backwardLines (faithful : x.index.Faithful) (b : BlockId) (n : Nat) (fits : σ.Fits r)
    (ran : exec (backwardLines x r c (linesBack x b ((n : Int) - 1))) σ = (.ok v, τ)) (grows : Grows τ ρ)
    (top : ∀ c', v = some c' → Walked x.index ρ ⟨c'.register, b, 0⟩) :
    Walked x.index ρ ⟨c.register, b, n⟩ := by
  induction n generalizing c σ with
  | zero =>
    have none : linesBack x b ((0 : Nat) - 1) = [] := by simp [linesBack]
    rw [none] at ran
    cases ran
    exact top c rfl
  | succ n ih =>
    cases line : (x.index.sites b)[n]? with
    | none =>
      refine ⟨fun _ ended => ?_, fun _ step _ => ?_⟩
      · cases ended with
        | intro line' => simp [line] at line'
      · cases step with
        | pass line' => simp [line] at line'
        | through line' => simp [line] at line'
    | some s =>
      obtain ⟨here, position, -⟩ := faithful.site_of_getElem? line
      rw [show ((n + 1 : Nat) : Int) - 1 = n by omega, linesBack_succ line] at ran
      obtain ⟨w, ρ₁, first, rest⟩ := exec_bind_eq_ok_iff.mp ran
      have grows₁ := (develops_backwardLine x r c s).grows first
      have grows₂ : Grows ρ₁ τ := by
        refine Develops.grows ?_ rest
        split
        · exact develops_backwardLines ..
        · exact .pure _
      have onward : ∀ c', w = some c' → Walked x.index ρ ⟨c'.register, b, n⟩ := by
        rintro c' rfl
        exact ih (fits.grow grows₁) rest
      refine ⟨fun line' ended => ?_, fun next step fresh => ?_⟩
      · cases ended with
        | intro line' defines makes =>
          cases line.symm.trans line'
          exact ((keeps_of_backwardLine defines makes first).2.grow grows₂).grow grows
      · cases step with
        | pass line' spared =>
          cases line.symm.trans line'
          obtain ⟨c', rfl, same⟩ := register_of_backwardLine spared first
          exact same ▸ onward c' rfl
        | through line' defines carries comes =>
          cases line.symm.trans line'
          obtain ⟨c', rfl, sources⟩ := continues_of_backwardLine fits defines carries first
          rcases sources _ comes with rfl | asked
          · exact onward c' rfl
          · rw [here, position] at asked
            exact absurd ((asked.grow grows₂).grow grows) fresh

theorem asked_of_enterCaller {m : MethodId} {index : Int} {s : Site} {argument : Register} (fits : σ.Fits r)
    (passes : s.instruction.argument index = .ok argument)
    (ran : exec (enterCaller x r c m index s) σ = (.ok (), τ)) :
    τ.Asked ⟨argument, s.blockId, s.position⟩ := by
  unfold enterCaller at ran
  rw [passes] at ran
  obtain ⟨id, ρ₁, added, ran⟩ := exec_bind_eq_ok_iff.mp ran
  obtain ⟨_, ρ₂, produced, admitted⟩ := exec_bind_eq_ok_iff.mp ran
  have fits₁ := fits.grow ((develops_addNode ..).grows added)
  have fits₂ := fits₁.grow ((develops_produceIf ..).grows produced)
  exact mem_done_of_admitRegister (r := ⟨argument, r.field, s.blockId, (s.position : Int) - 1, r.fuzzy, r.offset,
    some (id : Int), argument⟩) fits₂ admitted

theorem asked_of_callersAtEntry {m : MethodId} {method : Method} {index : Int} {s : Site} {argument : Register}
    (fits : σ.Fits r) (isMethod : x.index.program.method? m = some method)
    (parameter : method.paramIndex? c.register = some index)
    (calls : s ∈ x.index.sitesOf (x.index.callSitesOf m))
    (passes : s.instruction.argument index = .ok argument)
    (ran : exec (callersAtEntry x r c ⟨m, 0⟩) σ = (.ok (), τ)) :
    τ.Asked ⟨argument, s.blockId, s.position⟩ := by
  have found : (x.program.method? m).bind (fun method => method.paramIndex? c.register) = some index := by
    simp [Context.program, isMethod, parameter]
  simp only [callersAtEntry, ne_eq, not_true_eq_false, if_false, found] at ran
  unfold callers at ran
  split at ran
  · next none => simp [none] at calls
  · obtain ⟨σ', τ', entered, before, after⟩ :=
      exists_exec_of_forM (fun s _ => develops_enterCaller x r c s m index) ran calls
    exact (asked_of_enterCaller (fits.grow before) passes entered).grow after

/-- From the top of a block, the end of every predecessor is asked for, and every caller. -/
theorem asked_of_blockTop {next : Place} (fits : σ.Fits r) (ran : exec (blockTop x r c) σ = (.ok (), τ))
    (step : PathStep x.index ⟨c.register, r.block, 0⟩ next) : τ.Asked next := by
  obtain ⟨_, ρ, preds, callers⟩ := exec_bind_eq_ok_iff.mp ran
  have grows₁ := (Develops.forM fun _ _ => develops_admitRegister _).grows preds
  have grows₂ := (develops_callersAtEntry ..).grows callers
  generalize isBlock : r.block = b at step callers
  cases step with
  | @pred _ _ p block before found edge found' =>
    have inside : p ∈ neighbours x r.block (·.preds) := by simpa [neighbours, isBlock, found] using edge
    obtain ⟨σ', τ', admitted, start, stop⟩ :=
      exists_exec_of_forM (fun _ _ => develops_admitRegister _) preds inside
    have asked := mem_done_of_admitRegister (r := ⟨c.register, r.field, ⟨r.block.method, p⟩,
      lastPosition x ⟨r.block.method, p⟩, r.fuzzy, r.offset, c.origin, c.originRegister⟩) (fits.grow start)
      admitted
    have asked' : τ'.Asked ⟨c.register, ⟨b.method, p⟩, before.lines.length⟩ := by
      simpa [State.Asked, RegisterSearch.key, lastPosition, isBlock, found'] using asked
    exact (asked'.grow stop).grow grows₂
  | caller isMethod parameter calls passes =>
    exact asked_of_callersAtEntry (fits.grow grows₁) isMethod parameter calls passes callers

theorem walked_of_blockTop (fits : σ.Fits r) (ran : exec (blockTop x r c) σ = (.ok (), τ)) :
    Walked x.index τ ⟨c.register, r.block, 0⟩ :=
  ⟨fun _ ended => (nomatch ended), fun _ step fresh => absurd (asked_of_blockTop fits ran step) fresh⟩

/-- The place that a register search starts at. -/
def RegisterSearch.place (r : RegisterSearch) : Place := ⟨r.register, r.block, (r.index + 1).toNat⟩

theorem walked_of_backwardRegister (faithful : x.index.Faithful) (fits : σ.Fits r)
    (ran : exec (backwardRegister x r) σ = (.ok (), τ)) : Walked x.index τ r.place := by
  obtain ⟨v, ρ, walked, rest⟩ := exec_bind_eq_ok_iff.mp ran
  rw [linesBack_toNat] at walked
  have fits' := fits.grow ((develops_backwardLines ..).grows walked)
  have grows : Grows ρ τ := by
    refine Develops.grows ?_ rest
    split
    · exact develops_blockTop ..
    · exact .pure _
  refine walked_of_backwardLines faithful r.block (r.index + 1).toNat fits walked grows ?_
  rintro c rfl
  exact walked_of_blockTop fits' rest

/-! ### Draining the worklist -/

/-- Between two items, every register search that was asked for waits in the queue or has been walked. -/
structure Searching (x : Index) (σ : State) : Prop where
  fits : ∀ q ∈ σ.work.registers, σ.Fits q
  followed : ∀ register block index, ItemKey.register register block index ∈ σ.work.done →
    (∃ q ∈ σ.work.registers, q.key = .register register block index) ∨
      Walked x σ ⟨register, block, (index + 1).toNat⟩

theorem Searching.grow {index : Index} (searching : Searching index σ) (grows : Grows σ τ) :
    Searching index τ where
  fits q inside := by
    rcases grows.fits q inside with before | fits
    · exact (searching.fits q before).grow grows
    · exact fits
  followed register block position asked := by
    rcases grows.asked register block position asked with before | waiting
    · rcases searching.followed register block position before with ⟨q, inside, same⟩ | walked
      · exact .inl ⟨q, grows.queue.subset inside, same⟩
      · exact .inr (walked.grow grows)
    · exact .inl waiting

theorem done_of_popRegister? {w w' : Worklist} (popped : w.popRegister? = some (r, w')) : w'.done = w.done := by
  unfold Worklist.popRegister? at popped
  split at popped
  · simp at popped
  · cases popped
    rfl

/-- A register search that was taken off the queue and performed is walked, and nothing else changes. -/
theorem Searching.register (faithful : x.index.Faithful) (searching : Searching x.index σ) {work : Worklist}
    (popped : σ.work.popRegister? = some (r, work))
    (ran : exec (backwardRegister x r) { σ with work := work } = (.ok (), τ)) : Searching x.index τ := by
  unfold Worklist.popRegister? at popped
  split at popped
  · simp at popped
  · next rest queue =>
    cases popped
    have grows := (develops_backwardRegister x r).grows ran
    have walked : Walked x.index τ r.place :=
      walked_of_backwardRegister faithful (by exact searching.fits r (by simp [queue])) ran
    refine ⟨fun q inside => ?_, fun register block index asked => ?_⟩
    · rcases grows.fits q inside with before | fits
      · exact (tooFuzzy_congr grows.maxFuzzy ..).trans (searching.fits q (by simp [queue, before]))
      · exact fits
    · rcases grows.asked register block index asked with before | waiting
      · rcases searching.followed register block index before with ⟨q, inside, same⟩ | walked'
        · rw [queue] at inside
          rcases List.mem_cons.mp inside with rfl | inside
          · cases same
            exact .inr walked
          · exact .inl ⟨q, grows.queue.subset inside, same⟩
        · refine .inr (walked'.mono (fun place asked => grows.done _ asked) fun line kept => ?_)
          exact ⟨grows.constants line kept.1, grows.lines.subset kept.2⟩
      · exact .inl waiting

theorem nextContent?_frame {w w' : Worklist} {kind : Content} {search : ContentSearch}
    (popped : nextContent? w = some (kind, search, w')) :
    w'.graph = w.graph ∧ w'.maxFuzzy = w.maxFuzzy ∧ w'.registers = w.registers ∧ w'.done = w.done := by
  obtain ⟨kind', _, popped⟩ := List.exists_of_findSome?_eq_some popped
  obtain ⟨⟨search', w''⟩, popped', same⟩ := Option.map_eq_some_iff.mp popped
  cases same
  unfold Worklist.popContent? at popped'
  split at popped'
  all_goals
    split at popped'
    · simp at popped'
    · cases popped'
      exact ⟨rfl, rfl, rfl, rfl⟩

/-- Performing an item keeps the places that were asked for, and follows them up. -/
theorem Searching.performNext (faithful : x.index.Faithful) (backward : x.forward = false)
    (searching : Searching x.index σ) (ran : exec (performNext x) σ = (.ok (), τ)) :
    Searching x.index τ ∧ ∀ place, σ.Asked place → τ.Asked place := by
  unfold Slice.performNext at ran
  obtain ⟨_, _, got, ran⟩ := exec_bind_eq_ok_iff.mp ran
  cases got
  split at ran
  · next r work popped =>
    obtain ⟨_, _, taken, ran⟩ := exec_bind_eq_ok_iff.mp ran
    cases taken
    obtain ⟨_, ρ, searched, ran⟩ := exec_bind_eq_ok_iff.mp ran
    obtain ⟨_, _, counted, ran⟩ := exec_bind_eq_ok_iff.mp ran
    cases counted
    obtain ⟨_, _, got, ran⟩ := exec_bind_eq_ok_iff.mp ran
    cases got
    simp only [searchRegister, backward, Bool.false_eq_true, if_false] at searched
    have later := searching.register faithful popped searched
    have asks : ∀ place, σ.Asked place → ρ.Asked place := by
      intro place asked
      refine ((develops_backwardRegister x r).grows searched).done _ ?_
      rwa [done_of_popRegister? popped]
    split at ran
    · simp at ran
    · cases ran
      exact ⟨later.grow (.of_relinked ⟨rfl, rfl, rfl, rfl, rfl, rfl, rfl, rfl⟩), asks⟩
  · split at ran
    · cases ran
      exact ⟨searching, fun _ asked => asked⟩
    · next kind search work popped =>
      obtain ⟨_, _, taken, ran⟩ := exec_bind_eq_ok_iff.mp ran
      cases taken
      obtain ⟨graph, maxFuzzy, registers, done⟩ := nextContent?_frame popped
      have taken : Grows σ { σ with work := work, tally := σ.tally.bump kind.counter } :=
        .of_same (by rw [graph]) maxFuzzy registers done rfl
      have grows := taken.trans ((develops_searchContent x kind search).grows ran)
      exact ⟨searching.grow grows, fun _ asked => asked.grow grows⟩

/-- A drained worklist has been searched, and nothing waits in it. -/
theorem Searching.drain (faithful : x.index.Faithful) (backward : x.forward = false) (budget : Nat)
    (searching : Searching x.index σ) (ran : exec (drain x budget) σ = (.ok (), τ)) :
    Searching x.index τ ∧ τ.work.registers = [] ∧ ∀ place, σ.Asked place → τ.Asked place := by
  have empty : ∀ {w : Worklist}, w.isFinished = true → w.registers = [] := by
    intro w finished
    simp only [Worklist.isFinished, Bool.and_eq_true] at finished
    simpa using finished.1.1.1
  induction budget generalizing σ with
  | zero =>
    obtain ⟨_, _, got, ran⟩ := exec_bind_eq_ok_iff.mp ran
    cases got
    split at ran
    · simp at ran
    · next finished =>
      cases ran
      exact ⟨searching, empty (by simpa using finished), fun _ asked => asked⟩
  | succ budget ih =>
    obtain ⟨_, _, got, ran⟩ := exec_bind_eq_ok_iff.mp ran
    cases got
    split at ran
    · obtain ⟨_, ρ, performed, rest⟩ := exec_bind_eq_ok_iff.mp ran
      obtain ⟨later, asks⟩ := searching.performNext faithful backward performed
      obtain ⟨last, nothing, asks'⟩ := ih later rest
      exact ⟨last, nothing, fun place asked => asks' place (asks place asked)⟩
    · next finished =>
      cases ran
      exact ⟨searching, empty (by simpa using finished), fun _ asked => asked⟩

/-- With nothing in the queue, every path from a place that was asked for leads to kept lines. -/
theorem Searching.keeps {index : Index} (searching : Searching index σ) (empty : σ.work.registers = [])
    {start place : Place} {line : LineId} (asked : σ.Asked start) (path : Path index start place)
    (ended : Ends index place line) : σ.Keeps line := by
  have walks : ∀ {place : Place}, σ.Asked place → Walked index σ place := by
    intro place asked
    rcases searching.followed _ _ _ asked with ⟨q, inside, _⟩ | walked
    · simp [empty] at inside
    · simpa using walked
  have walked : Walked index σ place := by
    clear ended
    induction path with
    | refl => exact walks asked
    | @tail _ next _ step ih =>
      obtain ⟨_, onward⟩ := ih
      by_cases fresh : σ.Asked next
      · exact walks fresh
      · exact onward next step fresh
  obtain ⟨ends, _⟩ := walked
  exact ends line ended

/-! ### Whole searches -/

/-- The state that every search starts from. -/
def startState (x : Context) : State := { work := { maxFuzzy := x.options.maxFuzzy } }

/-- The state that a search from the seed ends in. -/
def finalState (x : Context) (seed : SearchM Unit) : State :=
  (exec (do seed; drain x x.options.maxIterations.toNat) (startState x)).2

/-- A completed search drained its worklist, and its result is read off the final state. -/
theorem runSearch_of_completed {pattern : String} {seed : SearchM Unit}
    (completed : (runSearch x pattern seed).result.outcome = .completed) :
    exec (do seed; drain x x.options.maxIterations.toNat) (startState x) = (.ok (), finalState x seed) ∧
      (runSearch x pattern seed).result.graph = (finalState x seed).work.graph ∧
      (runSearch x pattern seed).result.constants =
        sortConstants x.label (finalState x seed).constants.toList := by
  rcases ran : exec (do seed; drain x x.options.maxIterations.toNat) (startState x) with ⟨fault | ⟨⟩, τ⟩
  · have ran' : ((do seed; drain x x.options.maxIterations.toNat) : SearchM Unit).run
      { work := { maxFuzzy := x.options.maxFuzzy } } = (.error fault, τ) := ran
    simp only [runSearch, ran'] at completed
    split at completed <;> simp at completed
  · have ran' : ((do seed; drain x x.options.maxIterations.toNat) : SearchM Unit).run
      { work := { maxFuzzy := x.options.maxFuzzy } } = (.ok (), τ) := ran
    have final : finalState x seed = τ := by rw [finalState, ran]
    rw [final]
    simp only [runSearch, ran']
    exact ⟨trivial, trivial, trivial⟩

/-- The context of the search of a backward pattern with the given number. -/
def backwardContext (index : Index) (options : Options) (p : BackwardPattern) (i : Nat) : Context :=
  { index := index, options := options, search := i, forward := false, pattern := some p }

theorem getElem?_searches (index : Index) (options : Options) (p : BackwardPattern) (i : Nat) :
    (backward index options p).searches[i]? = (backwardSeeds index p)[i]?.map fun line =>
      (runSearch (backwardContext index options p i) p.text
        (seedBackward (backwardContext index options p i) p line)).result := by
  simp only [backward, runAll, List.getElem?_map, List.getElem?_zipIdx]
  cases (backwardSeeds index p)[i]? with
  | none => rfl
  | some line => simp [backwardContext]

/-- The register that a search at the seed tracks: the value returned, or the argument asked for. -/
def seedRegister? (p : BackwardPattern) (s : Site) : Option Register :=
  match s.operation with
  | .returnValue value => some value
  | .invoke _ _ => (s.instruction.argument p.param).toOption
  | _ => none

/-- A seed at a call tracks the register that carries the parameter. -/
theorem seedRegister_of_argument {p : BackwardPattern} {s : Site} {registers : List Register} {method : MethodRef}
    {register : Register} (calls : s.operation = .invoke registers method)
    (passes : s.instruction.argument p.param = .ok register) : seedRegister x p s = pure register := by
  simp only [seedRegister, calls, passes]

theorem seedRegister?_of_argument {p : BackwardPattern} {s : Site} {registers : List Register} {method : MethodRef}
    {register : Register} (calls : s.operation = .invoke registers method)
    (passes : s.instruction.argument p.param = .ok register) : seedRegister? p s = some register := by
  simp only [seedRegister?, calls, passes, Except.toOption]

/-- A static call with one parameter passes it in its first register. -/
theorem argument_of_static {i : Instruction} {r : Register} {rest : List Register} {method : MethodRef} {type : String}
    (static : i.isStaticInvoke = true) (calls : i.operation = .invoke (r :: rest) method)
    (one : method.params = [type]) : i.argument 0 = .ok r := by
  simp only [Instruction.argument, Instruction.arguments, calls, static, one, assign]
  rfl

theorem seedRegister?_of_exec {p : BackwardPattern} {s : Site} {register : Register}
    (ran : exec (seedRegister x p s) σ = (.ok register, τ)) : seedRegister? p s = some register := by
  unfold seedRegister at ran
  unfold seedRegister?
  split at ran
  · simp at ran
  · next value isReturn =>
    cases ran
    simp [isReturn]
  · next arguments method isInvoke =>
    split at ran
    · next passed =>
      cases ran
      simp [isInvoke, passed, Except.toOption]
    · simp at ran
  · simp at ran

theorem searching_startState (x : Context) : Searching x.index (startState x) where
  fits _ inside := by simp [startState] at inside
  followed _ _ _ asked := by simp [startState] at asked

/-- A seed asks for its register right above its line. -/
theorem asked_of_seedBackward {p : BackwardPattern} {line : LineId} (bounded : 0 ≤ x.options.maxFuzzy)
    (ran : exec (seedBackward x p line) (startState x) = (.ok (), σ)) :
    ∃ s register, x.index.site? line = some s ∧ seedRegister? p s = some register ∧
      σ.Asked ⟨register, s.blockId, s.position⟩ := by
  unfold seedBackward at ran
  split at ran
  · simp at ran
  · next s found =>
    obtain ⟨register, ρ₁, tracked, ran⟩ := exec_bind_eq_ok_iff.mp ran
    obtain ⟨id, ρ₂, added, admitted⟩ := exec_bind_eq_ok_iff.mp ran
    have grows := ((develops_seedRegister ..).grows tracked).trans ((develops_addNode ..).grows added)
    have fits : ρ₂.work.tooFuzzy 0 0 = false := by
      have zero : Number.wrap 0 = 0 := Number.wrap_eq (by omega) (by omega)
      rw [tooFuzzy_congr grows.maxFuzzy]
      simpa [startState, Worklist.tooFuzzy, zero] using bounded
    exact ⟨s, register, found, seedRegister?_of_exec tracked, mem_done_of_admitRegister
      (r := ⟨register, "", s.blockId, (s.position : Int) - 1, 0, 0, some (id : Int), register⟩) fits admitted⟩

section Completed

variable {index : Index} {options : Options} {p : BackwardPattern} {i : Nat} {result : SearchResult}

/-- The final state of the search of a backward pattern with the given number and seed. -/
def backwardState (index : Index) (options : Options) (p : BackwardPattern) (i : Nat) (line : LineId) : State :=
  finalState (backwardContext index options p i) (seedBackward (backwardContext index options p i) p line)

/-- A completed search followed all paths from the places that it asked for, the seed among them. -/
theorem searching_of_completed (faithful : index.Faithful) (bounded : 0 ≤ options.maxFuzzy)
    (found : (backward index options p).searches[i]? = some result) (completed : result.outcome = .completed) :
    ∃ line s register, (backwardSeeds index p)[i]? = some line ∧ index.site? line = some s ∧
      seedRegister? p s = some register ∧
      (backwardState index options p i line).Asked ⟨register, s.blockId, s.position⟩ ∧
      Searching index (backwardState index options p i line) ∧
      (backwardState index options p i line).work.registers = [] ∧
      ∀ last, (backwardState index options p i line).Keeps last →
        (∃ c ∈ result.constants, c.line = last) ∧ last ∈ result.graph.lines := by
  rw [getElem?_searches] at found
  obtain ⟨line, isSeed, rfl⟩ := Option.map_eq_some_iff.mp found
  obtain ⟨ran, graph, constants⟩ := runSearch_of_completed completed
  obtain ⟨_, σ, seeded, drained⟩ := exec_bind_eq_ok_iff.mp ran
  obtain ⟨s, register, isSite, tracked, asked⟩ := asked_of_seedBackward bounded seeded
  have started := (searching_startState _).grow ((develops_seedBackward ..).grows seeded)
  obtain ⟨searching, empty, asks⟩ := started.drain faithful rfl _ drained
  refine ⟨line, s, register, isSeed, isSite, tracked, asks _ asked, searching, empty, fun last kept => ?_⟩
  rw [graph, constants]
  refine ⟨?_, kept.2⟩
  obtain ⟨c, inside, same⟩ := kept.1
  exact ⟨c, List.mem_mergeSort.mpr (Array.mem_toList_iff.mpr inside), same⟩

/-- A completed backward search finds every line that a backward path from its seed ends at: the line
carries a constant of the search and is part of the slice. -/
theorem backward_finds_path_ends (program : Program) (excluded : List String) (options : Options)
    (p : BackwardPattern) (bounded : 0 ≤ options.maxFuzzy) (i : Nat) (result : SearchResult)
    (found : (backward (Index.ofProgram program excluded).index options p).searches[i]? = some result)
    (completed : result.outcome = .completed) :
    ∃ seed s register, (backwardSeeds (Index.ofProgram program excluded).index p)[i]? = some seed ∧
      (Index.ofProgram program excluded).index.site? seed = some s ∧ seedRegister? p s = some register ∧
      ∀ place last, Path (Index.ofProgram program excluded).index ⟨register, s.blockId, s.position⟩ place →
        Ends (Index.ofProgram program excluded).index place last →
        (∃ c ∈ result.constants, c.line = last) ∧ last ∈ result.graph.lines := by
  obtain ⟨seed, s, register, isSeed, isSite, tracked, asked, searching, empty, reported⟩ :=
    searching_of_completed (Index.faithful_ofProgram program excluded) bounded found completed
  refine ⟨seed, s, register, isSeed, isSite, tracked, fun place last path ended => ?_⟩
  exact reported last (searching.keeps empty asked path ended)

end Completed

/-- A body that copies a class constant and passes the copy on. -/
def passCopy : Method where
  owner := "LMain;"
  name := "run"
  params := []
  result := "V"
  flags := [.static]
  lines := #[
    ⟨1, "const-class", .constClass "v0" "LKey;", ""⟩,
    ⟨2, "move-object", .move "v1" "v0", ""⟩,
    ⟨3, "invoke-static", .invoke ["v1"] ⟨"LSink;", "take", ["LKey;"], "V"⟩, ""⟩,
    ⟨4, "return-void", .returnVoid, ""⟩]

/-- The program of that body. -/
def passCopyProgram : Program := Index.oneMethod passCopy

/-- Asks what reaches the sink. -/
def sinkPattern : BackwardPattern := { owner := "LSink;", method := "take", params := "", param := 0 }

/-- The pattern asks about all calls of that name whose reference has its owner. -/
theorem backwardSeeds_sinkPattern {x : Index} {lines : List LineId} (calls : (x.callSites.lines "take").toList = lines)
    (sinks : ∀ line ∈ lines, ∃ r, x.callee? line = some r ∧ Index.refMatches "LSink;" "" r = true) :
    backwardSeeds x sinkPattern = lines := by
  simp only [backwardSeeds, sinkPattern, Index.callSitesMatching, calls, List.filter_eq_self, Bool.false_eq_true, if_false]
  intro line inside
  obtain ⟨r, called, same⟩ := sinks line inside
  rw [called]
  exact same

/-- Options under which a few items are searched. -/
def fewIterations : Options := { Options.default with maxIterations := 4 }

/-- The graph of that body. -/
def passCopyGraph : BlockGraph.Graph where
  blocks := #[
    { lines := [0, 1, 2, 3], label := some 0, preds := [], succs := [], returns := true, throws := false,
      jumps := false, dead := false, isTry := false, isHandler := false }]

/-- The index of that program. -/
def passCopyIndex : Index := .single passCopy passCopyGraph [2]

theorem index_passCopyProgram : (Index.ofProgram passCopyProgram []).index = passCopyIndex :=
  Index.index_oneMethod (by decide) (by cbv) (by decide) rfl

/-- The class constant is found through the copy. -/
theorem passCopy_found :
    0 ≤ fewIterations.maxFuzzy ∧
      ∃ result, (backward (Index.ofProgram passCopyProgram []).index fewIterations sinkPattern).searches[0]? =
        some result ∧ result.outcome = .completed ∧ ∃ c ∈ result.constants, c.line = .body ⟨0, 0⟩ 0 := by
  have outcomes : (backward passCopyIndex fewIterations sinkPattern).searches.map SearchResult.outcome =
      [.completed] := by cbv
  obtain ⟨result, only, completed⟩ := List.map_eq_singleton_iff.mp outcomes
  have found : (backward (Index.ofProgram passCopyProgram []).index fewIterations sinkPattern).searches[0]? =
      some result := by
    rw [index_passCopyProgram, only]
    rfl
  obtain ⟨seed, s, register, isSeed, isSite, tracked, complete⟩ :=
    backward_finds_path_ends passCopyProgram [] fewIterations sinkPattern (by decide) 0 result found completed
  refine ⟨by decide, result, found, completed, ?_⟩
  rw [index_passCopyProgram] at isSeed isSite complete
  have calls : (passCopyIndex.callSites.lines "take").toList = [LineId.body ⟨0, 0⟩ 2] :=
    (Index.lines_single "take").trans (by decide)
  rw [backwardSeeds_sinkPattern calls (by simpa using ⟨_, rfl, by decide⟩)] at isSeed
  cases isSeed
  have located : passCopyGraph.locate? 2 = some (0, 2) := by
    simp [BlockGraph.Graph.locate?, passCopyGraph, List.findIdx?_cons]
  cases (Index.site?_of_prepared rfl located rfl).symm.trans isSite
  cases (seedRegister?_of_argument rfl (argument_of_static (by decide) rfl rfl)).symm.trans tracked
  have sites : passCopyIndex.sites ⟨⟨0, 0⟩, 0⟩ = passCopy.lines.toList.zipIdx.map fun entry =>
      ⟨⟨0, 0⟩, entry.2, entry.1, 0, entry.2⟩ := (Index.sites_of_prepared rfl rfl).trans rfl
  have copied : Path passCopyIndex ⟨"v1", ⟨⟨0, 0⟩, 0⟩, 2⟩ ⟨"v0", ⟨⟨0, 0⟩, 0⟩, 1⟩ :=
    .single (.through (n := 1) (by rw [sites]; rfl) rfl (by decide) (by decide))
  exact (complete _ _ copied (.intro (n := 0) (by rw [sites]; rfl) rfl (by decide))).1

end SmaliTrace.Slice
