import SmaliTrace.Proofs.Slice.Ceiling

/-!
The fuzzy level of a constant. What a walk finds is kept at the level of its item, and the line of a constant
carries the lowest level of the walks that found it. That is not the lowest level of all paths to the line: an
item is performed once, at the level of its first request.
-/
namespace SmaliTrace.Slice
open SmaliTrace.Smali SmaliTrace.ClassFile

variable {x : Context} {r : RegisterSearch} {c c' : Cursor} {s : Site} {σ τ ρ : State} {v : Option Cursor}
  {level : Int} {line : LineId}

/-! ### What a line is kept at -/

/-- The line carries a constant of the level or of a lower one. -/
def State.KeepsWithin (σ : State) (level : Int) (line : LineId) : Prop :=
  ∃ k ∈ σ.constants, k.line = line ∧ k.fuzzy ≤ level

theorem State.KeepsWithin.gain (kept : σ.KeepsWithin level line) (gains : Gains σ τ) :
    τ.KeepsWithin level line := by
  obtain ⟨k, inside, isLine, below⟩ := kept
  obtain ⟨k', inside', isLine', below'⟩ := gains.constants k inside
  exact ⟨k', inside', isLine'.trans isLine, below'.trans below⟩

theorem keepsWithin_keep (σ : State) (k : Constant) : (σ.keep k).KeepsWithin k.fuzzy k.line := by
  unfold State.keep addConstant
  split
  · next i found =>
    obtain ⟨bound, same, _⟩ := Array.findIdx?_eq_some_iff_getElem.mp found
    refine ⟨{ σ.constants[i] with fuzzy := min σ.constants[i].fuzzy k.fuzzy }, Array.mem_of_getElem? (i := i) ?_,
      by simpa using same, min_le_right ..⟩
    rw [Array.getElem?_modify, if_pos rfl, Array.getElem?_eq_getElem bound]
    rfl
  · exact ⟨k, by simp, rfl, le_refl _⟩

theorem keepsWithin_of_terminal {kind : ConstantKind} {value : Text.Octets} {raw : String}
    (ran : exec (terminal x c line kind value raw level) σ = (.ok c', τ)) : τ.KeepsWithin level line := by
  unfold terminal at ran
  simp only [exec_bind_eq_ok_iff] at ran
  obtain ⟨id, ρ₁, added, _, ρ₂, kept, _, ρ₃, produced, last⟩ := ran
  cases kept
  cases last
  exact (keepsWithin_keep ρ₁ _).gain ((develops_produceIf ..).enlists produced).toGains

/-- A line that the value begins at is kept at the level of the walk. -/
theorem keepsWithin_of_backwardLine (defines : s.operation.result? = some c.register)
    (makes : s.operation.kind ∈ originating) (ran : exec (backwardLine x r c s) σ = (.ok v, τ)) :
    τ.KeepsWithin r.fuzzy s.id := by
  have opcode : ∀ {value : String}, exec (do opcodeValue x r c s value; pure none) σ = (.ok v, τ) →
      τ.KeepsWithin r.fuzzy s.id := by
    intro value ran
    simp only [opcodeValue, exec_bind_eq_ok_iff] at ran
    obtain ⟨_, _, ⟨_, _, ended, unit⟩, last⟩ := ran
    cases unit
    cases last
    exact keepsWithin_of_terminal ended
  rw [backwardLine_eq_of_defines defines, backwardDefinition] at ran
  cases isOperation : s.operation with
  | constLiteral _ raw =>
    rw [isOperation] at ran
    obtain ⟨_, _, loaded, last⟩ := exec_bind_eq_ok_iff.mp ran
    cases last
    unfold literalLoad at loaded
    split at loaded
    · simp at loaded
    · obtain ⟨_, _, ended, unit⟩ := exec_bind_eq_ok_iff.mp loaded
      cases unit
      exact keepsWithin_of_terminal ended
  | constClass _ _ | newInstance _ _ | newArray _ _ _ | instanceOf _ _ _ | arrayLength _ _ | compare _ _ _
  | moveException _ =>
    rw [isOperation] at ran
    exact opcode ran
  | _ => simp [isOperation, Operation.kind, originating] at makes

/-! ### Walks -/

/-- The step stays in the walk of one item: to the line above, with the register or the first operand of a line
that carries its value. All other steps of a path go over to another item. -/
inductive Stays (x : Index) : Place → Place → Prop
  | pass {r : Register} {b : BlockId} {n : Nat} {s : Site} (line : (x.sites b)[n]? = some s)
      (spared : Spares s.operation r) : Stays x ⟨r, b, n + 1⟩ ⟨r, b, n⟩
  | through {r source : Register} {b : BlockId} {n : Nat} {s : Site} (line : (x.sites b)[n]? = some s)
      (defines : s.operation.result? = some r) (carries : s.operation.kind ∈ carrying)
      (first : s.operation.sources.head? = some source) : Stays x ⟨r, b, n + 1⟩ ⟨source, b, n⟩

/-- The array that the operation fills. -/
def filledArray? : Operation → Option Register
  | .fillArrayData array _ => some array
  | _ => none

instance (op : Operation) (register : Register) : Decidable (Spares op register) :=
  decidable_of_iff (op.result? ≠ some register ∧ filledArray? op ≠ some register)
    (and_congr_right fun _ => by cases op <;> simp [filledArray?])

theorem Stays.pathStep {index : Index} {place next : Place} (stays : Stays index place next) :
    PathStep index place next := by
  cases stays with
  | pass line spared => exact .pass line spared
  | through line defines carries first => exact .through line defines carries (List.mem_of_mem_head? first)

/-- A stretch of lines that spare the register stays in one walk. -/
theorem stays_of_spared {index : Index} {b : BlockId} {register : Register} {n k : Nat}
    (inside : n + k ≤ (index.sites b).length)
    (spared : ∀ s ∈ ((index.sites b).drop n).take k, Spares s.operation register) :
    Relation.ReflTransGen (Stays index) ⟨register, b, n + k⟩ ⟨register, b, n⟩ := by
  induction k with
  | zero => exact .refl
  | succ k ih =>
    have line : (index.sites b)[n + k]? = some ((index.sites b)[n + k]) := List.getElem?_eq_getElem (by omega)
    have member : (index.sites b)[n + k] ∈ ((index.sites b).drop n).take (k + 1) :=
      List.mem_of_getElem? (i := k) (by rw [List.getElem?_take_of_lt (by omega), List.getElem?_drop, line])
    refine .head (.pass line (spared _ member)) (ih (by omega) fun s earlier => spared s ?_)
    exact (List.take_subset_take_left _ (by omega)) earlier

/-- All lines up to the end of the walk are kept at its level, and where it ends, all steps are asked for. -/
inductive WalkedAt (x : Index) (level : Int) (σ : State) : Place → Prop
  | intro {place : Place} (ends : ∀ line, Ends x place line → σ.KeepsWithin level line)
      (stays : ∀ next, Stays x place next → WalkedAt x level σ next)
      (leaves : ∀ next, PathStep x place next → ¬ Stays x place next → σ.Asked next) : WalkedAt x level σ place

/-- A line that carries the value goes on with its first operand. -/
theorem head_of_backwardLine (defines : s.operation.result? = some c.register)
    (carries : s.operation.kind ∈ carrying) (ran : exec (backwardLine x r c s) σ = (.ok v, τ)) :
    ∃ c', v = some c' ∧ s.operation.sources.head? = some c'.register := by
  rw [backwardLine_eq_of_defines defines, backwardDefinition] at ran
  cases isOperation : s.operation with
  | move _ source | unaryMath _ source =>
    rw [isOperation] at ran
    obtain ⟨c', stepped, rfl⟩ := exec_map_eq_ok_iff.mp ran
    exact ⟨c', rfl, by rw [register_of_step stepped]; rfl⟩
  | literalMath _ source raw =>
    rw [isOperation] at ran
    obtain ⟨c', ρ, stepped, ran⟩ := exec_bind_eq_ok_iff.mp ran
    split at ran
    · simp at ran
    · obtain ⟨_, _, _, last⟩ := exec_bind_eq_ok_iff.mp ran
      cases last
      exact ⟨c', rfl, by rw [register_of_step stepped]; rfl⟩
  | inPlaceMath _ _ | binaryMath _ _ _ =>
    rw [isOperation] at ran
    obtain ⟨c', ρ, stepped, ran⟩ := exec_bind_eq_ok_iff.mp ran
    refine ⟨c', ?_, by rw [register_of_step stepped]; rfl⟩
    dsimp only at ran
    split at ran
    · obtain ⟨_, _, _, last⟩ := exec_bind_eq_ok_iff.mp ran
      cases last
      rfl
    · cases ran
      rfl
  | _ => simp [isOperation, Operation.kind, carrying] at carries

/-- The lines of a block that a search goes over are walked at its level, if the top of the block is. -/
theorem walkedAt_of_backwardLines (faithful : x.index.Faithful) (b : BlockId) (n : Nat) (fits : σ.Fits r)
    (ran : exec (backwardLines x r c (linesBack x b ((n : Int) - 1))) σ = (.ok v, τ)) (gains : Gains τ ρ)
    (top : ∀ c', v = some c' → WalkedAt x.index r.fuzzy ρ ⟨c'.register, b, 0⟩) :
    WalkedAt x.index r.fuzzy ρ ⟨c.register, b, n⟩ := by
  induction n generalizing c σ with
  | zero =>
    have none : linesBack x b ((0 : Nat) - 1) = [] := by simp [linesBack]
    rw [none] at ran
    cases ran
    exact top c rfl
  | succ n ih =>
    cases line : (x.index.sites b)[n]? with
    | none =>
      refine ⟨fun _ ended => ?_, fun _ stays => ?_, fun _ step _ => ?_⟩
      · cases ended with
        | intro line' => simp [line] at line'
      · cases stays with
        | pass line' => simp [line] at line'
        | through line' => simp [line] at line'
      · cases step with
        | pass line' => simp [line] at line'
        | through line' => simp [line] at line'
    | some s =>
      obtain ⟨here, position, -⟩ := faithful.site_of_getElem? line
      rw [show ((n + 1 : Nat) : Int) - 1 = n by omega, linesBack_succ line] at ran
      obtain ⟨w, ρ₁, first, rest⟩ := exec_bind_eq_ok_iff.mp ran
      have enlists := (develops_backwardLine x r c s).enlists first
      have rest' : Gains ρ₁ ρ := by
        refine (Develops.enlists ?_ rest).toGains.trans gains
        split
        · exact develops_backwardLines ..
        · exact .pure _
      have onward : ∀ c', w = some c' → WalkedAt x.index r.fuzzy ρ ⟨c'.register, b, n⟩ := by
        rintro c' rfl
        exact ih ((tooFuzzy_congr enlists.maxFuzzy ..).trans fits) rest
      refine ⟨fun line' ended => ?_, fun next stays => ?_, fun next step other => ?_⟩
      · cases ended with
        | intro line' defines makes =>
          cases line.symm.trans line'
          exact (keepsWithin_of_backwardLine defines makes first).gain rest'
      · cases stays with
        | pass line' spared =>
          cases line.symm.trans line'
          obtain ⟨c', rfl, same⟩ := register_of_backwardLine spared first
          exact same ▸ onward c' rfl
        | through line' defines carries isFirst =>
          cases line.symm.trans line'
          obtain ⟨c', rfl, head⟩ := head_of_backwardLine defines carries first
          cases isFirst.symm.trans head
          exact onward c' rfl
      · cases step with
        | pass line' spared => exact absurd (.pass line' spared) other
        | @through _ source _ _ _ line' defines carries comes =>
          cases line.symm.trans line'
          obtain ⟨c', rfl, sources⟩ := continues_of_backwardLine fits defines carries first
          obtain ⟨_, same, head⟩ := head_of_backwardLine defines carries first
          cases same
          rcases sources source comes with rfl | asked
          · exact absurd (.through line' defines carries head) other
          · rw [here, position] at asked
            exact rest'.done _ asked

theorem walkedAt_of_backwardRegister (faithful : x.index.Faithful) (fits : σ.Fits r)
    (ran : exec (backwardRegister x r) σ = (.ok (), τ)) (gains : Gains τ ρ) :
    WalkedAt x.index r.fuzzy ρ r.place := by
  obtain ⟨v, π, walked, rest⟩ := exec_bind_eq_ok_iff.mp ran
  rw [linesBack_toNat] at walked
  have fits' := fits.grow ((develops_backwardLines ..).grows walked)
  have gains' : Gains π ρ := by
    refine (Develops.enlists ?_ rest).toGains.trans gains
    split
    · exact develops_blockTop ..
    · exact .pure _
  refine walkedAt_of_backwardLines faithful r.block (r.index + 1).toNat fits walked gains' ?_
  rintro c rfl
  -- at the top nothing stays: every step goes over to another item
  refine ⟨fun _ ended => (nomatch ended), fun _ stays => (nomatch stays), fun next step _ => ?_⟩
  exact gains.done _ (asked_of_blockTop fits' rest step)

/-! ### Levels -/

/-- After a request nothing new waits, the item of the request apart. -/
theorem waits_accept {w : Worklist} (item : Item) {other : Item} {fuzzy offset : Int} {o : Origin}
    {enqueue : Worklist → Worklist} (waits : ∀ w other, (enqueue w).Waits other ↔ w.Waits other ∨ other = item)
    (waiting : (w.accept item.key fuzzy offset o enqueue).1.Waits other) : w.Waits other ∨ other = item := by
  rcases w.accept_cases item.key fuzzy offset o enqueue with ⟨_, refused⟩ | ⟨_, i, _, linked⟩ | ⟨_, _, queued⟩
  · rw [refused] at waiting
    exact .inl waiting
  · rw [linked, (Worklist.relinked_inherit ..).waits, (Worklist.relinked_duplicate ..).waits] at waiting
    exact .inl waiting
  · rw [queued, waits, (Worklist.relinked_opened ..).waits] at waiting
    exact waiting

/-- A constant is only added on a line that has none. -/
theorem distinct_keep (k : Constant) (distinct : (σ.constants.toList.map Constant.line).Nodup) :
    ((σ.keep k).constants.toList.map Constant.line).Nodup := by
  unfold State.keep addConstant
  split
  · dsimp only
    rwa [map_toList_modify (by exact fun _ => rfl)]
  · next absent =>
    simp only [Array.toList_push, List.map_append, List.map_cons, List.map_nil]
    refine List.Nodup.append distinct (List.nodup_singleton _) ?_
    simpa [Array.findIdx?_eq_none_iff] using absent

/-- No level is negative, and no two constants stand on one line. -/
structure Leveled (σ : State) : Prop where
  waits : ∀ item, σ.work.Waits item → 0 ≤ item.level
  constants : ∀ k ∈ σ.constants, 0 ≤ k.fuzzy
  distinct : (σ.constants.toList.map Constant.line).Nodup

theorem Leveled.of_same (leveled : Leveled σ) (waits : ∀ item, τ.work.Waits item → 0 ≤ item.level)
    (constants : τ.constants = σ.constants) : Leveled τ :=
  ⟨waits, constants ▸ leveled.constants, constants ▸ leveled.distinct⟩

theorem Leveled.keep {k : Constant} (leveled : Leveled σ) (nonneg : 0 ≤ k.fuzzy) : Leveled (σ.keep k) := by
  refine ⟨leveled.waits, fun k' inside => ?_, ?_⟩
  · unfold State.keep addConstant at inside
    split at inside
    · next i _ =>
      obtain ⟨j, isAt⟩ := Array.mem_iff_getElem?.mp inside
      rw [Array.getElem?_modify] at isAt
      split at isAt
      · obtain ⟨k₀, at₀, rfl⟩ := Option.map_eq_some_iff.mp isAt
        exact le_min (leveled.constants k₀ (Array.mem_of_getElem? at₀)) nonneg
      · exact leveled.constants k' (Array.mem_of_getElem? isAt)
    · rcases Array.mem_push.mp inside with old | rfl
      · exact leveled.constants k' old
      · exact nonneg
  · exact distinct_keep k leveled.distinct

theorem Leveled.twin {n : Int} {r' : RegisterSearch} {before after : State × State} (nonneg : 0 ≤ r.fuzzy)
    (leveled : Leveled before.1) (twin : Twin x n r r' before after) : Leveled after.1 := by
  cases twin with
  | @register σ _ q _ _ level =>
    refine leveled.of_same (fun item waiting => ?_) rfl
    rcases waits_accept (.register q) (Worklist.waits_enqueueRegister q) waiting with old | rfl
    · exact leveled.waits item old
    · change 0 ≤ q.fuzzy
      rcases level with ⟨here, _⟩ | ⟨deeper, _⟩ <;> omega
  | @content σ _ kind q _ _ level =>
    refine leveled.of_same (fun item waiting => ?_) rfl
    rcases waits_accept (.content kind q) (Worklist.waits_enqueueContent kind q) waiting with old | rfl
    · exact leveled.waits item old
    · exact nonneg.trans_eq level.1.symm
  | @skipped σ _ q level =>
    refine leveled.of_same (fun item waiting => ?_) rfl
    rcases waits_accept (.content .field q) (Worklist.waits_enqueueContent .field q) waiting with old | rfl
    · exact leveled.waits item old
    · exact nonneg.trans_eq level.symm
  | kept _ _ _ level => exact leveled.keep (nonneg.trans level)
  | quiet _ quiet =>
    exact leveled.of_same (fun item waiting => leveled.waits item ((quiet.waits item).mp waiting)) quiet.constants
  | alone => exact leveled

theorem Leveled.twins {n : Int} {r' : RegisterSearch} {before after : State × State} (nonneg : 0 ≤ r.fuzzy)
    (leveled : Leveled before.1) (twins : Twins x n r r' before after) : Leveled after.1 := by
  induction twins with
  | refl => exact leveled
  | tail _ twin ih => exact ih.twin nonneg twin

theorem SameItem.refl (x : Context) (item : Item) : SameItem x item item := by
  cases item with
  | register r => exact rfl
  | content kind q => exact ⟨rfl, rfl, rfl, fun _ => rfl⟩

/-- An item is performed at its level: what it asks for and finds is of no lower one. -/
theorem Leveled.performNext {item : Item} (backward : x.forward = false) (leveled : Leveled σ)
    (next : σ.work.next? = some item) (ran : exec (performNext x) σ = (.ok (), τ)) : Leveled τ := by
  obtain ⟨ρ, ρ', takes, performs, quiet⟩ := performNext_cases ran next
  have taken : Leveled ρ :=
    leveled.of_same (fun other waiting => leveled.waits other (takes.before other waiting)) takes.constants
  have nonneg : 0 ≤ item.terms.fuzzy := by
    have := leveled.waits item takes.waited
    cases item <;> exact this
  -- the search next to itself: the levels of its changes are those of its item
  have mirrors := mirrors_perform (n := x.options.maxFuzzy) backward (SameItem.refl x item)
  obtain ⟨-, twins⟩ := mirrors.run performs performs
  have performed : Leveled ρ' := taken.twins nonneg twins
  exact performed.of_same (fun other waiting => performed.waits other ((quiet.waits other).mp waiting)) quiet.constants

/-- A seed asks for its register at level 0, and for nothing else. -/
theorem waits_of_seedBackward {p : BackwardPattern} (bounded : 0 ≤ x.options.maxFuzzy)
    (ran : exec (seedBackward x p line) (startState x) = (.ok (), σ)) :
    Leveled σ ∧ ∃ s register q, x.index.site? line = some s ∧ seedRegister? p s = some register ∧
      σ.work.Waits (.register q) ∧ q.place = ⟨register, s.blockId, s.position⟩ ∧ q.fuzzy = 0 := by
  obtain ⟨s, register, isSite, tracked, asked⟩ := asked_of_seedBackward bounded ran
  have enlists := (develops_seedBackward x p line).enlists ran
  obtain ⟨s', register', isSite', tracked', id, rfl⟩ := seedBackward_cases ran
  cases isSite.symm.trans isSite'
  cases tracked.symm.trans tracked'
  have only : ∀ item, (((startState x).work.addNode s.id none ⟨register, register⟩).1.admitRegister
      (seedSearch s register id)).1.Waits item → item = .register (seedSearch s register id) := by
    intro item waiting
    rcases waits_accept (.register _) (Worklist.waits_enqueueRegister _) waiting with before | same
    · exact absurd (by cases item <;> exact before) (not_waits_startState x item)
    · exact same
  obtain ⟨item, waiting, -⟩ := (enlists.asked _ asked).resolve_left (by simp [startState])
  rw [only item waiting] at waiting
  refine ⟨⟨fun item waiting => ?_, ?_, ?_⟩, s, register, _, isSite, tracked, waiting, ?_, rfl⟩
  · rw [only item waiting]
    exact le_refl 0
  · intro k inside
    simp [startState] at inside
  · simp [startState]
  · simp [RegisterSearch.place, seedSearch]

/-! ### Whole searches -/

/-- All searches of the register from the place were performed at level 0. -/
def PerformedAtZero (items : List Item) (place : Place) : Prop :=
  ∀ q, .register q ∈ items → q.key = .register place.register place.block ((place.above : Int) - 1) → q.fuzzy = 0

/-- A step of a backward path that stays in its walk, or goes over to an item of level 0. -/
def LevelStep (x : Index) (items : List Item) (place next : Place) : Prop :=
  PathStep x place next ∧ (Stays x place next ∨ PerformedAtZero items next)

/-- What a walk of level 0 leads to by such steps is walked at level 0. -/
theorem WalkedAt.path {items : List Item} {start place : Place} (faithful : x.index.Faithful)
    (backward : x.forward = false) (drained : Drained x items τ) (walked : WalkedAt x.index 0 τ start)
    (path : Relation.ReflTransGen (LevelStep x.index items) start place) : WalkedAt x.index 0 τ place := by
  induction path with
  | refl => exact walked
  | @tail before next _ levelStep ih =>
    obtain ⟨_, stays, leaves⟩ := ih
    obtain ⟨step, atZero⟩ := levelStep
    by_cases stay : Stays x.index before next
    · exact stays next stay
    · -- the item of the place was performed, and at level 0
      obtain ⟨item, inside, isKey⟩ := drained.asked _ (leaves next step stay)
      obtain ⟨ρ, ρ', performs, _, gains, _, fits⟩ := drained.ran item inside
      cases item with
      | content kind c => simp [Item.key, ContentSearch.key] at isKey
      | register q =>
        have walked := walkedAt_of_backwardRegister faithful fits
          (by simpa [Item.perform, searchRegister, backward] using performs) gains
        obtain ⟨register, block, index⟩ := ItemKey.register.inj isKey
        have isPlace : q.place = next := by
          simp [RegisterSearch.place, register, block, index]
        rwa [isPlace, atZero.resolve_left stay q inside isKey] at walked

/-- A constant that a completed search can be led to by a path without a library call, all of whose items were
performed at level 0, is reported at level 0. -/
theorem backward_reports_level_zero (program : Program) (excluded : List String) (options : Options)
    (p : BackwardPattern) (bounded : 0 ≤ options.maxFuzzy) (i : Nat) (result : SearchResult)
    (found : (backward (Index.ofProgram program excluded).index options p).searches[i]? = some result)
    (completed : result.outcome = .completed) :
    ∃ seed s register, (backwardSeeds (Index.ofProgram program excluded).index p)[i]? = some seed ∧
      (Index.ofProgram program excluded).index.site? seed = some s ∧ seedRegister? p s = some register ∧
      ∀ place last, Relation.ReflTransGen (LevelStep (Index.ofProgram program excluded).index
          (backwardItems (Index.ofProgram program excluded).index options p i seed))
          ⟨register, s.blockId, s.position⟩ place →
        Ends (Index.ofProgram program excluded).index place last →
        (∃ c ∈ result.constants, c.line = last) ∧ ∀ c ∈ result.constants, c.line = last → c.fuzzy = 0 := by
  have faithful := Index.faithful_ofProgram program excluded
  obtain ⟨seed, σ, isSeed, seeded, _, ran, items, drained, constants⟩ := drained_of_completed found completed
  obtain ⟨leveled, s, register, q, isSite, tracked, waiting, isPlace, isZero⟩ := waits_of_seedBackward bounded seeded
  refine ⟨seed, s, register, isSeed, isSite, tracked, fun place last path ended => ?_⟩
  -- the walk of the seed, and the walks that the path leads to from there
  have first := mem_performed_of_waits waiting ran
  rw [← items] at first
  obtain ⟨ρ, ρ', performs, _, gains, _, fits⟩ := drained.ran _ first
  have start := walkedAt_of_backwardRegister (x := backwardContext _ options p i) faithful fits performs gains
  rw [isPlace, isZero] at start
  obtain ⟨ends, _, _⟩ := start.path (x := backwardContext _ options p i) faithful rfl drained path
  obtain ⟨k, inside, isLine, below⟩ := ends last ended
  -- no level is lower, and no other constant stands on the line
  obtain ⟨-, nonneg, distinct⟩ := (drain_invariant ran leveled fun item _ ρ ρ' next ran leveled =>
    leveled.performNext rfl next ran).1
  refine ⟨⟨k, (constants k).mpr inside, isLine⟩, fun c member isLine' => ?_⟩
  have same : c = k := List.inj_on_of_nodup_map distinct (Array.mem_toList_iff.mpr ((constants c).mp member))
    (Array.mem_toList_iff.mpr inside) (isLine'.trans isLine.symm)
  rw [same]
  exact le_antisymm below (nonneg k inside)

/-! ### A short way of a higher level -/

/-- A body that passes on two class constants, the first of them either after a call, or as it is but by a longer
way. -/
def longWay : Method where
  owner := "LMain;"
  name := "run"
  params := ["I"]
  result := "V"
  flags := [.static]
  lines := #[
    ⟨1, "const-class", .constClass "v3" "LKey;", ""⟩,
    ⟨2, "const-class", .constClass "v4" "LLock;", ""⟩,
    ⟨3, "if-eqz", .ifZero "p0" "far", ""⟩,
    ⟨4, "invoke-static", .invoke ["v3"] ⟨"L;", "f", ["LKey;"], "LKey;"⟩, ""⟩,
    ⟨5, "move-result-object", .moveResult "v1", ""⟩,
    ⟨6, "goto", .goto "sink", ""⟩,
    ⟨7, "", .label "far", ""⟩,
    ⟨8, "move-object", .move "v1" "v3", ""⟩,
    ⟨9, "goto", .goto "second", ""⟩,
    ⟨10, "", .label "second", ""⟩,
    ⟨11, "goto", .goto "sink", ""⟩,
    ⟨12, "", .label "sink", ""⟩,
    ⟨13, "invoke-static", .invoke ["v1"] ⟨"LSink;", "take", ["LKey;"], "V"⟩, ""⟩,
    ⟨14, "invoke-static", .invoke ["v4"] ⟨"LSink;", "take", ["LKey;"], "V"⟩, ""⟩,
    ⟨15, "return-void", .returnVoid, ""⟩]

def longWayProgram : Program := Index.oneMethod longWay

def longWayGraph : BlockGraph.Graph where
  blocks := #[
    { lines := [0, 1, 2], label := some 0, preds := [], succs := [1, 2], returns := false, throws := false,
      jumps := false, dead := false, isTry := false, isHandler := false },
    { lines := [3, 4, 5], label := some 1, preds := [0], succs := [4], returns := false, throws := false,
      jumps := true, dead := false, isTry := false, isHandler := false },
    { lines := [6, 7, 8], label := some 3, preds := [0], succs := [3], returns := false, throws := false,
      jumps := true, dead := false, isTry := false, isHandler := false },
    { lines := [9, 10], label := some 4, preds := [2], succs := [4], returns := false, throws := false,
      jumps := true, dead := false, isTry := false, isHandler := false },
    { lines := [11, 12, 13, 14], label := some 2, preds := [1, 3], succs := [], returns := true, throws := false,
      jumps := false, dead := false, isTry := false, isHandler := false }]

def longWayIndex : Index := .single longWay longWayGraph [3, 12, 13]

theorem index_longWayProgram : (Index.ofProgram longWayProgram []).index = longWayIndex :=
  Index.index_oneMethod (by decide) (by cbv) (by decide) (by cbv)

theorem block?_longWayIndex (b : Nat) : longWayIndex.block? ⟨⟨0, 0⟩, b⟩ = longWayGraph.blocks[b]? :=
  Index.block?_of_prepared rfl b

/-- The lines of a block of that body. -/
def longWaySites (b : Nat) : List Site :=
  ((longWayGraph.blocks.getD b default).lines.zipIdx.map fun entry =>
    ⟨⟨0, 0⟩, entry.1, longWay.lines.getD entry.1 default, b, entry.2⟩)

theorem sites_longWayIndex : ∀ b < 5, longWayIndex.sites ⟨⟨0, 0⟩, b⟩ = longWaySites b := by
  intro b small
  interval_cases b <;> exact (Index.sites_of_prepared rfl rfl).trans rfl

theorem stays_longWay (r : Register) (b n k : Nat) (small : b < 5) (inside : n + k ≤ (longWaySites b).length)
    (spared : ∀ s ∈ ((longWaySites b).drop n).take k, Spares s.operation r) :
    Relation.ReflTransGen (Stays longWayIndex) ⟨r, ⟨⟨0, 0⟩, b⟩, n + k⟩ ⟨r, ⟨⟨0, 0⟩, b⟩, n⟩ :=
  stays_of_spared (by rwa [sites_longWayIndex b small]) (by rwa [sites_longWayIndex b small])

theorem pred_longWay {register : Register} {b p : Nat} {block before : BlockGraph.Block}
    (found : longWayGraph.blocks[b]? = some block) (edge : p ∈ block.preds)
    (found' : longWayGraph.blocks[p]? = some before) :
    PathStep longWayIndex ⟨register, ⟨⟨0, 0⟩, b⟩, 0⟩ ⟨register, ⟨⟨0, 0⟩, p⟩, before.lines.length⟩ :=
  .pred ((block?_longWayIndex b).trans found) edge ((block?_longWayIndex p).trans found')

/-- The run of the search from one of the sinks of that body. -/
def longWayRun (i : Nat) (line : LineId) : Except Fault Unit × State :=
  exec (do
    seedBackward (backwardContext longWayIndex (ceilingOf 1) sinkPattern i) sinkPattern line
    drain (backwardContext longWayIndex (ceilingOf 1) sinkPattern i) (ceilingOf 1).maxIterations.toNat)
    (startState (backwardContext longWayIndex (ceilingOf 1) sinkPattern i))

theorem seeds_longWayIndex :
    backwardSeeds longWayIndex sinkPattern = [.body ⟨0, 0⟩ 12, .body ⟨0, 0⟩ 13] := by
  have calls : (longWayIndex.callSites.lines "take").toList = [LineId.body ⟨0, 0⟩ 12, LineId.body ⟨0, 0⟩ 13] :=
    (Index.lines_single "take").trans (by decide)
  exact backwardSeeds_sinkPattern calls (by simpa using ⟨⟨_, rfl, by decide⟩, _, rfl, by decide⟩)

/-- What the two searches come to, and the levels of what the second one performs. -/
theorem longWayRuns_eq :
    ((longWayRun 0 (.body ⟨0, 0⟩ 12)).1,
      (longWayRun 0 (.body ⟨0, 0⟩ 12)).2.constants.toList.map fun c => (c.line, c.fuzzy)) =
        (.ok (), [(.body ⟨0, 0⟩ 3, 0), (.body ⟨0, 0⟩ 0, 1)]) ∧
    (longWayRun 1 (.body ⟨0, 0⟩ 13)).1 = .ok () ∧
    (backwardItems longWayIndex (ceilingOf 1) sinkPattern 1 (.body ⟨0, 0⟩ 13)).map Item.level = [0, 0, 0, 0, 0] := by
  cbv

/-- A sink of that body: the line, and the register that it is passed. -/
def longWaySink (line position : Nat) (register : Register) : Site :=
  ⟨⟨0, 0⟩, line, ⟨line + 1, "invoke-static", .invoke [register] ⟨"LSink;", "take", ["LKey;"], "V"⟩, ""⟩, 4, position⟩

theorem site?_longWayIndex : longWayIndex.site? (.body ⟨0, 0⟩ 12) = some (longWaySink 12 1 "v1") ∧
    longWayIndex.site? (.body ⟨0, 0⟩ 13) = some (longWaySink 13 2 "v4") := by
  constructor <;>
    exact Index.site?_of_prepared rfl (by simp [BlockGraph.Graph.locate?, longWayGraph, List.findIdx?_cons]) rfl

theorem seedRegister?_longWaySink : seedRegister? sinkPattern (longWaySink 12 1 "v1") = some "v1" ∧
    seedRegister? sinkPattern (longWaySink 13 2 "v4") = some "v4" := by
  constructor <;> exact seedRegister?_of_argument rfl (argument_of_static (by decide) rfl rfl)

theorem ends_longWay {b n : Nat} {register : Register} (small : b < 5) (inside : n < (longWaySites b).length)
    (defines : (longWaySites b)[n].operation.result? = some register)
    (makes : (longWaySites b)[n].operation.kind ∈ originating) :
    Ends longWayIndex ⟨register, ⟨⟨0, 0⟩, b⟩, n + 1⟩ (longWaySites b)[n].id :=
  .intro (by rw [sites_longWayIndex b small, List.getElem?_eq_getElem inside]) defines makes

/-- The way from the first sink without a call, over the copy of the first constant. -/
theorem path_longWay : Path longWayIndex ⟨"v1", ⟨⟨0, 0⟩, 4⟩, 1⟩ ⟨"v3", ⟨⟨0, 0⟩, 0⟩, 1⟩ := by
  have sink := stays_longWay "v1" 4 0 1 (by decide) (by decide) (by decide)
  have second := stays_longWay "v1" 3 0 2 (by decide) (by decide) (by decide)
  have far := stays_longWay "v1" 2 2 1 (by decide) (by decide) (by decide)
  have copied : Stays longWayIndex ⟨"v1", ⟨⟨0, 0⟩, 2⟩, 2⟩ ⟨"v3", ⟨⟨0, 0⟩, 2⟩, 1⟩ :=
    .through (n := 1) (by rw [sites_longWayIndex 2 (by decide)]; rfl) rfl (by decide) (by decide)
  have label := stays_longWay "v3" 2 0 1 (by decide) (by decide) (by decide)
  have load := stays_longWay "v3" 0 1 2 (by decide) (by decide) (by decide)
  have up : ∀ {a b}, Relation.ReflTransGen (Stays longWayIndex) a b → Path longWayIndex a b :=
    fun run => run.lift id fun _ _ => Stays.pathStep
  have toSecond := (up sink).tail (pred_longWay (p := 3) rfl (by decide) rfl)
  have toFar := (up second).tail (pred_longWay (p := 2) rfl (by decide) rfl)
  have toLoad := (up ((far.tail copied).trans label)).tail (pred_longWay (p := 0) rfl (by decide) rfl)
  exact ((toSecond.trans toFar).trans toLoad).trans (up load)

/-- The first constant is reported at level 1, as the way through the call is the shorter one, although a path
without a call leads to it. -/
theorem longWay_raised :
    0 ≤ (ceilingOf 1).maxFuzzy ∧
      ∃ result : SearchResult,
        (backward (Index.ofProgram longWayProgram []).index (ceilingOf 1) sinkPattern).searches[0]? = some result ∧
        result.outcome = .completed ∧
        ∃ seed s register place, (backwardSeeds (Index.ofProgram longWayProgram []).index sinkPattern)[0]? = some seed ∧
          (Index.ofProgram longWayProgram []).index.site? seed = some s ∧
          seedRegister? sinkPattern s = some register ∧
          Path (Index.ofProgram longWayProgram []).index ⟨register, s.blockId, s.position⟩ place ∧
          Ends (Index.ofProgram longWayProgram []).index place (.body ⟨0, 0⟩ 0) ∧
          ∃ c ∈ result.constants, c.line = .body ⟨0, 0⟩ 0 ∧ c.fuzzy ≠ 0 := by
  obtain ⟨ended, constants⟩ := Prod.mk.inj longWayRuns_eq.1
  have isSeed : (backwardSeeds longWayIndex sinkPattern)[0]? = some (LineId.body ⟨0, 0⟩ 12) := by
    rw [seeds_longWayIndex]
    rfl
  obtain ⟨result, found, completed, same⟩ := exists_completed_of_ran isSeed ended
  have raised : (LineId.body ⟨0, 0⟩ 0, (1 : Int)) ∈
      (longWayRun 0 (.body ⟨0, 0⟩ 12)).2.constants.toList.map fun c => (c.line, c.fuzzy) := by
    rw [constants]
    simp
  obtain ⟨c, inside, isConstant⟩ := List.mem_map.mp raised
  obtain ⟨isLine, isLevel⟩ := Prod.mk.inj isConstant
  have ends : Ends longWayIndex ⟨"v3", ⟨⟨0, 0⟩, 0⟩, 1⟩ (.body ⟨0, 0⟩ 0) :=
    ends_longWay (b := 0) (n := 0) (by decide) (by decide) rfl (by decide)
  rw [index_longWayProgram]
  refine ⟨by decide, result, found, completed, _, _, _, _, isSeed, site?_longWayIndex.1, seedRegister?_longWaySink.1,
    path_longWay, ends, c, (same c).mpr (Array.mem_toList_iff.mp inside), isLine, ?_⟩
  rw [isLevel]
  decide

/-- The second constant is reported at level 0: all items on the way to it are of this level. -/
theorem longWay_reported :
    ∃ result : SearchResult,
      (backward (Index.ofProgram longWayProgram []).index (ceilingOf 1) sinkPattern).searches[1]? = some result ∧
      result.outcome = .completed ∧ (∃ c ∈ result.constants, c.line = .body ⟨0, 0⟩ 1) ∧
      ∀ c ∈ result.constants, c.line = .body ⟨0, 0⟩ 1 → c.fuzzy = 0 := by
  have isSeed : (backwardSeeds longWayIndex sinkPattern)[1]? = some (LineId.body ⟨0, 0⟩ 13) := by
    rw [seeds_longWayIndex]
    rfl
  obtain ⟨result, found, completed, -⟩ := exists_completed_of_ran isSeed longWayRuns_eq.2.1
  rw [← index_longWayProgram] at found
  obtain ⟨seed, s, register, isSeed', isSite, tracked, reported⟩ := backward_reports_level_zero longWayProgram []
    (ceilingOf 1) sinkPattern (by decide) 1 result found completed
  refine ⟨result, found, completed, ?_⟩
  rw [index_longWayProgram] at isSeed' isSite reported
  cases isSeed.symm.trans isSeed'
  cases site?_longWayIndex.2.symm.trans isSite
  cases seedRegister?_longWaySink.2.symm.trans tracked
  have atZero : ∀ place, PerformedAtZero
      (backwardItems longWayIndex (ceilingOf 1) sinkPattern 1 (.body ⟨0, 0⟩ 13)) place := by
    intro place q inside _
    have listed : Item.level (.register q) ∈ _ := List.mem_map_of_mem inside
    rw [longWayRuns_eq.2.2] at listed
    simpa [Item.level] using listed
  have sink := stays_longWay "v4" 4 0 2 (by decide) (by decide) (by decide)
  have call := stays_longWay "v4" 1 0 3 (by decide) (by decide) (by decide)
  have load := stays_longWay "v4" 0 2 1 (by decide) (by decide) (by decide)
  have up : ∀ {a b}, Relation.ReflTransGen (Stays longWayIndex) a b → Relation.ReflTransGen (LevelStep longWayIndex
      (backwardItems longWayIndex (ceilingOf 1) sinkPattern 1 (.body ⟨0, 0⟩ 13))) a b :=
    fun run => run.lift id fun _ _ stays => ⟨stays.pathStep, .inl stays⟩
  have toCall := (up sink).tail ⟨pred_longWay (p := 1) rfl (by decide) rfl, .inr (atZero _)⟩
  have toLoad := (up call).tail ⟨pred_longWay (p := 0) rfl (by decide) rfl, .inr (atZero _)⟩
  exact reported _ _ ((toCall.trans toLoad).trans (up load))
    (ends_longWay (b := 0) (n := 1) (by decide) (by decide) rfl (by decide))

end SmaliTrace.Slice
