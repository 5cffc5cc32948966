import SmaliTrace.Proofs.Slice.RetraceActions

/-!
Whole searches of a part, done again in the larger program. Forward searches keep abreast as backward ones do, a
turn takes the same item on both sides, and so every search finds the same slice, the same constants and the same
end.
-/
namespace SmaliTrace.Slice
open SmaliTrace.Smali SmaliTrace.ClassFile

variable {f : Nat → Nat} {x : Context} {whole : Index} {σ σ' : State}

theorem pickUp?_onto {part : Index} (embeds : part.Embeds f whole) (s : Site) :
    pickUp? whole (s.rename f) = (pickUp? part s).map (Prod.map (Site.rename f) id) := by
  unfold pickUp?
  rw [embeds.nextExecutable?]
  cases part.nextExecutable? s with
  | none => rfl
  | some next =>
    simp only [Option.map_some, Option.bind_eq_bind, Option.bind_some,
      show (next.rename f).operation = next.operation from rfl]
    cases next.operation <;> rfl

section Actions

variable (embeds : x.index.Embeds f whole) {r : RegisterSearch} {place : BlockId} {c : Cursor} {s : Site}
  {q : ContentSearch}
include embeds

/-! ### Forward searches -/

theorem retraces_followPickUp (fuzzy : Int) :
    Retraces f x whole (followPickUp x r c s fuzzy)
      (followPickUp (x.onto whole) (r.moved place) c (s.rename f) fuzzy) := by
  unfold followPickUp
  rw [Context.index_onto, pickUp?_onto embeds]
  cases pickUp? x.index s with
  | none => exact .pure _
  | some found => exact retraces_fork embeds ..

theorem retraces_enterBody (arguments : List Argument) (body : MethodId) :
    Retraces f x whole (enterBody x r c s arguments body)
      (enterBody (x.onto whole) (r.moved place) c (s.rename f) arguments (body.rename f)) := by
  refine .forM fun a _ => ?_
  rw [method?_onto embeds]
  rcases (x.program.method? body).map (Method.paramRegister · a.index) with _ | (e | register)
  · exact .pure _
  · exact retraces_illogical embeds ..
  · exact retraces_admitRegister embeds _

theorem retraces_forwardCall (holds : x.program.Holds s) {method : MethodRef}
    (calls : s.operation.method? = some method) :
    Retraces f x whole (forwardCall x r c s method)
      (forwardCall (x.onto whole) (r.moved place) c (s.rename f) method) := by
  unfold forwardCall
  rw [show redirectFrom? (x.onto whole) (s.rename f) c.register = redirectFrom? x s c.register from rfl,
    resolved_onto embeds holds calls]
  cases redirectFrom? x s c.register with
  | some redirect =>
    exact (retraces_argumentOf embeds redirect.dst).bind fun _ => (retraces_step embeds ..).bind fun _ =>
      retraces_fork embeds ..
  | none =>
    refine (retraces_argumentsOf embeds).bind fun arguments => ?_
    generalize (x.index.resolve? method).bind (fun id => (x.program.method? id).map (id, ·)) = callee
    dsimp only
    rw [Option.filter_map, Option.isSome_map,
      show (fun a : MethodId × Method => !a.2.isNative) ∘ Prod.map (MethodId.rename f) id = fun a => !a.2.isNative
        from rfl]
    cases callee.filter fun a => !a.2.isNative with
    | some found =>
      refine (retraces_step embeds ..).bind fun _ => ?_
      rw [bodies_onto embeds]
      exact .forM_map fun body _ => retraces_enterBody embeds _ body
    | none => exact (retraces_terminal embeds ..).bind fun _ => retraces_followPickUp embeds _

theorem arrayField?_onto (array : Register) :
    arrayField? (x.onto whole) (s.rename f) array = arrayField? x s array := by
  unfold arrayField?
  rw [Context.index_onto, embeds.definition?]
  cases found : x.index.definition? s array with
  | none => rfl
  | some d =>
    simp only [Option.map_some, Option.bind_eq_bind, Option.bind_some,
      show (d.rename f).operation = d.operation from rfl]
    cases accesses : d.operation.field? with
    | none => rfl
    | some field =>
      simp only [Option.bind_some, fieldTarget_onto embeds (Index.holds_of_definition? found) accesses]

theorem retraces_forwardElement (array : Register) :
    Retraces f x whole (forwardElement x r c s array)
      (forwardElement (x.onto whole) (r.moved place) c (s.rename f) array) := by
  unfold forwardElement
  refine (retraces_step embeds ..).bind fun c => ?_
  rw [arrayField?_onto embeds]
  cases loaded : arrayField? x s array with
  | none => exact retraces_fork embeds ..
  | some target =>
    obtain ⟨d, found, loaded⟩ := Option.bind_eq_some_iff.mp loaded
    obtain ⟨field, accesses, target'⟩ := Option.bind_eq_some_iff.mp loaded
    cases target'
    exact retraces_admitContent embeds
      (by exact agrees_field embeds (Index.holds_of_definition? found) accesses (by decide) rfl)

theorem retraces_forwardStore (holds : x.program.Holds s) {field : FieldRef}
    (accesses : s.operation.field? = some field) :
    Retraces f x whole (forwardStore x r c s field)
      (forwardStore (x.onto whole) (r.moved place) c (s.rename f) field) :=
  (retraces_step embeds ..).bind fun _ => retraces_fieldAccess embeds holds accesses (by decide) c.register

theorem retraces_forwardResult (result : Register) :
    Retraces f x whole (forwardResult r c s result) (forwardResult (r.moved place) c (s.rename f) result) :=
  (retraces_step embeds ..).bind fun _ => retraces_fork embeds ..

theorem retraces_forwardReturn :
    Retraces f x whole (forwardReturn x r c s) (forwardReturn (x.onto whole) (r.moved place) c (s.rename f)) := by
  unfold forwardReturn
  refine (retraces_step embeds ..).bind fun _ => ?_
  rw [show (s.rename f).method = s.method.rename f from rfl, method?_onto embeds, Context.options_onto]
  cases isMethod : x.program.method? s.method with
  | none => exact .pure _
  | some m =>
    dsimp only
    split
    · exact retraces_admitContent embeds (by exact agrees_result embeds isMethod rfl)
    · exact .pure _

theorem retraces_forwardUse (holds : x.program.Holds s) :
    Retraces f x whole (forwardUse x r c s) (forwardUse (x.onto whole) (r.moved place) c (s.rename f)) := by
  have goesOn : ∀ {a b : SearchM Unit} (v : Bool), Retraces f x whole a b →
      Retraces f x whole (do a; pure v) (do b; pure v) :=
    fun _ retraces => retraces.bind fun _ => .pure _
  unfold forwardUse
  rw [show (s.rename f).operation = s.operation from rfl]
  cases does : s.operation with
  | move d _ | unaryMath d _ | literalMath d _ _ | inPlaceMath d _ | binaryMath d _ _ | arrayGet d _ _
  | compare d _ _ | instanceOf d _ _ | arrayLength d _ | instanceGet d _ _ =>
    exact goesOn true (retraces_forwardResult embeds d)
  | arrayPut value array _ =>
    dsimp only
    split
    · exact goesOn true (retraces_forwardElement embeds array)
    · exact .pure _
  | instancePut value _ field | staticPut value field =>
    dsimp only
    split
    · exact goesOn true (retraces_forwardStore embeds holds (by rw [does]; rfl))
    · exact .pure _
  | filledNewArray _ _ =>
    exact (retraces_step embeds ..).bind fun _ => goesOn true (retraces_followPickUp embeds _)
  | returnValue _ => exact goesOn false (retraces_forwardReturn embeds)
  | invoke _ method => exact goesOn true (retraces_forwardCall embeds holds (by rw [does]; rfl))
  | _ => exact .pure _

theorem retraces_forwardLines (sites : List Site) (holds : ∀ s ∈ sites, x.program.Holds s) :
    Retraces f x whole (forwardLines x r c sites)
      (forwardLines (x.onto whole) (r.moved place) c (sites.map (Site.rename f))) := by
  induction sites with
  | nil => exact .pure _
  | cons s sites ih =>
    rw [List.map_cons]
    unfold forwardLines
    rw [show (s.rename f).operation = s.operation from rfl]
    have rest : ∀ goesOn : Bool, Retraces f x whole
        (if goesOn && !s.operation.defines c.register then forwardLines x r c sites else pure false)
        (if goesOn && !s.operation.defines c.register then
          forwardLines (x.onto whole) (r.moved place) c (sites.map (Site.rename f)) else pure false) := by
      intro goesOn
      split
      · exact ih fun other inside => holds other (by simp [inside])
      · exact .pure _
    split
    · exact (retraces_forwardUse embeds (holds s (by simp))).bind rest
    · exact (Retraces.pure true).bind rest

theorem retraces_forwardRegister :
    Retraces f x whole (forwardRegister x r) (forwardRegister (x.onto whole) (r.rename f)) := by
  unfold forwardRegister
  rw [show (r.rename f).block = r.block.rename f from rfl, linesOn_onto embeds, neighbours_onto embeds]
  refine (retraces_forwardLines embeds _ fun s inside => holds_of_mem_linesOn inside).bind fun goesOn => ?_
  split
  · exact .forM fun i _ => retraces_admitRegister embeds _
  · exact .pure _

theorem retraces_forwardField : Retraces f x whole (forwardField x q) (forwardField (x.onto whole) (q.rename f)) := by
  unfold forwardField
  rw [show (q.rename f).name = q.name from rfl, fieldLoads_onto embeds]
  exact .forM_map fun load _ => (retraces_step embeds ..).bind fun _ => retraces_admitRegister embeds _

theorem retraces_forwardCallers (agrees : Item.Agrees f x whole (.content .result q)) :
    Retraces f x whole (forwardCallers x q) (forwardCallers (x.onto whole) (q.rename f)) := by
  have tracked : trackedMethod? (x.onto whole) (q.rename f) = _ := agrees
  unfold forwardCallers
  rw [tracked]
  cases trackedMethod? x q with
  | none => exact .pure _
  | some m =>
    dsimp only [Option.map_some]
    rw [Context.index_onto, embeds.callSitesOf, embeds.sitesOf]
    refine .forM_map fun s _ => ?_
    rw [pickUp?_onto embeds]
    cases pickUp? x.index s with
    | none => exact .pure _
    | some found =>
      exact (retraces_step embeds ..).bind fun _ => (retraces_step embeds ..).bind fun _ =>
        retraces_admitRegister embeds _

/-! ### Seeds -/

theorem retraces_seedRegister (p : BackwardPattern) (s : Site) :
    Retraces f x whole (seedRegister x p s) (seedRegister (x.onto whole) p (s.rename f)) := by
  unfold seedRegister
  rw [show (s.rename f).operation = s.operation from rfl, show (s.rename f).instruction = s.instruction from rfl]
  cases s.operation with
  | returnVoid => exact retraces_illogical embeds ..
  | returnValue value => exact .pure _
  | invoke _ _ =>
    dsimp only
    cases s.instruction.argument p.param with
    | ok register => exact .pure _
    | error e => exact retraces_illogical embeds ..
  | _ => exact retraces_illogical embeds ..

theorem retraces_seedBackward (p : BackwardPattern) (line : LineId) :
    Retraces f x whole (seedBackward x p line) (seedBackward (x.onto whole) p (line.rename f)) := by
  unfold seedBackward
  rw [Context.index_onto, embeds.site?]
  cases x.index.site? line with
  | none => exact retraces_illogical embeds ..
  | some s =>
    exact (retraces_seedRegister embeds p s).bind fun _ => (retraces_addNode embeds ..).bind fun _ =>
      retraces_admitRegister embeds _

def ForwardSeed.rename (f : Nat → Nat) (seed : ForwardSeed) : ForwardSeed :=
  ⟨seed.line.rename f, seed.holder.rename f, seed.register⟩

theorem retraces_seedForward (seed : ForwardSeed) :
    Retraces f x whole (seedForward seed) (seedForward (seed.rename f)) := by
  have apart : (seed.rename f).holder.id = (seed.rename f).line.id ↔ seed.holder.id = seed.line.id :=
    (LineId.rename_injective embeds.injective).eq_iff (a := seed.holder.id) (b := seed.line.id)
  unfold seedForward
  simp only [apart]
  refine (retraces_addNode embeds ..).bind fun id => ?_
  split
  · exact (Retraces.pure _).bind fun _ => retraces_admitRegister embeds _
  · exact (retraces_addNode embeds ..).bind fun _ => retraces_admitRegister embeds _

/-! ### Turns -/

theorem retraces_perform {item : Item} (agrees : item.Agrees f x whole) :
    Retraces f x whole (item.perform x) ((item.rename f).perform (x.onto whole)) := by
  cases item with
  | register r =>
    simp only [Item.perform, Item.rename, searchRegister, show (x.onto whole).forward = x.forward from rfl]
    split
    · exact retraces_forwardRegister embeds
    · exact retraces_backwardRegister embeds
  | content kind q =>
    simp only [Item.perform, Item.rename, searchContent, show (x.onto whole).forward = x.forward from rfl]
    cases kind <;> cases x.forward
    · exact retraces_backwardField embeds agrees
    · exact retraces_forwardField embeds
    · exact retraces_backwardArrayField embeds agrees
    · exact retraces_forwardField embeds
    · exact retraces_backwardResult embeds agrees
    · exact retraces_forwardCallers embeds agrees

end Actions

namespace Worklist

variable {w : Worklist} {done : Std.HashMap ItemKey Nat} (keyed : Keyed f w.done done)
include keyed

theorem popRegister?_rename : (w.rename f done).popRegister? =
    w.popRegister?.map (Prod.map (RegisterSearch.rename f) (Worklist.rename f done)) := by
  unfold popRegister?
  cases registers : w.registers with
  | nil => simp [rename, registers]
  | cons r rest =>
    have current := keyed r.key
    simp only [rename, registers, List.map_cons, Option.map_some, Prod.map, r.key_rename, current]

theorem popContent?_rename (kind : Content) : (w.rename f done).popContent? kind =
    (w.popContent? kind).map (Prod.map (ContentSearch.rename f) (Worklist.rename f done)) := by
  cases kind with
  | field =>
    unfold popContent?
    cases queue : w.fields with
    | nil => simp [rename, queue]
    | cons c rest =>
      have current := keyed (c.key .field)
      simp only [rename, queue, List.map_cons, Option.map_some, Prod.map, c.key_rename, current]
  | array =>
    unfold popContent?
    cases queue : w.arrays with
    | nil => simp [rename, queue]
    | cons c rest =>
      have current := keyed (c.key .array)
      simp only [rename, queue, List.map_cons, Option.map_some, Prod.map, c.key_rename, current]
  | result =>
    unfold popContent?
    cases queue : w.results with
    | nil => simp [rename, queue]
    | cons c rest =>
      have current := keyed (c.key .result)
      simp only [rename, queue, List.map_cons, Option.map_some, Prod.map, c.key_rename, current]

end Worklist

theorem nextContent?_rename {w : Worklist} {done : Std.HashMap ItemKey Nat} (keyed : Keyed f w.done done) :
    nextContent? (w.rename f done) =
      (nextContent? w).map fun (kind, c, w) => (kind, c.rename f, w.rename f done) := by
  simp only [nextContent?, Worklist.popContent?_rename keyed, List.map_findSome?]
  congr 1
  funext kind
  simp only [Function.comp_apply, Option.map_map]
  rfl

namespace Abreast

variable (abreast : Abreast f x whole σ σ')
include abreast

/-- The same item is next on both sides, and is about the same there. -/
theorem take? : (σ.take? = none ∧ σ'.take? = none) ∨ ∃ item ρ ρ', σ.take? = some (item, ρ) ∧
    σ'.take? = some (item.rename f, ρ') ∧ item.Agrees f x whole ∧ Abreast f x whole ρ ρ' := by
  obtain ⟨done, same, keyed⟩ := abreast.work
  have taken : ∀ {item ρ ρ'}, σ.take? = some (item, ρ) → ρ'.work = ρ.work.rename f done →
      ρ'.constants = σ'.constants → ρ'.tally = ρ.tally → item.Agrees f x whole ∧ Abreast f x whole ρ ρ' := by
    intro item ρ ρ' took work constants tally
    have takes := takes_of_take? took
    refine ⟨abreast.agrees item takes.waited, ⟨done, work, ?_⟩, ?_, tally, fun other waiting => ?_⟩
    · rwa [takes.done]
    · rw [constants, abreast.constants, takes.constants]
    · exact abreast.agrees other (takes.before other waiting)
  have popped' := Worklist.popRegister?_rename keyed
  have next' := nextContent?_rename keyed
  rw [← same] at popped' next'
  cases popped : σ.work.popRegister? with
  | some found =>
    obtain ⟨r, work⟩ := found
    rw [popped, Option.map_some, Prod.map] at popped'
    have took : σ.take? = some (.register r, { σ with work := work }) := by rw [State.take?, popped]
    exact .inr ⟨_, _, { σ' with work := work.rename f done }, took, by rw [State.take?, popped']; rfl,
      taken took rfl rfl abreast.tally⟩
  | none =>
    rw [popped, Option.map_none] at popped'
    cases next : nextContent? σ.work with
    | none =>
      rw [next, Option.map_none] at next'
      exact .inl ⟨by rw [State.take?, popped, next]; rfl, by rw [State.take?, popped', next']; rfl⟩
    | some found =>
      obtain ⟨kind, c, work⟩ := found
      rw [next, Option.map_some] at next'
      have took : σ.take? = some (.content kind c,
          { σ with work := work, tally := σ.tally.bump kind.counter }) := by
        rw [State.take?, popped, next]
        rfl
      exact .inr ⟨_, _, { σ' with work := work.rename f done, tally := σ'.tally.bump kind.counter }, took,
        by rw [State.take?, popped', next']; rfl, taken took rfl rfl (by rw [abreast.tally])⟩

theorem complete : Abreast f x whole { σ with work := σ.work.complete } { σ' with work := σ'.work.complete } := by
  refine abreast.edit (fun done same keyed => ⟨done, by rw [same]; rfl, keyed⟩) fun item waiting => .inl ?_
  cases item <;> exact waiting

theorem completed : σ'.work.completed = σ.work.completed := by
  obtain ⟨done, same, _⟩ := abreast.work
  rw [same]
  rfl

theorem settle (item : Item) :
    ((item.rename f).settle (x.onto whole) σ').1 = (item.settle x σ).1 ∧
      Abreast f x whole (item.settle x σ).2 ((item.rename f).settle (x.onto whole) σ').2 := by
  have complete := abreast.complete
  have completed := complete.completed
  cases item with
  | content kind c => exact ⟨rfl, abreast⟩
  | register r =>
    have same : (x.onto whole).options.maxCompleted < (σ'.work.complete.completed : Int) ↔
        x.options.maxCompleted < (σ.work.complete.completed : Int) := by
      rw [show σ'.work.complete.completed = σ.work.complete.completed from completed]
      rfl
    simp only [Item.settle, Item.rename]
    by_cases exceeds : x.options.maxCompleted < (σ.work.complete.completed : Int)
    · rw [if_pos exceeds, if_pos (same.mpr exceeds)]
      exact ⟨rfl, complete⟩
    · rw [if_neg exceeds, if_neg (mt same.mp exceeds)]
      exact ⟨rfl, complete⟩

end Abreast

theorem retraces_drain (embeds : x.index.Embeds f whole) (budget : Nat) :
    Retraces f x whole (drain x budget) (drain (x.onto whole) budget) := by
  have turns : ∀ {σ σ' item ρ ρ'}, σ.take? = some (item, ρ) → σ'.take? = some (item.rename f, ρ') →
      item.Agrees f x whole → Abreast f x whole ρ ρ' →
      (exec (performNext (x.onto whole)) σ').1 = (exec (performNext x) σ).1 ∧
        Abreast f x whole (exec (performNext x) σ).2 (exec (performNext (x.onto whole)) σ').2 := by
    intro σ σ' item ρ ρ' taken taken' agrees abreast
    have performed := (retraces_perform embeds agrees).run abreast
    rw [exec_performNext_of_take? taken, exec_performNext_of_take? taken']
    rcases ran : exec (item.perform x) ρ with ⟨fault | ⟨⟩, τ⟩ <;>
      rcases ran' : exec ((item.rename f).perform (x.onto whole)) ρ' with ⟨ended, τ'⟩ <;>
      rw [ran, ran'] at performed <;> obtain ⟨rfl, abreast'⟩ := performed
    · exact ⟨rfl, abreast'⟩
    · exact abreast'.settle item
  induction budget with
  | zero =>
    refine ⟨fun {σ σ'} abreast => ?_⟩
    rcases abreast.take? with ⟨nothing, nothing'⟩ | ⟨item, ρ, ρ', taken, taken', _, _⟩
    · rw [exec_drain_of_finished 0 (finished_of_take? nothing), exec_drain_of_finished 0 (finished_of_take? nothing')]
      exact ⟨rfl, abreast⟩
    · rw [exec_drain_zero (took_of_take? taken).not_isFinished, exec_drain_zero (took_of_take? taken').not_isFinished]
      exact ⟨rfl, abreast⟩
  | succ budget ih =>
    refine ⟨fun {σ σ'} abreast => ?_⟩
    rcases abreast.take? with ⟨nothing, nothing'⟩ | ⟨item, ρ, ρ', taken, taken', agrees, abreast'⟩
    · rw [exec_drain_of_finished _ (finished_of_take? nothing), exec_drain_of_finished _ (finished_of_take? nothing')]
      exact ⟨rfl, abreast⟩
    · have turn := turns taken taken' agrees abreast'
      rw [exec_drain_succ _ (took_of_take? taken).not_isFinished,
        exec_drain_succ _ (took_of_take? taken').not_isFinished]
      rcases ran : exec (performNext x) σ with ⟨fault | ⟨⟩, τ⟩ <;>
        rcases ran' : exec (performNext (x.onto whole)) σ' with ⟨ended, τ'⟩ <;>
        rw [ran, ran'] at turn <;> obtain ⟨rfl, abreast''⟩ := turn
      · exact ⟨rfl, abreast''⟩
      · exact ih.run abreast''

/-! ### Whole slices -/

def SearchResult.rename (f : Nat → Nat) (r : SearchResult) : SearchResult :=
  { r with graph := r.graph.rename f, constants := r.constants.map (Constant.rename f) }

def Criterion.rename (f : Nat → Nat) (c : Criterion) : Criterion :=
  { c with searches := c.searches.map (SearchResult.rename f) }

def Finished.rename (f : Nat → Nat) (done : Finished) : Finished :=
  { done with result := done.result.rename f }

theorem abreast_startState (f : Nat → Nat) (x : Context) (whole : Index) :
    Abreast f x whole (startState x) (startState (x.onto whole)) where
  work := ⟨{}, by simp [startState, Worklist.rename, SliceGraph.rename, Context.onto], fun key => by
    simp [startState]⟩
  constants := by simp [startState]
  tally := rfl
  agrees item waiting := by
    cases item with
    | register r => trivial
    | content kind c => cases kind <;> simp [startState, Worklist.Waits, Worklist.contents] at waiting

section Slices

variable (embeds : x.index.Embeds f whole)
include embeds

theorem sortConstants_rename (constants : List Constant) :
    sortConstants (x.onto whole).label (constants.map (Constant.rename f)) =
      (sortConstants x.label constants).map (Constant.rename f) := by
  refine (List.map_mergeSort fun a _ b _ => ?_).symm
  unfold constantLe
  simp only [Constant.rename, label_onto embeds]
  rfl

theorem runSearch_onto (pattern : String) {seed seed' : SearchM Unit} (retraces : Retraces f x whole seed seed') :
    runSearch (x.onto whole) pattern seed' = (runSearch x pattern seed).rename f := by
  have ran := (retraces.bind fun _ => retraces_drain embeds x.options.maxIterations.toNat).run
    (abreast_startState f x whole)
  rcases one : exec (do seed; drain x x.options.maxIterations.toNat) (startState x) with ⟨ended, τ⟩
  rcases two : exec (do seed'; drain (x.onto whole) x.options.maxIterations.toNat) (startState (x.onto whole)) with
    ⟨ended', τ'⟩
  rw [one, two] at ran
  obtain ⟨rfl, abreast⟩ := ran
  obtain ⟨done, same, _⟩ := abreast.work
  have one' : ((do seed; drain x x.options.maxIterations.toNat) : SearchM Unit).run
      { work := { maxFuzzy := x.options.maxFuzzy } } = (ended', τ) := one
  have two' : ((do seed'; drain (x.onto whole) x.options.maxIterations.toNat) : SearchM Unit).run
      { work := { maxFuzzy := x.options.maxFuzzy } } = (ended', τ') := two
  have sorted : sortConstants (x.onto whole).label τ'.constants.toList =
      (sortConstants x.label τ.constants.toList).map (Constant.rename f) := by
    rw [abreast.constants, Array.toList_map, sortConstants_rename embeds]
  have counted : τ'.tally.plus τ'.work.tally = τ.tally.plus τ.work.tally := by
    rw [abreast.tally, same]
    rfl
  have graph : τ'.work.graph = τ.work.graph.rename f := by rw [same]; rfl
  simp only [runSearch, Context.options_onto, one', two', sorted, counted, graph, Finished.rename,
    SearchResult.rename]
  rcases ended' with fault | ⟨⟩
  · dsimp only
    split <;> rfl
  · rfl

end Slices

theorem runAll_map {α β : Type} {rename : α → β} {run : Nat → α → Finished} {run' : Nat → β → Finished}
    (pattern direction : String) (seeds : List α) (same : ∀ i seed, run' i (rename seed) = (run i seed).rename f) :
    runAll pattern direction (seeds.map rename) run' = (runAll pattern direction seeds run).rename f := by
  simp only [runAll, Criterion.rename, List.zipIdx_map, List.length_map, List.map_map, List.foldl_map,
    List.flatMap_map, Function.comp_def, Prod.map, same, id]
  rfl

section Patterns

variable {part : Index} (embeds : part.Embeds f whole)
include embeds

theorem backwardSeeds_onto {p : BackwardPattern} (searched : p.start = none) :
    backwardSeeds whole p = (backwardSeeds part p).map (LineId.rename f) := by
  unfold backwardSeeds
  rw [searched]
  dsimp only
  split
  · exact embeds.returnsOf ..
  · exact embeds.callSitesMatching ..

theorem forwardSeeds_onto (p : ForwardPattern) :
    forwardSeeds whole p = (forwardSeeds part p).map (ForwardSeed.rename f) := by
  have defining : ∀ sites : List Site, (sites.map (Site.rename f)).filterMap definingSeed? =
      (sites.filterMap definingSeed?).map (ForwardSeed.rename f) := by
    intro sites
    rw [List.filterMap_map, List.map_filterMap]
    congr 1
    funext s
    simp only [definingSeed?, Function.comp_apply, Option.map_map]
    rfl
  unfold forwardSeeds
  split
  · rw [embeds.allocationSites, embeds.sitesOf, defining]
  · split
    · rw [embeds.callSitesMatching, embeds.sitesOf, List.filterMap_map, List.map_filterMap]
      congr 1
      funext s
      simp only [Function.comp_apply, pickUp?_onto embeds, Option.map_map]
      rfl
    · rw [embeds.literalSites, embeds.sitesOf, defining]

/-- The line that a pattern starts at, if it says so itself. -/
def Pattern.start? : Pattern → Option LineId
  | .backward p => p.start
  | .forward _ => none

theorem Pattern.seedLines_onto {pattern : Pattern} (searched : pattern.start? = none) :
    pattern.seedLines whole = (pattern.seedLines part).map (LineId.rename f) := by
  cases pattern with
  | backward p => exact backwardSeeds_onto embeds searched
  | forward p =>
    rw [Pattern.seedLines, Pattern.seedLines, forwardSeeds_onto embeds, List.map_map, List.map_map]
    rfl

/-- A pattern without a start line finds in the whole what it finds in the part, at the other positions. -/
theorem Pattern.slice_onto (options : Options) {pattern : Pattern} (searched : pattern.start? = none) :
    pattern.slice whole options = (pattern.slice part options).rename f := by
  cases pattern with
  | backward p =>
    rw [Pattern.slice, Pattern.slice, Slice.backward, backwardSeeds_onto embeds searched]
    refine runAll_map _ _ _ fun i line => ?_
    exact runSearch_onto (x := ⟨part, options, i, false, some p⟩) embeds p.text (retraces_seedBackward embeds p line)
  | forward p =>
    rw [Pattern.slice, Pattern.slice, Slice.forward, forwardSeeds_onto embeds]
    refine runAll_map _ _ _ fun i seed => ?_
    exact runSearch_onto (x := ⟨part, options, i, true, none⟩) embeds p.text (retraces_seedForward embeds seed)

end Patterns

end SmaliTrace.Slice
