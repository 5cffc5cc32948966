import Mathlib.Data.List.Infix
import SmaliTrace.Proofs.Slice.Develops
import SmaliTrace.Proofs.Slice.Worklist

/-!
A search only ever adds to its state: keys, queued requests, constants and lines stay, and a key appears
together with a request that waits in the queue.
-/
namespace SmaliTrace.Slice
open SmaliTrace.Smali SmaliTrace.ClassFile

variable {σ τ ρ : State} {line : LineId}

/-- The line carries a constant of the search. -/
def State.HasConstant (σ : State) (line : LineId) : Prop := ∃ c ∈ σ.constants, c.line = line

/-- What an action adds to a state and leaves of it. -/
structure Grows (σ τ : State) : Prop where
  maxFuzzy : τ.work.maxFuzzy = σ.work.maxFuzzy
  done : ∀ key, key ∈ σ.work.done → key ∈ τ.work.done
  queue : σ.work.registers <+: τ.work.registers
  asked : ∀ register block index, ItemKey.register register block index ∈ τ.work.done →
    ItemKey.register register block index ∈ σ.work.done ∨
      ∃ q ∈ τ.work.registers, q.key = .register register block index
  fits : ∀ q ∈ τ.work.registers, q ∈ σ.work.registers ∨ τ.work.tooFuzzy q.fuzzy q.offset = false
  constants : ∀ line, σ.HasConstant line → τ.HasConstant line
  lines : σ.work.graph.lines <+: τ.work.graph.lines

theorem tooFuzzy_congr {w w' : Worklist} (same : w'.maxFuzzy = w.maxFuzzy) (fuzzy offset : Int) :
    w'.tooFuzzy fuzzy offset = w.tooFuzzy fuzzy offset := by
  simp [Worklist.tooFuzzy, same]

namespace Grows

theorem refl (σ : State) : Grows σ σ where
  maxFuzzy := rfl
  done _ member := member
  queue := List.prefix_rfl
  asked _ _ _ member := .inl member
  fits _ member := .inl member
  constants _ found := found
  lines := List.prefix_rfl

theorem trans (first : Grows σ τ) (last : Grows τ ρ) : Grows σ ρ where
  maxFuzzy := last.maxFuzzy.trans first.maxFuzzy
  done key member := last.done key (first.done key member)
  queue := first.queue.trans last.queue
  asked register block index member := by
    rcases last.asked register block index member with before | waiting
    · rcases first.asked register block index before with start | ⟨q, inside, same⟩
      · exact .inl start
      · exact .inr ⟨q, last.queue.subset inside, same⟩
    · exact .inr waiting
  fits q member := by
    rcases last.fits q member with before | fits
    · rcases first.fits q before with start | fits
      · exact .inl start
      · exact .inr (by rwa [tooFuzzy_congr last.maxFuzzy])
    · exact .inr fits
  constants line found := last.constants line (first.constants line found)
  lines := first.lines.trans last.lines

/-- Nothing is asked for, and no constant is added. -/
theorem of_same (lines : σ.work.graph.lines <+: τ.work.graph.lines)
    (maxFuzzy : τ.work.maxFuzzy = σ.work.maxFuzzy) (registers : τ.work.registers = σ.work.registers)
    (done : τ.work.done = σ.work.done) (constants : τ.constants = σ.constants) : Grows σ τ where
  maxFuzzy := maxFuzzy
  done _ member := by rwa [done]
  queue := by rw [registers]
  asked _ _ _ member := .inl (by rwa [done] at member)
  fits _ member := .inl (by rwa [registers] at member)
  constants _ found := by rwa [State.HasConstant, constants]
  lines := lines

theorem of_relinked {w : Worklist} (relinked : Worklist.Relinked σ.work w) : Grows σ { σ with work := w } :=
  of_same (by rw [relinked.lines]) relinked.maxFuzzy relinked.registers relinked.done rfl

end Grows

/-! ### Requests -/

/-- A request that is not too fuzzy has its key among those made. -/
theorem mem_done_admitRegister {w : Worklist} {r : RegisterSearch}
    (fits : w.tooFuzzy r.fuzzy r.offset = false) : r.key ∈ (w.admitRegister r).1.done := by
  unfold Worklist.admitRegister
  rcases w.accept_cases r.key r.fuzzy r.offset ⟨r.origin, r.originRegister⟩
      (fun w => { w with registers := w.registers ++ [r] }) with
    ⟨exceeds, _⟩ | ⟨_, i, found, linked⟩ | ⟨_, absent, queued⟩
  · simp [fits] at exceeds
  · rw [linked, (Worklist.relinked_inherit ..).done, (Worklist.relinked_duplicate ..).done,
      Std.HashMap.mem_iff_isSome_getElem?, found]
    rfl
  · simp [queued, (Worklist.relinked_opened ..).done]

namespace Grows

/-- Whether a request is refused, repeated or new, the state only grows. -/
theorem accept (σ : State) {key : ItemKey} {fuzzy offset : Int} {o : Origin} {enqueue : Worklist → Worklist}
    (queues : Worklist.Queues key fuzzy offset o enqueue) :
    Grows σ { σ with work := (σ.work.accept key fuzzy offset o enqueue).1 } := by
  rcases σ.work.accept_cases key fuzzy offset o enqueue with
    ⟨_, refused⟩ | ⟨_, i, _, linked⟩ | ⟨fits, absent, queued⟩
  · rw [refused]
    exact .of_relinked ⟨rfl, rfl, rfl, rfl, rfl, rfl, rfl, rfl⟩
  · rw [linked]
    exact .of_relinked ((Worklist.relinked_duplicate ..).trans (Worklist.relinked_inherit ..))
  · have opened := σ.work.relinked_opened key o
    have done := (queues.done _).trans opened.done
    have maxFuzzy := (queues.maxFuzzy _).trans opened.maxFuzzy
    rw [queued]
    refine ⟨maxFuzzy, ?_, ?_, ?_, ?_, fun _ found => found, ?_⟩
    · intro key' member
      simp only [done, Std.HashMap.mem_insert]
      exact .inr member
    · have kept := queues.kept (σ.work.opened key o)
      rwa [opened.registers] at kept
    · intro register block index member
      simp only [done, Std.HashMap.mem_insert, beq_iff_eq] at member
      rcases member with same | before
      · exact .inr (queues.waits _ same.symm)
      · exact .inl before
    · intro q member
      rcases queues.level q member with before | ⟨isFuzzy, isOffset⟩
      · rw [opened.registers] at before
        exact .inl before
      · rw [isFuzzy, isOffset]
        exact .inr ((tooFuzzy_congr maxFuzzy ..).trans fits)
    · simp only [queues.graph, opened.lines]
      exact List.prefix_rfl

theorem of_graph (σ : State) (g : SliceGraph) (lines : σ.work.graph.lines <+: g.lines) :
    Grows σ { σ with work := { σ.work with graph := g } } :=
  of_same lines rfl rfl rfl rfl

end Grows

/-! ### Constants -/

theorem hasConstant_iff : σ.HasConstant line ↔ line ∈ σ.constants.toList.map Constant.line := by
  simp [State.HasConstant]

theorem hasConstant_keep {k : Constant} : (σ.keep k).HasConstant line ↔ σ.HasConstant line ∨ line = k.line := by
  rw [hasConstant_iff, hasConstant_iff]
  unfold State.keep addConstant
  split
  · next i found =>
    obtain ⟨bound, same, _⟩ := Array.findIdx?_eq_some_iff_getElem.mp found
    dsimp only
    rw [map_toList_modify (by exact fun _ => rfl)]
    refine ⟨.inl, ?_⟩
    rintro (before | rfl)
    · exact before
    · exact List.mem_map.mpr ⟨_, Array.getElem_mem_toList bound, by simpa using same⟩
  · simp

theorem Grows.kept (σ : State) (k : Constant) : Grows σ (σ.keep k) where
  maxFuzzy := rfl
  done _ member := member
  queue := List.prefix_rfl
  asked _ _ _ member := .inl member
  fits _ member := .inl member
  constants _ found := hasConstant_keep.mpr (.inl found)
  lines := List.prefix_rfl

/-! ### Edits -/

theorem Edit.grows (edit : Edit σ τ) : Grows σ τ := by
  cases edit with
  | register r => exact .accept σ (Worklist.queues_register r)
  | content kind c => exact .accept σ (Worklist.queues_content kind c)
  | node line pred key => exact .of_graph σ _ (SliceGraph.lines_addNode ..).1
  | constant line pred register target => exact .of_graph σ _ (SliceGraph.lines_addConstant ..).1
  | produced id key => exact .of_relinked (Worklist.relinked_produce ..)
  | kept k => exact .kept σ k

theorem Edits.grows (edits : Edits σ τ) : Grows σ τ := by
  induction edits with
  | refl => exact .refl σ
  | tail _ edit ih => exact ih.trans edit.grows

theorem Develops.grows {α : Type} {a : SearchM α} (develops : Develops a) {v : Except Fault α}
    (ran : exec a σ = (v, τ)) : Grows σ τ :=
  (develops.edits ran).grows

/-- In a loop that succeeds, the action of every item ran and succeeded. -/
theorem exists_edits_of_forM {β : Type} {items : List β} {f : β → SearchM PUnit}
    (each : ∀ item ∈ items, Develops (f item)) {u : PUnit} (ran : exec (items.forM f) σ = (.ok u, τ))
    {item : β} (inside : item ∈ items) :
    ∃ σ' τ', exec (f item) σ' = (.ok (), τ') ∧ Edits σ σ' ∧ Edits τ' τ := by
  induction items generalizing σ with
  | nil => simp at inside
  | cons first items ih =>
    obtain ⟨_, ρ, here, rest⟩ := exec_bind_eq_ok_iff.mp ran
    have later : ∀ item ∈ items, Develops (f item) := fun item inside => each item (by simp [inside])
    rcases List.mem_cons.mp inside with rfl | inside
    · exact ⟨σ, ρ, here, .refl, (Develops.forM later).edits rest⟩
    · obtain ⟨σ', τ', done, before, after⟩ := ih later rest inside
      exact ⟨σ', τ', done, ((each first (by simp)).edits here).trans before, after⟩

theorem exists_exec_of_forM {β : Type} {items : List β} {f : β → SearchM PUnit}
    (each : ∀ item ∈ items, Develops (f item)) {u : PUnit} (ran : exec (items.forM f) σ = (.ok u, τ))
    {item : β} (inside : item ∈ items) :
    ∃ σ' τ', exec (f item) σ' = (.ok (), τ') ∧ Grows σ σ' ∧ Grows τ' τ := by
  obtain ⟨σ', τ', done, before, after⟩ := exists_edits_of_forM each ran inside
  exact ⟨σ', τ', done, before.grows, after.grows⟩

end SmaliTrace.Slice
