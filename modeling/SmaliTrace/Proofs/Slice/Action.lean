import Mathlib.Logic.Relation
import SmaliTrace.Slice.Run

/-!
What the actions of a search are made of. Every action changes the state by a sequence of edits and no
other way, whether it succeeds or not; what holds of all edits therefore holds of all actions.
-/
namespace SmaliTrace.Slice
open SmaliTrace.Smali SmaliTrace.ClassFile

variable {α β : Type} {σ τ : State}

/-! ### Running actions -/

/-- Runs an action from a state: how it ends, and the state that it leaves. -/
def exec (a : SearchM α) (σ : State) : Except Fault α × State := a.run σ

@[simp] theorem exec_throw (fault : Fault) (σ : State) :
    exec (throw fault : SearchM α) σ = (.error fault, σ) := rfl

@[simp] theorem exec_misshapen (x : Context) (line : LineId) (shape : Misshape) (σ : State) :
    exec (misshapen x line shape : SearchM α) σ = (.error (.misshapen (x.label line) shape), σ) := rfl

@[simp] theorem exec_illogical (x : Context) (line : LineId) (surprise : Surprise) (σ : State) :
    exec (illogical x line surprise : SearchM α) σ =
      (.error (.logic ⟨some (x.label line), surprise⟩), σ) := rfl

theorem exec_bind (a : SearchM α) (f : α → SearchM β) (σ : State) :
    exec (a >>= f) σ =
      match exec a σ with
      | (.ok v, τ) => exec (f v) τ
      | (.error fault, τ) => (.error fault, τ) := by
  have unfolded : exec (a >>= f) σ = ExceptT.bindCont f (exec a σ).1 (exec a σ).2 := rfl
  rw [unfolded]
  rcases exec a σ with ⟨_ | v, τ⟩
  · rfl
  · rfl

/-- A sequence succeeds if both of its parts do. -/
theorem exec_bind_eq_ok_iff {a : SearchM α} {f : α → SearchM β} {v : β} :
    exec (a >>= f) σ = (.ok v, τ) ↔ ∃ u ρ, exec a σ = (.ok u, ρ) ∧ exec (f u) ρ = (.ok v, τ) := by
  rw [exec_bind]
  rcases exec a σ with ⟨_ | u, ρ⟩
  · simp
  · constructor
    · intro ran
      exact ⟨u, ρ, rfl, ran⟩
    · rintro ⟨_, _, same, ran⟩
      cases same
      exact ran

theorem exec_map_eq_ok_iff {a : SearchM α} {f : α → β} {v : β} :
    exec (f <$> a) σ = (.ok v, τ) ↔ ∃ u, exec a σ = (.ok u, τ) ∧ f u = v := by
  have unfolded : exec (f <$> a) σ = exec (a >>= fun u => pure (f u)) σ := by
    rw [← bind_pure_comp]
  rw [unfolded, exec_bind_eq_ok_iff]
  constructor
  · rintro ⟨u, ρ, ran, same⟩
    cases same
    exact ⟨u, ran, rfl⟩
  · rintro ⟨u, ran, rfl⟩
    exact ⟨u, τ, ran, rfl⟩

/-! ### Edits -/

/-- Adds a constant to those of a search, and counts it if it is new. -/
def State.keep (σ : State) (k : Constant) : State :=
  { σ with
    constants := (addConstant σ.constants k).1
    tally := if (addConstant σ.constants k).2 then σ.tally.bump .constants else σ.tally }

/-- One change that an action makes to the state. -/
inductive Edit : State → State → Prop
  | register (σ : State) (r : RegisterSearch) : Edit σ { σ with work := (σ.work.admitRegister r).1 }
  | content (σ : State) (kind : Content) (c : ContentSearch) :
      Edit σ { σ with work := (σ.work.admitContent kind c).1 }
  | node (σ : State) (line : LineId) (pred : Option NodeId) (key : EdgeKey) :
      Edit σ { σ with work := (σ.work.addNode line pred key).1 }
  | constant (σ : State) (line : LineId) (pred : Option NodeId) (register target : Register) :
      Edit σ { σ with work := (σ.work.addConstant line pred register target).1 }
  | produced (σ : State) (id : NodeId) (key : EdgeKey) : Edit σ { σ with work := σ.work.produce id key }
  | kept (σ : State) (k : Constant) : Edit σ (σ.keep k)

/-- One state comes from another by edits. -/
abbrev Edits : State → State → Prop := Relation.ReflTransGen Edit

/-- The action changes the state by edits only. -/
structure Develops (a : SearchM α) : Prop where
  run : ∀ σ, Edits σ (exec a σ).2

theorem Develops.edits {a : SearchM α} (develops : Develops a) {v : Except Fault α}
    (ran : exec a σ = (v, τ)) : Edits σ τ := by
  have := develops.run σ
  rwa [ran] at this

namespace Develops

theorem pure (v : α) : Develops (pure v) := ⟨fun _ => .refl⟩

theorem misshapen (x : Context) (line : LineId) (shape : Misshape) :
    Develops (misshapen x line shape : SearchM α) := ⟨fun _ => .refl⟩

theorem illogical (x : Context) (line : LineId) (surprise : Surprise) :
    Develops (illogical x line surprise : SearchM α) := ⟨fun _ => .refl⟩

theorem bind {a : SearchM α} {f : α → SearchM β} (first : Develops a) (rest : ∀ v, Develops (f v)) :
    Develops (a >>= f) := by
  refine ⟨fun σ => ?_⟩
  have start := first.run σ
  rw [exec_bind]
  rcases ran : exec a σ with ⟨_ | v, ρ⟩ <;> rw [ran] at start
  · exact start
  · exact start.trans ((rest v).run ρ)

theorem map {a : SearchM α} (f : α → β) (develops : Develops a) : Develops (f <$> a) := by
  rw [← bind_pure_comp]
  exact develops.bind fun _ => .pure _

theorem forM {items : List β} {f : β → SearchM PUnit} (each : ∀ item ∈ items, Develops (f item)) :
    Develops (items.forM f) := by
  induction items with
  | nil => exact .pure _
  | cons item items ih =>
    exact (each item (by simp)).bind fun _ => ih fun other inside => each other (by simp [inside])

theorem mapM {items : List β} {f : β → SearchM α} (each : ∀ item, Develops (f item)) :
    Develops (items.mapM f) := by
  induction items with
  | nil => exact .pure _
  | cons item items ih =>
    rw [List.mapM_cons]
    exact (each item).bind fun _ => ih.bind fun _ => .pure _

end Develops

end SmaliTrace.Slice
