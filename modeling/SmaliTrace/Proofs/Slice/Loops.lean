import SmaliTrace.Proofs.Slice.Turn

/-!
The loops inside single items come to their ends: the walks over the blocks of an array, and the propagation of an
origin through records, which may refer to each other in circles. Each loop agrees with one that gives up after a
number of rounds, for a number that is known beforehand.
-/
namespace SmaliTrace.Slice
open SmaliTrace.Smali SmaliTrace.ClassFile

/-! ### Array walks -/

section WorkOff

variable {α : Type} {step : Frontier → α → SearchM (Frontier × List α)} {walk : Frontier → List α → SearchM Unit}

/-- Works off a queue whose items may queue more, with a number of rounds at most; tells whether it came to the
end of the queue. -/
def workOff (step : Frontier → α → SearchM (Frontier × List α)) :
    (rounds : Nat) → Frontier → List α → SearchM Bool
  | _, _, [] => pure true
  | 0, _, _ :: _ => pure false
  | rounds + 1, f, a :: queue => do
    let (f, more) ← step f a
    workOff step rounds f (queue ++ more)

/-- Where every round takes as much room as it queues, room and queue together bound the number of rounds. -/
theorem exec_workOff (nil : ∀ f, walk f [] = pure ())
    (cons : ∀ f a queue, walk f (a :: queue) = step f a >>= fun (f, more) => walk f (queue ++ more))
    (shrinks : ∀ f a σ f' more τ, exec (step f a) σ = (.ok (f', more), τ) → f'.room + more.length ≤ f.room)
    {rounds : Nat} {f : Frontier} {queue : List α} (enough : f.room + queue.length ≤ rounds) (σ : State) :
    exec (workOff step rounds f queue) σ = exec (do walk f queue; pure true) σ := by
  induction rounds generalizing f queue σ with
  | zero =>
    obtain rfl : queue = [] := List.length_eq_zero_iff.mp (by omega)
    rw [workOff, nil]
    rfl
  | succ rounds ih =>
    cases queue with
    | nil =>
      rw [workOff, nil]
      rfl
    | cons a queue =>
      rw [workOff, cons, exec_bind, exec_bind, exec_bind]
      rcases ran : exec (step f a) σ with ⟨fault | ⟨f', more⟩, τ⟩
      · rfl
      · have shrunk := shrinks f a σ f' more τ ran
        have enough' : f'.room + (queue ++ more).length ≤ rounds := by
          simp only [List.length_cons, List.length_append] at enough ⊢
          omega
        have later := ih enough' τ
        rw [exec_bind] at later
        exact later

end WorkOff

variable {x : Context} {r : RegisterSearch} {c : Cursor} {array : Register} {call : Option Site}

/-- One round of the walk that looks for stores into an array. -/
def storesRound (x : Context) (r : RegisterSearch) (c : Cursor) (array : Register) (call : Option Site)
    (f : Frontier) (place : BlockId × Int) : SearchM (Frontier × List (BlockId × Int)) := do
  if ← storesInBlock x r c array call (linesOn x place.1 place.2) then
    let next := f.enter (neighbours x place.1 (·.succs))
    pure (next.1, next.2.map fun i => (⟨place.1.method, i⟩, 0))
  else pure (f, [])

/-- One round of the walk back to the allocation of an array. -/
def arrayRound (x : Context) (r : RegisterSearch) (f : Frontier) (frame : ArrayFrame) :
    SearchM (Frontier × List ArrayFrame) := do
  match ← arrayLines x r frame.cursor (linesBack x frame.block frame.index) with
  | none => pure (f, [])
  | some c =>
    let next := f.enter (neighbours x frame.block (·.preds))
    callersAtEntry x r c frame.block
    pure (next.1, next.2.map fun i =>
      let b : BlockId := ⟨frame.block.method, i⟩
      ⟨b, lastPosition x b, c⟩)

theorem walkStores_cons (f : Frontier) (place : BlockId × Int) (queue : List (BlockId × Int)) :
    walkStores x r c array call f (place :: queue) =
      storesRound x r c array call f place >>= fun (f, more) => walkStores x r c array call f (queue ++ more) := by
  rw [walkStores, storesRound, bind_assoc]
  refine bind_congr fun holds => ?_
  cases holds <;> simp

theorem walkArray_cons (f : Frontier) (frame : ArrayFrame) (queue : List ArrayFrame) :
    walkArray x r f (frame :: queue) =
      arrayRound x r f frame >>= fun (f, more) => walkArray x r f (queue ++ more) := by
  rw [walkArray, arrayRound, bind_assoc]
  refine bind_congr fun left => ?_
  cases left <;> simp

theorem room_storesRound {f f' : Frontier} {place : BlockId × Int} {more : List (BlockId × Int)} {σ τ : State}
    (ran : exec (storesRound x r c array call f place) σ = (.ok (f', more), τ)) : f'.room + more.length ≤ f.room := by
  obtain ⟨holds, ρ, _, ran⟩ := exec_bind_eq_ok_iff.mp ran
  cases holds with
  | false =>
    cases ran
    simp
  | true =>
    cases ran
    simpa using (f.room_enter _).le

theorem room_arrayRound {f f' : Frontier} {frame : ArrayFrame} {more : List ArrayFrame} {σ τ : State}
    (ran : exec (arrayRound x r f frame) σ = (.ok (f', more), τ)) : f'.room + more.length ≤ f.room := by
  obtain ⟨left, ρ, _, ran⟩ := exec_bind_eq_ok_iff.mp ran
  cases left with
  | none =>
    cases ran
    simp
  | some c' =>
    obtain ⟨_, _, _, ran⟩ := exec_bind_eq_ok_iff.mp ran
    cases ran
    simpa using (f.room_enter _).le

/-! ### Propagation through records -/

namespace Worklist

variable {records : Array Record} {g : SliceGraph} {o : Origin}

/-- Serves an origin as `serve` does, with a number of rounds at most. -/
def serveWithin (o : Origin) :
    (rounds : Nat) → Array Record → SliceGraph → List Nat → Option (Array Record × SliceGraph)
  | _, records, g, [] => some (records, g)
  | 0, _, _, _ :: _ => none
  | rounds + 1, records, g, i :: stack =>
    if h : i < records.size then
      if records[i].serves o = false then
        serveWithin o rounds (records.modify i (Record.await · o)) (records[i].produced.foldl (linkProduced · o) g)
          (records[i].children ++ stack)
      else serveWithin o rounds records g stack
    else serveWithin o rounds records g stack

/-- The number of children of the records that do not serve the origin yet. -/
def unservedChildren (records : Array Record) (o : Origin) : Nat :=
  ((records.toList.filter fun r => !r.serves o).map fun r => r.children.length).sum

theorem unservedChildren_await {i : Nat} (h : i < records.size) (idle : records[i].serves o = false) :
    records[i].children.length + unservedChildren (records.modify i (Record.await · o)) o =
      unservedChildren records o := by
  have bound : i < records.toList.length := by simpa using h
  have split : records.toList = records.toList.take i ++ records.toList[i] :: records.toList.drop (i + 1) := by
    rw [List.getElem_cons_drop, List.take_append_drop]
  have served : (Record.await records[i] o).serves o = true := by simp [Record.serves, Record.await]
  unfold unservedChildren
  rw [Array.toList_modify, List.modify_eq_take_cons_drop bound]
  conv_rhs => rw [split]
  simp only [Array.getElem_toList, List.filter_append, List.filter_cons, served, idle, List.map_append,
    List.sum_append, Bool.not_true, Bool.not_false, if_true, Bool.false_eq_true, if_false, List.map_cons, List.sum_cons]
  omega

/-- Every record passes the origin on once, so that the stack and the children of the records that do not serve it
yet bound the number of rounds. -/
theorem serveWithin_eq {rounds : Nat} {stack : List Nat} (enough : stack.length + unservedChildren records o ≤ rounds) :
    serveWithin o rounds records g stack = some (serve records g o stack) := by
  induction rounds generalizing records g stack with
  | zero =>
    obtain rfl : stack = [] := List.length_eq_zero_iff.mp (by omega)
    rw [serveWithin, serve]
  | succ rounds ih =>
    cases stack with
    | nil => rw [serveWithin, serve]
    | cons i stack =>
      rw [List.length_cons] at enough
      rw [serveWithin, serve]
      by_cases h : i < records.size
      · by_cases idle : records[i].serves o = false
        · have passed := unservedChildren_await h idle
          rw [dif_pos h, if_pos idle, dif_pos h, dif_pos idle]
          exact ih (by rw [List.length_append]; omega)
        · rw [dif_pos h, if_neg idle, dif_pos h, dif_neg idle]
          exact ih (by omega)
      · rw [dif_neg h, dif_neg h]
        exact ih (by omega)

end Worklist

/-! ### One item -/

/-- The loops of the items of a search come to their ends: array walks after as many blocks as the options allow,
and the propagation of an origin after as many records as there are requests to pass it on. -/
structure LoopsEnd (x : Context) : Prop where
  walks : ∀ r c b position σ,
    exec (workOff (arrayRound x r) ((x.options.arrayDepth - 1).toNat + 1)
      (.start x.options.arrayDepth b.index) [⟨b, position, c⟩]) σ =
      exec (do arrayOrigin x r c b position; pure true) σ
  stores : ∀ r c array call b position σ,
    exec (workOff (storesRound x r c array call) ((x.options.arrayDepth - 1).toNat + 1)
      (.start x.options.arrayDepth b.index) [(b, position)]) σ =
      exec (do arrayStores x r c array call b position; pure true) σ
  serves : ∀ records g o i, Worklist.serveWithin o (1 + Worklist.unservedChildren records o) records g [i] =
    some (Worklist.serve records g o [i])

theorem loopsEnd (x : Context) : LoopsEnd x where
  walks r c b position σ := by
    refine exec_workOff (fun f => by rw [walkArray]) walkArray_cons (fun _ _ _ _ _ _ => room_arrayRound) ?_ σ
    simp [Frontier.start]
  stores r c array call b position σ := by
    refine exec_workOff (fun f => by rw [walkStores]) walkStores_cons (fun _ _ _ _ _ _ => room_storesRound) ?_ σ
    simp [Frontier.start]
  serves records g o i := Worklist.serveWithin_eq (by simp)

end SmaliTrace.Slice
