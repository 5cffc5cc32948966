import Mathlib.Data.List.Nodup
import SmaliTrace.Proofs.Graph.BreadthFirst

/-!
The walk with a stack is the recursive depth-first walk: it enters the same nodes in the same order, each once, and
these are the nodes that a path leads to.
-/
namespace SmaliTrace.Graph

variable {α : Type} [DecidableEq α] {next : α → List α} {unseen stack : List α} {a b : α}

/-- The recursive depth-first walk: a node is entered, everything behind its successors is walked through in their
order, and then the walk goes on with the nodes after it. -/
def depthFirst (next : α → List α) (unseen : List α) : List α → List α
  | [] => []
  | a :: todo =>
    if _h : a ∈ unseen then
      let behind := depthFirst next (unseen.erase a) (next a)
      a :: behind ++ depthFirst next (remaining (unseen.erase a) behind) todo
    else depthFirst next unseen todo
termination_by todo => (unseen.length, todo.length)
decreasing_by
  · have := List.length_erase_of_mem _h
    have := List.length_pos_of_mem _h
    apply Prod.Lex.left
    omega
  · have := List.length_erase_of_mem _h
    have := List.length_pos_of_mem _h
    apply Prod.Lex.left
    exact Nat.lt_of_le_of_lt (List.length_filter_le ..) (by omega)
  · apply Prod.Lex.right
    simp

/-- The walk with a stack onto which only successors are put that may still be entered. -/
def sparingPreorder (next : α → List α) (unseen stack : List α) : List α :=
  match stack with
  | [] => []
  | a :: stack =>
    if _h : a ∈ unseen then
      a :: sparingPreorder next (unseen.erase a) ((next a).filter (· ∈ unseen.erase a) ++ stack)
    else sparingPreorder next unseen stack
termination_by (unseen.length, stack.length)
decreasing_by
  · have := List.length_erase_of_mem _h
    have := List.length_pos_of_mem _h
    apply Prod.Lex.left
    omega
  · apply Prod.Lex.right
    simp

/-! ### One step -/

@[simp] theorem preorder_nil : preorder next unseen [] = [] := by rw [preorder]

theorem preorder_cons_of_mem (waits : a ∈ unseen) :
    preorder next unseen (a :: stack) = a :: preorder next (unseen.erase a) (next a ++ stack) := by
  rw [preorder, dif_pos waits]

theorem preorder_cons_of_notMem (entered : a ∉ unseen) :
    preorder next unseen (a :: stack) = preorder next unseen stack := by
  rw [preorder, dif_neg entered]

/-! ### The recursive walk -/

theorem remaining_remaining {first last : List α} :
    remaining (remaining unseen first) last = remaining unseen (first ++ last) := by
  simp only [remaining, List.filter_filter, List.mem_append, not_or]
  refine List.filter_congr fun b _ => ?_
  simp [Bool.and_comm]

theorem erase_eq_remaining (distinct : unseen.Nodup) : unseen.erase a = remaining unseen [a] := by
  rw [distinct.erase_eq_filter, remaining]
  refine List.filter_congr fun b _ => ?_
  by_cases same : b = a <;> simp [same]

/-- The stack holds what the recursion still has to come back to. -/
theorem preorder_append (distinct : unseen.Nodup) (todo stack : List α) :
    preorder next unseen (todo ++ stack) =
      depthFirst next unseen todo ++ preorder next (remaining unseen (depthFirst next unseen todo)) stack := by
  induction unseen, todo using depthFirst.induct next generalizing stack with
  | case1 unseen => simp [depthFirst, remaining_nil]
  | case2 unseen a todo waits behind inner outer =>
    have fewer : (unseen.erase a).Nodup := distinct.erase a
    have left : remaining (unseen.erase a) behind = remaining unseen (a :: behind) := by
      rw [erase_eq_remaining distinct, remaining_remaining, List.singleton_append]
    have walk : depthFirst next unseen (a :: todo) =
        a :: behind ++ depthFirst next (remaining (unseen.erase a) behind) todo := by
      rw [depthFirst, dif_pos waits]
    calc preorder next unseen (a :: todo ++ stack)
        = a :: preorder next (unseen.erase a) (next a ++ (todo ++ stack)) := preorder_cons_of_mem waits
      _ = a :: behind ++ preorder next (remaining (unseen.erase a) behind) (todo ++ stack) := by
        rw [inner fewer, List.cons_append]
      _ = _ := by
        rw [outer (fewer.filter _), walk, left, remaining_remaining, List.append_assoc]
  | case3 unseen a todo entered ih =>
    rw [List.cons_append, preorder_cons_of_notMem entered, ih distinct, depthFirst, dif_neg entered]

theorem preorder_eq_depthFirst (distinct : unseen.Nodup) (todo : List α) :
    preorder next unseen todo = depthFirst next unseen todo := by
  have walk : preorder next unseen (todo ++ []) = depthFirst next unseen todo ++ _ := preorder_append distinct todo []
  simpa using walk

/-! ### Entered nodes -/

/-- Of a path that comes back to the entered node, only the part after the last visit is still to be walked. -/
private theorem entered_or_walked {start : α} (first : start ∈ a :: stack) (inside : start ∈ unseen)
    (path : Relation.ReflTransGen (Enters next unseen) start b) :
    b = a ∨ ∃ node ∈ next a ++ stack, node ∈ unseen.erase a ∧
      Relation.ReflTransGen (Enters next (unseen.erase a)) node b := by
  induction path with
  | refl =>
    by_cases here : start = a
    · exact .inl here
    · have waiting : start ∈ stack := (List.mem_cons.mp first).resolve_left here
      exact .inr ⟨start, by simp [waiting], (List.mem_erase_of_ne here).mpr inside, .refl⟩
  | @tail middle node _ enters walked =>
    by_cases here : node = a
    · exact .inl here
    · have left : node ∈ unseen.erase a := (List.mem_erase_of_ne here).mpr enters.2
      rcases walked with rfl | ⟨origin, member, isLeft, path⟩
      · exact .inr ⟨node, by simp [enters.1], left, .refl⟩
      · exact .inr ⟨origin, member, isLeft, path.tail ⟨enters.1, left⟩⟩

/-- The walk enters a node exactly if a path leads to it from the stack. -/
theorem mem_preorder_iff : b ∈ preorder next unseen stack ↔
    ∃ start ∈ stack, start ∈ unseen ∧ Relation.ReflTransGen (Enters next unseen) start b := by
  induction unseen, stack using preorder.induct next with
  | case1 unseen => simp
  | case2 unseen a stack waits ih =>
    rw [preorder_cons_of_mem waits, List.mem_cons, ih]
    constructor
    · rintro (rfl | ⟨node, member, left, path⟩)
      · exact ⟨b, by simp, waits, .refl⟩
      · have inside := List.mem_of_mem_erase left
        have path' := Relation.ReflTransGen.mono (fun _ _ => Enters.mono List.erase_subset) _ _ path
        rcases List.mem_append.mp member with after | waiting
        · exact ⟨a, by simp, waits, .head ⟨after, inside⟩ path'⟩
        · exact ⟨node, by simp [waiting], inside, path'⟩
    · rintro ⟨start, first, inside, path⟩
      exact entered_or_walked first inside path
  | case3 unseen a stack entered ih =>
    rw [preorder_cons_of_notMem entered, ih]
    constructor
    · rintro ⟨start, member, inside, path⟩
      exact ⟨start, by simp [member], inside, path⟩
    · rintro ⟨start, member, inside, path⟩
      have other : start ≠ a := by
        rintro rfl
        exact entered inside
      exact ⟨start, (List.mem_cons.mp member).resolve_left other, inside, path⟩

theorem preorder_subset : preorder next unseen stack ⊆ unseen := by
  intro b member
  obtain ⟨start, _, inside, path⟩ := mem_preorder_iff.mp member
  cases path with
  | refl => exact inside
  | tail _ enters => exact enters.2

theorem nodup_preorder (distinct : unseen.Nodup) : (preorder next unseen stack).Nodup := by
  induction unseen, stack using preorder.induct next with
  | case1 unseen => simp
  | case2 unseen a stack waits ih =>
    rw [preorder_cons_of_mem waits, List.nodup_cons]
    exact ⟨fun again => distinct.not_mem_erase (preorder_subset again), ih (distinct.erase a)⟩
  | case3 unseen a stack entered ih =>
    rw [preorder_cons_of_notMem entered]
    exact ih distinct

/-! ### Leaving out what was entered -/

/-- What may not be entered can as well be left out of the stack. -/
theorem preorder_filter (next : α → List α) (unseen stack : List α) :
    preorder next unseen (stack.filter (· ∈ unseen)) = preorder next unseen stack := by
  induction length : unseen.length using Nat.strongRecOn generalizing unseen stack with
  | _ n ih =>
    induction stack with
    | nil => rfl
    | cons a stack rest =>
      by_cases waits : a ∈ unseen
      · have fewer : (unseen.erase a).length < n := by
          have := List.length_erase_of_mem waits
          have := List.length_pos_of_mem waits
          omega
        have same : (next a ++ stack.filter (· ∈ unseen)).filter (· ∈ unseen.erase a) =
            (next a ++ stack).filter (· ∈ unseen.erase a) := by
          rw [List.filter_append, List.filter_append, List.filter_filter]
          congr 1
          refine List.filter_congr fun b _ => ?_
          simpa using List.mem_of_mem_erase
        rw [List.filter_cons_of_pos (by simpa using waits), preorder_cons_of_mem waits, preorder_cons_of_mem waits,
          ← ih _ fewer _ (next a ++ stack.filter _) rfl, same, ih _ fewer _ _ rfl]
      · rw [List.filter_cons_of_neg (by simpa using waits), preorder_cons_of_notMem waits, rest]

theorem sparingPreorder_eq_preorder : sparingPreorder next unseen stack = preorder next unseen stack := by
  induction unseen, stack using sparingPreorder.induct next with
  | case1 unseen => rw [sparingPreorder, preorder_nil]
  | case2 unseen a stack waits ih =>
    rw [sparingPreorder, dif_pos waits, preorder_cons_of_mem waits, ih, ← preorder_filter, ← preorder_filter next _
      (next a ++ stack), List.filter_append, List.filter_append, List.filter_filter]
    simp only [Bool.and_self]
  | case3 unseen a stack entered ih => rw [sparingPreorder, dif_neg entered, preorder_cons_of_notMem entered, ih]

end SmaliTrace.Graph
