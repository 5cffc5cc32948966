import Mathlib.Data.List.SplitBy
import SmaliTrace.BlockGraph.Build
import SmaliTrace.Proofs.BlockGraph.Machine

/-!
How a body is cut into blocks. The parts follow each other without a gap, every part has an executable
line, and a leader stands before the first executable line of its part, unless nothing is executed from
the leader on.
-/
namespace SmaliTrace.BlockGraph
open SmaliTrace.ClassFile SmaliTrace.Smali

variable {m : Method} {links : List Link}

/-! ### Runs -/

theorem flatten_runs (m : Method) (links : List Link) :
    (runs m links).flatten = List.range m.lines.size :=
  List.flatten_splitBy _ _

private theorem forall_tail_of_isChain {p : Nat → Prop} {a : Nat} {rest : List Nat}
    (chain : (a :: rest).IsChain fun _ b => p b) : ∀ b ∈ rest, p b := by
  induction rest generalizing a with
  | nil => simp
  | cons c rest ih =>
    rw [List.isChain_cons_cons] at chain
    intro b member
    rcases List.mem_cons.mp member with rfl | later
    · exact chain.1
    · exact ih chain.2 b later

/-- A leader in a run is its first line. -/
theorem eq_head_of_isLeader {a t : Nat} {rest : List Nat} (member : a :: rest ∈ runs m links)
    (inside : t ∈ a :: rest) (leads : isLeader m links t = true) : t = a := by
  have chain := List.isChain_of_mem_splitBy member
  rcases List.mem_cons.mp inside with rfl | later
  · rfl
  · have follows := forall_tail_of_isChain chain t later
    simp [leads] at follows

/-! ### Joining runs -/

theorem flatten_joinForward (pending : List Nat) (rs : List (List Nat)) :
    (joinForward m pending rs).1.flatten ++ (joinForward m pending rs).2 = pending ++ rs.flatten := by
  induction rs generalizing pending with
  | nil => simp [joinForward]
  | cons run rest ih =>
    unfold joinForward
    split
    · have tail := ih []
      simp only [List.nil_append] at tail
      simp [List.append_assoc, tail]
    · simp [ih, List.append_assoc]

theorem quiet_of_joinForward {pending : List Nat} {rs : List (List Nat)}
    (quiet : ∀ l ∈ pending, executable m l = false) :
    ∀ l ∈ (joinForward m pending rs).2, executable m l = false := by
  induction rs generalizing pending with
  | nil => simpa [joinForward] using quiet
  | cons run rest ih =>
    unfold joinForward
    split
    · exact ih (by simp)
    · next idle =>
      apply ih
      intro l member
      rcases List.mem_append.mp member with before | here
      · exact quiet l before
      · simp only [Bool.not_eq_true, List.any_eq_false] at idle
        simpa using idle l here

/-- A joined part is a run with an executable line behind lines that are not executed. -/
theorem shape_of_joinForward {pending : List Nat} {rs : List (List Nat)}
    (quiet : ∀ l ∈ pending, executable m l = false) :
    ∀ part ∈ (joinForward m pending rs).1, ∃ before run, part = before ++ run ∧ run ∈ rs ∧
      run.any (executable m) = true ∧ ∀ l ∈ before, executable m l = false := by
  induction rs generalizing pending with
  | nil => simp [joinForward]
  | cons run rest ih =>
    unfold joinForward
    split
    · next busy =>
      intro part member
      rcases List.mem_cons.mp member with rfl | later
      · exact ⟨pending, run, rfl, List.mem_cons_self, busy, quiet⟩
      · obtain ⟨before, run', shape, listed, rest⟩ := @ih [] (by simp) part later
        exact ⟨before, run', shape, List.mem_cons_of_mem _ listed, rest⟩
    · next idle =>
      intro part member
      have quiet' : ∀ l ∈ pending ++ run, executable m l = false := by
        intro l inside
        rcases List.mem_append.mp inside with before | here
        · exact quiet l before
        · simp only [Bool.not_eq_true, List.any_eq_false] at idle
          simpa using idle l here
      obtain ⟨before, run', shape, listed, rest⟩ := ih quiet' part member
      exact ⟨before, run', shape, List.mem_cons_of_mem _ listed, rest⟩

theorem flatten_appendToLast {left : List Nat} {parts : List (List Nat)} (some : parts ≠ []) :
    (appendToLast left parts).flatten = parts.flatten ++ left := by
  induction parts with
  | nil => exact absurd rfl some
  | cons part rest ih =>
    cases rest with
    | nil => simp [appendToLast]
    | cons next rest => simp [appendToLast, ih (by simp), List.append_assoc]

theorem mem_appendToLast {left part : List Nat} {parts : List (List Nat)}
    (member : part ∈ appendToLast left parts) :
    ∃ body ∈ parts, part = body ∨ part = body ++ left := by
  induction parts with
  | nil => simp [appendToLast] at member
  | cons head rest ih =>
    cases rest with
    | nil => exact ⟨head, by simp, .inr (by simpa [appendToLast] using member)⟩
    | cons next rest =>
      rcases List.mem_cons.mp member with rfl | later
      · exact ⟨part, List.mem_cons_self, .inl rfl⟩
      · obtain ⟨body, listed, shape⟩ := ih later
        exact ⟨body, List.mem_cons_of_mem _ listed, shape⟩

/-! ### Parts -/

/-- Every part has an executable line. -/
theorem exists_executable_of_mem_partition {part : List Nat} (member : part ∈ partition m links) :
    ∃ l ∈ part, executable m l = true := by
  obtain ⟨body, joined, shape⟩ := mem_appendToLast member
  obtain ⟨before, run, rfl, _, busy, _⟩ := shape_of_joinForward (by simp) body joined
  obtain ⟨l, inside, executed⟩ := List.any_eq_true.mp busy
  refine ⟨l, ?_, executed⟩
  rcases shape with rfl | rfl <;> simp [inside]

section
variable (links) (live : ∃ l, executable m l = true)
include live

private theorem joined_ne_nil : (joinForward m [] (runs m links)).1 ≠ [] := by
  obtain ⟨l, executed⟩ := live
  intro empty
  have all := flatten_joinForward (m := m) [] (runs m links)
  rw [empty, flatten_runs] at all
  simp only [List.flatten_nil, List.nil_append] at all
  have left : l ∈ (joinForward m [] (runs m links)).2 := by
    rw [all, List.mem_range]
    exact lt_size_of_executable executed
  have quiet := @quiet_of_joinForward m [] _ (by simp) l left
  simp [executed] at quiet

/-- The parts follow each other without a gap. -/
theorem flatten_partition : (partition m links).flatten = List.range m.lines.size := by
  unfold partition
  rw [flatten_appendToLast (joined_ne_nil links live), flatten_joinForward, flatten_runs, List.nil_append]

theorem partition_ne_nil : partition m links ≠ [] := by
  obtain ⟨l, executed⟩ := live
  intro empty
  have all := flatten_partition links ⟨l, executed⟩
  rw [empty] at all
  have inside := List.mem_range.mpr (lt_size_of_executable executed)
  simp [← all] at inside

variable {links}

theorem pairwise_partition :
    (∀ part ∈ partition m links, part.Pairwise (· < ·)) ∧
      (partition m links).Pairwise fun a b => ∀ k ∈ a, ∀ l ∈ b, k < l := by
  rw [← List.pairwise_flatten, flatten_partition links live]
  exact List.pairwise_lt_range

/-- The lines of a part stand before those of a later part. -/
theorem lt_of_part_lt {a b k l : Nat} {p q : List Nat} (atA : (partition m links)[a]? = some p)
    (atB : (partition m links)[b]? = some q) (before : a < b) (inA : k ∈ p) (inB : l ∈ q) : k < l := by
  obtain ⟨boundA, rfl⟩ := List.getElem?_eq_some_iff.mp atA
  obtain ⟨boundB, rfl⟩ := List.getElem?_eq_some_iff.mp atB
  exact List.pairwise_iff_getElem.mp (pairwise_partition live).2 a b boundA boundB before k inA l inB

/-- The part of a line is the only one that has it. -/
theorem partOf_eq {b l : Nat} {part : List Nat} (found : (partition m links)[b]? = some part)
    (inside : l ∈ part) : partOf (partition m links) l = b := by
  obtain ⟨bound, rfl⟩ := List.getElem?_eq_some_iff.mp found
  unfold partOf
  rw [List.findIdx_eq bound]
  refine ⟨by simpa using inside, ?_⟩
  intro a before
  have bound' : a < (partition m links).length := by omega
  by_contra other
  have shared : l ∈ (partition m links)[a] := by simpa using other
  have := lt_of_part_lt live (List.getElem?_eq_getElem bound') found before shared inside
  omega

theorem exists_part (links : List Link) {l : Nat} (bound : l < m.lines.size) :
    ∃ part, (partition m links)[partOf (partition m links) l]? = some part ∧ l ∈ part := by
  have covered : l ∈ (partition m links).flatten := by
    rw [flatten_partition links live]
    exact List.mem_range.mpr bound
  obtain ⟨part, member, inside⟩ := List.mem_flatten.mp covered
  obtain ⟨b, found⟩ := List.mem_iff_getElem?.mp member
  exact ⟨part, by rw [partOf_eq live found inside]; exact found, inside⟩

theorem lt_size_of_mem_part {l : Nat} {part : List Nat} (member : part ∈ partition m links)
    (inside : l ∈ part) : l < m.lines.size := by
  have covered : l ∈ (partition m links).flatten := List.mem_flatten.mpr ⟨part, member, inside⟩
  rw [flatten_partition links live] at covered
  exact List.mem_range.mp covered

/-- Between two lines of a part there are only lines of the part. -/
theorem mem_part_of_between {b k l t : Nat} {part : List Nat}
    (found : (partition m links)[b]? = some part) (first : k ∈ part) (last : l ∈ part)
    (after : k ≤ t) (before : t ≤ l) : t ∈ part := by
  have bound : t < m.lines.size := by
    have := lt_size_of_mem_part live (List.mem_of_getElem? found) last
    omega
  obtain ⟨other, found', inside⟩ := exists_part live links bound
  rcases Nat.lt_trichotomy b (partOf (partition m links) t) with earlier | same | later
  · have := lt_of_part_lt live found found' earlier last inside
    omega
  · rw [← same, found] at found'
    cases found'
    exact inside
  · have := lt_of_part_lt live found' found later inside first
    omega

/-- Nothing is executed in its part before a leader, or nothing at all from the leader on. -/
theorem quiet_before_leader {t : Nat} {part : List Nat} (member : part ∈ partition m links)
    (inside : t ∈ part) (leads : isLeader m links t = true) :
    (∀ l ∈ part, l < t → executable m l = false) ∨ ∀ l, t ≤ l → executable m l = false := by
  have sorted := (pairwise_partition live).1 part member
  obtain ⟨body, joined, shape⟩ := mem_appendToLast member
  obtain ⟨before, run, rfl, listed, busy, quiet⟩ := shape_of_joinForward (by simp) body joined
  obtain ⟨head, rest, rfl⟩ : ∃ head rest, run = head :: rest := by
    cases run with
    | nil => simp at busy
    | cons head rest => exact ⟨head, rest, rfl⟩
  -- A leader of the run is its head, so what stands before it in the part is not executed.
  have inBody : ∀ tail, part = before ++ head :: rest ++ tail → t ∈ before ++ head :: rest →
      ∀ l ∈ part, l < t → executable m l = false := by
    rintro tail rfl early l member' less
    have reach : t ≤ head := by
      rcases List.mem_append.mp early with first | run
      · simp only [List.append_assoc, List.pairwise_append] at sorted
        exact le_of_lt (sorted.2.2 t first head (by simp))
      · exact le_of_eq (eq_head_of_isLeader listed run leads)
    rw [List.append_assoc] at sorted member'
    rcases List.mem_append.mp member' with first | late
    · exact quiet l first
    · have later : ∀ k ∈ rest ++ tail, head < k := by
        have := (List.pairwise_append.mp sorted).2.1
        rw [List.cons_append, List.pairwise_cons] at this
        exact this.1
      rcases List.mem_cons.mp late with rfl | late
      · omega
      · have := later l late
        omega
  rcases shape with rfl | rfl
  · exact .inl (inBody [] (by simp) inside)
  · rcases List.mem_append.mp inside with early | late
    · exact .inl (inBody _ rfl early)
    · -- The leader is among the lines left at the end of the body.
      refine .inr fun l above => ?_
      by_contra executed
      simp only [Bool.not_eq_false] at executed
      have all := flatten_joinForward (m := m) [] (runs m links)
      rw [flatten_runs, List.nil_append] at all
      have order := List.pairwise_lt_range (n := m.lines.size)
      rw [← all, List.pairwise_append] at order
      have somewhere := List.mem_range.mpr (lt_size_of_executable executed)
      rw [← all] at somewhere
      rcases List.mem_append.mp somewhere with early | left
      · have := order.2.2 l early t late
        omega
      · have := @quiet_of_joinForward m [] _ (by simp) l left
        simp [executed] at this

end

end SmaliTrace.BlockGraph
