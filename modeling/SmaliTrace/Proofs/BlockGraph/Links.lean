import Mathlib.Data.List.Induction
import Mathlib.Data.List.TakeDrop
import SmaliTrace.Proofs.BlockGraph.Machine

/-!
What the collected flow of a body holds: the links are exactly those that single lines give, and the
handlers of a try range are those that directives name.
-/
namespace SmaliTrace.BlockGraph
open SmaliTrace.ClassFile SmaliTrace.Smali

variable {m : Method}

/-- A line gives a link: a branch or switch to the next line and to its targets, a jump to its target, a
directive from the executable lines of its range to the handler, and, as the last of a run, the bridge
of its range. -/
inductive Gives (m : Method) (line : Nat) : Link → Prop
  | fall {op : Operation} (does : operationAt? m line = some op)
      (forks : op.kind = .branch ∨ op.kind = .switch) (more : line + 1 < m.lines.size) :
      Gives m line ⟨line, line + 1, false⟩
  | jump {op : Operation} {t : Nat} (does : operationAt? m line = some op)
      (jumps : op.kind = .branch ∨ op.kind = .goto) (label : LabelAt m op.labelName t) :
      Gives m line ⟨line, t, false⟩
  | select {value name entry : String} {table t : Nat}
      (does : operationAt? m line = some (.switch value name)) (points : LabelAt m name table)
      (lists : ListsLabel m table entry) (label : LabelAt m entry t) : Gives m line ⟨line, t, false⟩
  | raise {l start stop t : Nat} (runs : executable m l = true) (directive : Directive m line start stop t)
      (inside : start ≤ l ∧ l ≤ stop) : Gives m line ⟨l, t, false⟩
  | bridge {l start stop t : Nat} (directive : Directive m line start stop t) (runs : executable m l = true)
      (inside : start ≤ l ∧ l ≤ stop) (last : ∀ k, l < k → k ≤ stop → executable m k = false)
      (more : line + 1 < m.lines.size) (ends : lineKind? m (line + 1) ≠ some .handler) :
      Gives m line ⟨l, line + 1, true⟩

/-! ### Labels -/

theorem lineKind?_eq (m : Method) (l : Nat) :
    lineKind? m l = (operationAt? m l).map Operation.kind := by
  unfold lineKind? operationAt?
  cases m.lines[l]? <;> rfl

theorem executable_eq (m : Method) (l : Nat) :
    executable m l = ((lineKind? m l).map Kind.executable).getD false := by
  unfold executable lineKind?
  cases m.lines[l]? <;> rfl

/-- In a list in strict order, the first element that passes is the least one. -/
theorem find?_eq_some_iff_of_pairwise {r : Nat → Nat → Prop} (asymm : ∀ a b, r a b → ¬ r b a)
    {l : List Nat} (sorted : l.Pairwise r) {p : Nat → Bool} {a : Nat} :
    l.find? p = some a ↔ a ∈ l ∧ p a = true ∧ ∀ b ∈ l, r b a → p b = false := by
  induction l with
  | nil => simp
  | cons c l ih =>
    rw [List.pairwise_cons] at sorted
    rw [List.find?_cons]
    cases passes : p c with
    | true =>
      simp only [Option.some.injEq]
      constructor
      · rintro rfl
        refine ⟨List.mem_cons_self, passes, fun b member less => ?_⟩
        rcases List.mem_cons.mp member with rfl | later
        · exact absurd less (asymm b b less)
        · exact absurd (sorted.1 b later) (asymm b c less)
      · rintro ⟨member, _, least⟩
        rcases List.mem_cons.mp member with rfl | later
        · rfl
        · have := least c List.mem_cons_self (sorted.1 a later)
          simp [passes] at this
    | false =>
      simp only [ih sorted.2]
      constructor
      · rintro ⟨member, passes', least⟩
        refine ⟨List.mem_cons_of_mem _ member, passes', fun b inside less => ?_⟩
        rcases List.mem_cons.mp inside with rfl | later
        · exact passes
        · exact least b later less
      · rintro ⟨member, passes', least⟩
        rcases List.mem_cons.mp member with rfl | later
        · simp [passes] at passes'
        · exact ⟨later, passes', fun b inside => least b (List.mem_cons_of_mem _ inside)⟩

/-- The last element that passes, for an ascending list. -/
theorem find?_reverse_eq_some_iff {l : List Nat} (sorted : l.Pairwise (· < ·)) {p : Nat → Bool} {a : Nat} :
    l.reverse.find? p = some a ↔ a ∈ l ∧ p a = true ∧ ∀ b ∈ l, a < b → p b = false := by
  rw [find?_eq_some_iff_of_pairwise (r := (· > ·)) (fun a b => by omega)
    (List.pairwise_reverse.mpr sorted)]
  simp

theorem labelLine?_eq_some_iff {name : String} {t : Nat} :
    labelLine? m name = some t ↔ LabelAt m name t := by
  unfold labelLine?
  rw [find?_reverse_eq_some_iff List.pairwise_lt_range]
  unfold LabelAt operationAt?
  constructor
  · rintro ⟨_, here, last⟩
    refine ⟨by simpa using here, fun k above => ?_⟩
    by_cases within : k < m.lines.size
    · simpa using last k (List.mem_range.mpr within) above
    · simp [Array.getElem?_eq_none (Nat.le_of_not_lt within)]
  · rintro ⟨here, last⟩
    have bound : t < m.lines.size := by
      by_contra beyond
      simp [Array.getElem?_eq_none (Nat.le_of_not_lt beyond)] at here
    exact ⟨List.mem_range.mpr bound, by simpa using here, fun k _ above => by simpa using last k above⟩

/-- A label has one definition that counts. -/
theorem labelAt_iff {name : String} {t t' : Nat} (label : LabelAt m name t) :
    LabelAt m name t' ↔ t' = t := by
  rw [← labelLine?_eq_some_iff, labelLine?_eq_some_iff.mpr label, Option.some.injEq, eq_comm]

theorem target_eq_ok_iff {line t : Nat} {name : String} :
    target m line name = .ok t ↔ LabelAt m name t := by
  rw [← labelLine?_eq_some_iff]
  unfold target
  cases labelLine? m name <;> simp

/-! ### Switches -/

theorem bind_eq_ok_iff {ε α β : Type} {x : Except ε α} {f : α → Except ε β} {b : β} :
    (x >>= f) = .ok b ↔ ∃ a, x = .ok a ∧ f a = .ok b := by
  cases x <;> simp [bind, Except.bind]

private theorem mem_of_mapM_eq_ok {ε α β : Type} {f : α → Except ε β} {as : List α} {bs : List β}
    (mapped : as.mapM f = .ok bs) (b : β) : b ∈ bs ↔ ∃ a ∈ as, f a = .ok b := by
  induction as generalizing bs with
  | nil =>
    simp only [List.mapM_nil, pure, Except.pure, Except.ok.injEq] at mapped
    simp [← mapped]
  | cons a as ih =>
    rw [List.mapM_cons, bind_eq_ok_iff] at mapped
    obtain ⟨c, head, mapped⟩ := mapped
    obtain ⟨cs, tail, mapped⟩ := bind_eq_ok_iff.mp mapped
    simp only [pure, Except.pure, Except.ok.injEq] at mapped
    subst mapped
    simp [ih tail, head, eq_comm]

theorem mem_takeWhile_range' {p : Nat → Bool} {start n i : Nat} :
    i ∈ (List.range' start n).takeWhile p ↔
      (start ≤ i ∧ i < start + n) ∧ ∀ k, start ≤ k → k ≤ i → p k = true := by
  induction n generalizing start with
  | zero =>
    constructor
    · intro absent
      simp at absent
    · rintro ⟨bounds, _⟩
      omega
  | succ n ih =>
    rw [List.range'_succ, List.takeWhile_cons]
    cases holds : p start with
    | false =>
      simp only [Bool.false_eq_true, if_false, List.not_mem_nil, false_iff, not_and]
      intro bounds all
      have := all start (by omega) (by omega)
      simp [holds] at this
    | true =>
      simp only [if_true, List.mem_cons, ih]
      constructor
      · rintro (rfl | ⟨bounds, all⟩)
        · refine ⟨by omega, fun k above below => ?_⟩
          obtain rfl : k = i := by omega
          exact holds
        · refine ⟨by omega, fun k above below => ?_⟩
          by_cases same : k = start
          · exact same ▸ holds
          · exact all k (by omega) below
      · rintro ⟨bounds, all⟩
        by_cases same : i = start
        · exact .inl same
        · exact .inr ⟨by omega, fun k above below => all k (by omega) below⟩

/-- What is left of consecutive numbers from the first one that fails on, without that one. -/
private theorem drop_dropWhile_range' {p : Nat → Bool} (start n : Nat) :
    (∀ k, start ≤ k → k < start + n → p k = true) ∧
        ((List.range' start n).dropWhile p).drop 1 = [] ∨
      ∃ s, start ≤ s ∧ s < start + n ∧ p s = false ∧ (∀ k, start ≤ k → k < s → p k = true) ∧
        ((List.range' start n).dropWhile p).drop 1 = List.range' (s + 1) (start + n - (s + 1)) := by
  induction n generalizing start with
  | zero => exact .inl ⟨fun k above below => by omega, by simp⟩
  | succ n ih =>
    rw [List.range'_succ, List.dropWhile_cons]
    cases holds : p start with
    | false =>
      refine .inr ⟨start, by omega, by omega, holds, fun k above below => by omega, ?_⟩
      simp only [Bool.false_eq_true, if_false, List.drop_one, List.tail_cons]
      congr 1
      omega
    | true =>
      simp only [if_true]
      rcases ih (start + 1) with ⟨all, empty⟩ | ⟨s, above, below, fails, all, rest⟩
      · refine .inl ⟨fun k above below => ?_, empty⟩
        by_cases same : k = start
        · exact same ▸ holds
        · exact all k (by omega) (by omega)
      · refine .inr ⟨s, by omega, by omega, fails, fun k above' below' => ?_, ?_⟩
        · by_cases same : k = start
          · exact same ▸ holds
          · exact all k (by omega) below'
        · rw [rest]
          congr 1
          omega

theorem linesAfter_eq (m : Method) (line : Nat) :
    linesAfter m line = List.range' (line + 1) (m.lines.size - (line + 1)) := by
  simp [linesAfter, List.range_eq_range', List.drop_range']

/-- The entries of the payload behind a line, as the reading of a switch finds them. -/
theorem mem_payload_iff {table i : Nat} :
    i ∈ (((linesAfter m table).dropWhile fun k => lineKind? m k ≠ some .dataStart).drop 1).takeWhile
        (fun k => lineKind? m k = some .data) ↔
      ∃ start, table < start ∧ lineKind? m start = some .dataStart ∧
        (∀ k, table < k → k < start → lineKind? m k ≠ some .dataStart) ∧ start < i ∧
        ∀ k, start < k → k ≤ i → lineKind? m k = some .data := by
  have bound : ∀ {k : Nat} {kind : Kind}, lineKind? m k = some kind → k < m.lines.size := by
    intro k kind has
    by_contra beyond
    simp [lineKind?, Array.getElem?_eq_none (Nat.le_of_not_lt beyond)] at has
  rw [linesAfter_eq]
  rcases drop_dropWhile_range' (p := fun k => decide (lineKind? m k ≠ some .dataStart)) (table + 1)
      (m.lines.size - (table + 1)) with ⟨all, empty⟩ | ⟨s, above, below, isStart, all, rest⟩
  · rw [empty]
    simp only [List.takeWhile_nil, List.not_mem_nil, false_iff, not_exists]
    rintro start ⟨later, isStart, -⟩
    have := all start (by omega) (by have := bound isStart; omega)
    simp [isStart] at this
  · rw [rest, mem_takeWhile_range']
    have isStart' : lineKind? m s = some .dataStart := by simpa using isStart
    have all' : ∀ k, table < k → k < s → lineKind? m k ≠ some .dataStart := by
      intro k later earlier
      simpa using all k (by omega) earlier
    constructor
    · rintro ⟨bounds, data⟩
      exact ⟨s, by omega, isStart', all', by omega, fun k later earlier => by
        simpa using data k (by omega) earlier⟩
    · rintro ⟨start, later, isStart'', first, behind, data⟩
      -- Both are the first start of data after the table.
      have same : start = s := by
        rcases Nat.lt_trichotomy start s with less | same | more
        · exact absurd isStart'' (all' start later less)
        · exact same
        · exact absurd isStart' (first s (by omega) more)
      subst same
      have := bound (data i (by omega) (by omega))
      exact ⟨by omega, fun k later' earlier => by simpa using data k (by omega) earlier⟩

theorem mem_of_switchTargets {line t : Nat} {name : String} {targets : List Nat}
    (read : switchTargets m line name = .ok targets) :
    t ∈ targets ↔ ∃ table entry, LabelAt m name table ∧ ListsLabel m table entry ∧ LabelAt m entry t := by
  unfold switchTargets at read
  obtain ⟨table, points, read⟩ := bind_eq_ok_iff.mp read
  rw [target_eq_ok_iff] at points
  simp only [List.span_eq_takeWhile_dropWhile] at read
  split at read
  · simp at read
  · rw [mem_of_mapM_eq_ok read t]
    have label : ∀ i, lineKind? m i = some .data →
        ∃ literal name, operationAt? m i = some (.data literal name) := by
      intro i isData
      rw [lineKind?_eq] at isData
      cases found : operationAt? m i with
      | none => simp [found] at isData
      | some op =>
        rw [found] at isData
        cases op <;> simp [Operation.kind] at isData
        exact ⟨_, _, rfl⟩
    constructor
    · rintro ⟨i, listed, leads⟩
      obtain ⟨start, later, isStart, first, behind, data⟩ := mem_payload_iff.mp listed
      obtain ⟨literal, entry, does⟩ := label i (data i behind (Nat.le_refl _))
      rw [target_eq_ok_iff] at leads
      have does' : m.lines[i]?.map CodeLine.operation = some (.data literal entry) := does
      refine ⟨table, entry, points, ⟨start, i, literal, later, isStart, first, behind, data, does⟩, ?_⟩
      obtain ⟨codeLine, atI, is⟩ := Option.map_eq_some_iff.mp does'
      simpa [atI, is, Operation.labelName] using leads
    · rintro ⟨table', entry, points', ⟨start, i, literal, later, isStart, first, behind, data, does⟩, leads⟩
      obtain rfl : table' = table := (labelAt_iff points).mp points'
      refine ⟨i, mem_payload_iff.mpr ⟨start, later, isStart, first, behind, data⟩, ?_⟩
      rw [target_eq_ok_iff]
      have does' : m.lines[i]?.map CodeLine.operation = some (.data literal entry) := does
      obtain ⟨codeLine, atI, is⟩ := Option.map_eq_some_iff.mp does'
      simpa [atI, is, Operation.labelName] using leads

/-! ### Directives -/

private theorem getLast?_eq_some_iff {l : List Nat} (sorted : l.Pairwise (· < ·)) {a : Nat} :
    l.getLast? = some a ↔ a ∈ l ∧ ∀ b ∈ l, b ≤ a := by
  induction l using List.reverseRecOn with
  | nil => simp
  | append_singleton l c _ =>
    rw [List.pairwise_append] at sorted
    rw [List.getLast?_append, List.getLast?_singleton, Option.some_or, Option.some.injEq]
    constructor
    · rintro rfl
      refine ⟨by simp, fun b member => ?_⟩
      rcases List.mem_append.mp member with early | here
      · exact Nat.le_of_lt (sorted.2.2 b early c (by simp))
      · exact Nat.le_of_eq (by simpa using here)
    · rintro ⟨member, greatest⟩
      have reach := greatest c (by simp)
      rcases List.mem_append.mp member with early | here
      · have := sorted.2.2 a early c (by simp)
        omega
      · exact (by simpa using here : a = c).symm

/-- The executable lines of a range. -/
private theorem mem_covered_iff {start stop l : Nat} :
    l ∈ (List.range m.lines.size).filter (fun i => start ≤ i && i ≤ stop && executable m i) ↔
      (start ≤ l ∧ l ≤ stop) ∧ executable m l = true := by
  simp only [List.mem_filter, List.mem_range, Bool.and_eq_true, decide_eq_true_eq]
  constructor
  · rintro ⟨_, covered⟩
    exact covered
  · intro covered
    exact ⟨lt_size_of_executable covered.2, covered⟩

/-- The last executable line of a range. -/
private theorem getLast?_covered_iff {start stop l : Nat} :
    ((List.range m.lines.size).filter fun i => start ≤ i && i ≤ stop && executable m i).getLast? = some l ↔
      ((start ≤ l ∧ l ≤ stop) ∧ executable m l = true) ∧
        ∀ k, l < k → k ≤ stop → executable m k = false := by
  rw [getLast?_eq_some_iff (List.pairwise_lt_range.filter _), mem_covered_iff]
  refine and_congr_right fun covered => ?_
  constructor
  · intro greatest k above below
    by_contra executed
    have := greatest k (mem_covered_iff.mpr ⟨by omega, by simpa using executed⟩)
    omega
  · intro last k member
    obtain ⟨inside, runs⟩ := mem_covered_iff.mp member
    by_contra above
    have := last k (by omega) inside.2
    simp [runs] at this

/-- What a directive adds: an exception link from each line that it covers, and the bridge from the last of
them to the line behind the directive. -/
private theorem links_of_addCatch {flow flow' : Flow} {line : Nat} {range : CatchRange}
    (does : operationAt? m line = some (.handler range)) (added : addCatch m flow line range = .ok flow') :
    ∃ start stop handler, Directive m line start stop handler ∧ ∀ link, link ∈ flow'.links ↔
      link ∈ flow.links ∨
      (∃ l, ((start ≤ l ∧ l ≤ stop) ∧ executable m l = true) ∧ link = ⟨l, handler, false⟩) ∨
      ∃ l kind, (((start ≤ l ∧ l ≤ stop) ∧ executable m l = true) ∧
        ∀ k, l < k → k ≤ stop → executable m k = false) ∧
        lineKind? m (line + 1) = some kind ∧ kind ≠ .handler ∧ link = ⟨l, line + 1, true⟩ := by
  unfold addCatch at added
  obtain ⟨start, isStart, added⟩ := bind_eq_ok_iff.mp added
  obtain ⟨stop, isStop, added⟩ := bind_eq_ok_iff.mp added
  obtain ⟨handler, isHandler, added⟩ := bind_eq_ok_iff.mp added
  rw [target_eq_ok_iff] at isStart isStop isHandler
  refine ⟨start, stop, handler, ⟨range, does, isStart, isStop, isHandler⟩, fun link => ?_⟩
  split at added
  · simp at added
  · simp only [Except.ok.injEq] at added
    subst added
    simp only [List.mem_append, List.mem_map, mem_covered_iff, or_assoc]
    refine or_congr_right (or_congr ?_ ?_)
    · exact exists_congr fun l => and_congr_right fun _ => eq_comm
    · simp only [← getLast?_covered_iff]
      split
      · next last kind isLast hasKind =>
        by_cases isHandler : kind = .handler
        · simp [isLast, hasKind, isHandler]
        · simp [isLast, hasKind, isHandler]
      · next none =>
        constructor
        · simp
        · rintro ⟨l, kind, isLast, hasKind, _⟩
          exact absurd hasKind (none l kind isLast)

theorem Directive.unique {line start stop handler start' stop' handler' : Nat}
    (one : Directive m line start stop handler) (other : Directive m line start' stop' handler') :
    start' = start ∧ stop' = stop ∧ handler' = handler := by
  obtain ⟨range, does, isStart, isStop, isHandler⟩ := one
  obtain ⟨range', does', isStart', isStop', isHandler'⟩ := other
  rw [does, Option.some.injEq, Operation.handler.injEq] at does'
  subst does'
  exact ⟨(labelAt_iff isStart).mp isStart', (labelAt_iff isStop).mp isStop', (labelAt_iff isHandler).mp isHandler'⟩

/-- A directive adds to the flow what it gives. -/
theorem mem_of_addCatch {flow flow' : Flow} {line : Nat} {range : CatchRange}
    (does : operationAt? m line = some (.handler range)) (added : addCatch m flow line range = .ok flow')
    (link : Link) : link ∈ flow'.links ↔ link ∈ flow.links ∨ Gives m line link := by
  obtain ⟨start, stop, handler, directive, links⟩ := links_of_addCatch does added
  rw [links]
  refine or_congr_right ⟨?_, ?_⟩
  · rintro (⟨l, ⟨inside, runs⟩, rfl⟩ | ⟨l, kind, ⟨⟨inside, runs⟩, last⟩, hasKind, other, rfl⟩)
    · exact .raise runs directive inside
    · refine .bridge directive runs inside last ?_ ?_
      · by_contra beyond
        simp [lineKind?, Array.getElem?_eq_none (Nat.le_of_not_lt beyond)] at hasKind
      · rw [hasKind]
        simpa using other
  · intro given
    cases given with
    | fall does' forks | jump does' jumps =>
      rw [does, Option.some.injEq] at does'
      subst does'
      simp [Operation.kind] at *
    | select does' =>
      rw [does] at does'
      cases does'
    | raise runs directive' inside =>
      obtain ⟨rfl, rfl, rfl⟩ := directive.unique directive'
      exact .inl ⟨_, ⟨inside, runs⟩, rfl⟩
    | bridge directive' runs inside last more ends =>
      obtain ⟨rfl, rfl, rfl⟩ := directive.unique directive'
      obtain ⟨kind, hasKind⟩ : ∃ kind, lineKind? m (line + 1) = some kind := by
        simp [lineKind?, more]
      have other : kind ≠ .handler := by
        rintro rfl
        exact ends hasKind
      exact .inr ⟨_, kind, ⟨⟨inside, runs⟩, last⟩, hasKind, other, rfl⟩

/-! ### The whole body -/

/-- A line that is no directive gives links only by what it does itself. -/
private theorem gives_iff {line : Nat} {op : Operation} (does : operationAt? m line = some op)
    (plain : op.kind ≠ .handler) (link : Link) :
    Gives m line link ↔
      ((op.kind = .branch ∨ op.kind = .switch) ∧ link ∈ fallThrough m line) ∨
        ((op.kind = .branch ∨ op.kind = .goto) ∧
          ∃ t, LabelAt m op.labelName t ∧ link = ⟨line, t, false⟩) ∨
        ∃ value name, op = .switch value name ∧ ∃ t, link = ⟨line, t, false⟩ ∧
          ∃ table entry, LabelAt m name table ∧ ListsLabel m table entry ∧ LabelAt m entry t := by
  constructor
  · rintro (⟨does', forks, more⟩ | ⟨does', jumps, label⟩ | ⟨does', points, lists, label⟩ |
      ⟨_, ⟨range, does', _⟩, _⟩ | ⟨⟨range, does', _⟩, _⟩) <;>
      rw [does, Option.some.injEq] at does' <;> subst does'
    · exact .inl ⟨forks, by simp [fallThrough, more]⟩
    · exact .inr (.inl ⟨jumps, _, label, rfl⟩)
    · exact .inr (.inr ⟨_, _, rfl, _, rfl, _, _, points, lists, label⟩)
    · exact absurd rfl plain
    · exact absurd rfl plain
  · rintro (⟨forks, falls⟩ | ⟨jumps, t, label, rfl⟩ |
      ⟨value, name, rfl, t, rfl, table, entry, points, lists, label⟩)
    · unfold fallThrough at falls
      split at falls
      · next more =>
        obtain rfl := List.mem_singleton.mp falls
        exact .fall does forks more
      · simp at falls
    · exact .jump does jumps label
    · exact .select does points lists label

/-- What a line adds to the flow. -/
theorem mem_of_addLine {flow flow' : Flow} {line : Nat} (added : addLine m flow line = .ok flow')
    (link : Link) : link ∈ flow'.links ↔ link ∈ flow.links ∨ Gives m line link := by
  unfold addLine at added
  cases does : operationAt? m line with
  | none =>
    have does' : m.lines[line]?.map CodeLine.operation = none := does
    simp only [does', Except.ok.injEq] at added
    subst added
    refine ⟨.inl, fun known => known.elim id fun given => ?_⟩
    rcases given with ⟨does', _⟩ | ⟨does', _⟩ | ⟨does', _⟩ | ⟨_, ⟨range, does', _⟩, _⟩ |
      ⟨⟨range, does', _⟩, _⟩ <;> simp [does] at does'
  | some op =>
    have does' : m.lines[line]?.map CodeLine.operation = some op := does
    simp only [does'] at added
    cases op with
    | handler range => exact mem_of_addCatch does added link
    | ifZero value label | ifCompare left right label =>
      obtain ⟨t, leads, added⟩ := bind_eq_ok_iff.mp added
      rw [target_eq_ok_iff] at leads
      simp only [Except.ok.injEq] at added
      subst added
      rw [gives_iff does (by simp [Operation.kind])]
      simp [Operation.kind, Operation.labelName, labelAt_iff leads]
    | goto label =>
      obtain ⟨t, leads, added⟩ := bind_eq_ok_iff.mp added
      rw [target_eq_ok_iff] at leads
      simp only [Except.ok.injEq] at added
      subst added
      rw [gives_iff does (by simp [Operation.kind])]
      simp [Operation.kind, Operation.labelName, labelAt_iff leads]
    | switch value label =>
      obtain ⟨targets, read, added⟩ := bind_eq_ok_iff.mp added
      simp only [Except.ok.injEq] at added
      subst added
      rw [gives_iff does (by simp [Operation.kind])]
      simp [Operation.kind, mem_of_switchTargets read, eq_comm, and_comm]
    | _ =>
      simp only [Except.ok.injEq] at added
      subst added
      rw [gives_iff does (by simp [Operation.kind])]
      simp [Operation.kind]

private theorem foldlM_cons_eq_ok {α β ε : Type} {f : β → α → Except ε β} {a : α} {as : List α}
    {start last : β} : (a :: as).foldlM f start = .ok last ↔
      ∃ next, f start a = .ok next ∧ as.foldlM f next = .ok last := by
  rw [List.foldlM_cons, bind_eq_ok_iff]

/-- The links of a body are those that its lines give. -/
theorem mem_links_iff {flow : Flow} (collected : collectFlow m = .ok flow) (link : Link) :
    link ∈ flow.links ↔ ∃ line, Gives m line link := by
  have upTo : ∀ (lines : List Nat) (start : Flow), lines.foldlM (addLine m) start = .ok flow →
      (link ∈ flow.links ↔ link ∈ start.links ∨ ∃ line ∈ lines, Gives m line link) := by
    intro lines
    induction lines with
    | nil =>
      intro start folded
      simp only [List.foldlM_nil, pure, Except.pure, Except.ok.injEq] at folded
      simp [folded]
    | cons line lines ih =>
      intro start folded
      obtain ⟨next, added, folded⟩ := foldlM_cons_eq_ok.mp folded
      simp [ih next folded, mem_of_addLine added, or_assoc]
  rw [upTo _ {} collected]
  simp only [List.not_mem_nil, false_or]
  refine exists_congr fun line => and_iff_right_of_imp fun given => ?_
  -- A line that gives anything is a line of the body.
  have present : operationAt? m line ≠ none := by
    rcases given with ⟨does, _⟩ | ⟨does, _⟩ | ⟨does, _⟩ | ⟨_, ⟨range, does, _⟩, _⟩ |
      ⟨⟨range, does, _⟩, _⟩ <;> simp [does]
  by_contra outside
  exact present (operationAt?_eq_none (by simpa using outside))

theorem mem_handlers_addHandler {start stop handler : Nat} {type : String} {tries : List TryRange}
    {t : TryRange} {h : Nat} (member : t ∈ addHandler start stop handler type tries)
    (listed : h ∈ t.handlers) :
    (t.start = start ∧ t.stop = stop ∧ h = handler) ∨
      ∃ t' ∈ tries, t'.start = t.start ∧ t'.stop = t.stop ∧ h ∈ t'.handlers := by
  induction tries with
  | nil =>
    simp only [addHandler, List.mem_singleton] at member
    subst member
    exact .inl ⟨rfl, rfl, by simpa using listed⟩
  | cons first rest ih =>
    unfold addHandler at member
    split at member
    · next same =>
      rcases List.mem_cons.mp member with rfl | later
      · rcases List.mem_append.mp listed with old | new
        · exact .inr ⟨first, List.mem_cons_self, rfl, rfl, old⟩
        · exact .inl ⟨same.1, same.2, by simpa using new⟩
      · exact .inr ⟨t, List.mem_cons_of_mem _ later, rfl, rfl, listed⟩
    · rcases List.mem_cons.mp member with rfl | later
      · exact .inr ⟨t, List.mem_cons_self, rfl, rfl, listed⟩
      · rcases ih later with new | ⟨t', member', old⟩
        · exact .inl new
        · exact .inr ⟨t', List.mem_cons_of_mem _ member', old⟩

/-- What a line adds to the try ranges. -/
theorem mem_handlers_of_addLine {flow flow' : Flow} {line : Nat} (added : addLine m flow line = .ok flow')
    {t : TryRange} {h : Nat} (member : t ∈ flow'.tries) (listed : h ∈ t.handlers) :
    Directive m line t.start t.stop h ∨
      ∃ t' ∈ flow.tries, t'.start = t.start ∧ t'.stop = t.stop ∧ h ∈ t'.handlers := by
  have kept : flow'.tries = flow.tries →
      ∃ t' ∈ flow.tries, t'.start = t.start ∧ t'.stop = t.stop ∧ h ∈ t'.handlers :=
    fun same => ⟨t, same ▸ member, rfl, rfl, listed⟩
  unfold addLine at added
  split at added
  case h_5 range does =>
    unfold addCatch at added
    obtain ⟨start, isStart, added⟩ := bind_eq_ok_iff.mp added
    obtain ⟨stop, isStop, added⟩ := bind_eq_ok_iff.mp added
    obtain ⟨handler, isHandler, added⟩ := bind_eq_ok_iff.mp added
    rw [target_eq_ok_iff] at isStart isStop isHandler
    split at added
    · simp at added
    · obtain rfl := Except.ok.inj added
      rcases mem_handlers_addHandler member listed with ⟨rfl, rfl, rfl⟩ | old
      · exact .inl ⟨range, does, isStart, isStop, isHandler⟩
      · exact .inr old
  case h_6 => exact .inr (kept (by rw [Except.ok.inj added]))
  all_goals
    obtain ⟨_, _, added⟩ := bind_eq_ok_iff.mp added
    exact .inr (kept (by rw [← Except.ok.inj added]))

/-- The handlers of a try range are those that directives name for it. -/
theorem exists_directive {flow : Flow} (collected : collectFlow m = .ok flow) {t : TryRange} {h : Nat}
    (member : t ∈ flow.tries) (listed : h ∈ t.handlers) : ∃ c, Directive m c t.start t.stop h := by
  have upTo : ∀ (lines : List Nat) (start : Flow), lines.foldlM (addLine m) start = .ok flow →
      (∀ t ∈ start.tries, ∀ h ∈ t.handlers, ∃ c, Directive m c t.start t.stop h) →
      ∀ t ∈ flow.tries, ∀ h ∈ t.handlers, ∃ c, Directive m c t.start t.stop h := by
    intro lines
    induction lines with
    | nil =>
      intro start folded known
      simp only [List.foldlM_nil, pure, Except.pure, Except.ok.injEq] at folded
      exact folded ▸ known
    | cons line lines ih =>
      intro start folded known
      obtain ⟨next, added, folded⟩ := foldlM_cons_eq_ok.mp folded
      refine ih next folded fun t member h listed => ?_
      rcases mem_handlers_of_addLine added member listed with new | ⟨t', member', start', stop', old⟩
      · exact ⟨line, new⟩
      · exact start' ▸ stop' ▸ known t' member' h old
  exact upTo _ {} collected (by simp) t member h listed

/-! ### Ranges of directives -/

theorem exists_mem_addHandler (start stop handler : Nat) (type : String) (tries : List TryRange) :
    ∃ t ∈ addHandler start stop handler type tries, t.start = start ∧ t.stop = stop := by
  induction tries with
  | nil => exact ⟨_, List.mem_singleton.mpr rfl, rfl, rfl⟩
  | cons first rest ih =>
    unfold addHandler
    split
    · next same => exact ⟨_, List.mem_cons_self, same⟩
    · obtain ⟨t, member, ends⟩ := ih
      exact ⟨t, List.mem_cons_of_mem _ member, ends⟩

theorem mem_addHandler_of_mem {start stop handler : Nat} {type : String} {tries : List TryRange} {t : TryRange}
    (member : t ∈ tries) :
    ∃ t' ∈ addHandler start stop handler type tries, t'.start = t.start ∧ t'.stop = t.stop := by
  induction tries with
  | nil => simp at member
  | cons first rest ih =>
    unfold addHandler
    rcases List.mem_cons.mp member with rfl | later
    · split
      · exact ⟨_, List.mem_cons_self, rfl, rfl⟩
      · exact ⟨t, List.mem_cons_self, rfl, rfl⟩
    · split
      · exact ⟨t, List.mem_cons_of_mem _ later, rfl, rfl⟩
      · obtain ⟨t', member', ends⟩ := ih later
        exact ⟨t', List.mem_cons_of_mem _ member', ends⟩

/-- A line keeps the bounds of every try range, and a directive adds its own. -/
theorem exists_try_of_addLine {flow flow' : Flow} {line : Nat} (added : addLine m flow line = .ok flow')
    {start stop : Nat} (known : (∃ t ∈ flow.tries, t.start = start ∧ t.stop = stop) ∨
      ∃ handler, Directive m line start stop handler) :
    ∃ t ∈ flow'.tries, t.start = start ∧ t.stop = stop := by
  have plain (kept : flow'.tries = flow.tries) (other : ∀ range, operationAt? m line ≠ some (.handler range)) :
      ∃ t ∈ flow'.tries, t.start = start ∧ t.stop = stop := by
    rcases known with old | ⟨_, range, does, -⟩
    · exact kept ▸ old
    · exact absurd does (other range)
  unfold addLine at added
  split at added
  case h_5 range does =>
    unfold addCatch at added
    obtain ⟨start', isStart, added⟩ := bind_eq_ok_iff.mp added
    obtain ⟨stop', isStop, added⟩ := bind_eq_ok_iff.mp added
    obtain ⟨handler', isHandler, added⟩ := bind_eq_ok_iff.mp added
    rw [target_eq_ok_iff] at isStart isStop isHandler
    split at added
    · simp at added
    · obtain rfl := Except.ok.inj added
      rcases known with ⟨t, member, rfl, rfl⟩ | ⟨handler, directive⟩
      · exact mem_addHandler_of_mem member
      · obtain ⟨rfl, rfl, -⟩ := Directive.unique ⟨range, does, isStart, isStop, isHandler⟩ directive
        exact exists_mem_addHandler ..
  case h_6 other => exact plain (by rw [Except.ok.inj added]) other
  all_goals
    rename_i does
    obtain ⟨_, _, added⟩ := bind_eq_ok_iff.mp added
    refine plain (by rw [← Except.ok.inj added]) fun range does' => ?_
    simp [operationAt?, does] at does'

/-- The range of every directive is a try range of the body. -/
theorem exists_try {flow : Flow} (collected : collectFlow m = .ok flow) {c start stop handler : Nat}
    (directive : Directive m c start stop handler) : ∃ t ∈ flow.tries, t.start = start ∧ t.stop = stop := by
  have upTo : ∀ (lines : List Nat) (first : Flow), lines.foldlM (addLine m) first = .ok flow →
      ((∃ t ∈ first.tries, t.start = start ∧ t.stop = stop) ∨ c ∈ lines) →
      ∃ t ∈ flow.tries, t.start = start ∧ t.stop = stop := by
    intro lines
    induction lines with
    | nil =>
      intro first folded known
      simp only [List.foldlM_nil, pure, Except.pure, Except.ok.injEq] at folded
      exact folded ▸ known.resolve_right (List.not_mem_nil)
    | cons line lines ih =>
      intro first folded known
      obtain ⟨next, added, folded⟩ := foldlM_cons_eq_ok.mp folded
      apply ih next folded
      rcases known with old | member
      · exact .inl (exists_try_of_addLine added (.inl old))
      · rcases List.mem_cons.mp member with rfl | later
        · exact .inl (exists_try_of_addLine added (.inr ⟨handler, directive⟩))
        · exact .inr later
  refine upTo _ {} collected (.inr ?_)
  -- a directive is a line of the body
  obtain ⟨range, does, -⟩ := directive
  by_contra outside
  rw [operationAt?_eq_none (by simpa using outside)] at does
  simp at does

end SmaliTrace.BlockGraph
