import SmaliTrace.Proofs.BlockGraph.Edges

/-!
When the blocks of a body cannot be built: exactly if something in the body is executed and some line of it names
labels that do not resolve, or that resolve to the wrong place.
-/
namespace SmaliTrace.BlockGraph
open SmaliTrace.ClassFile SmaliTrace.Smali

/-- Some line of the body defines the label. -/
def Defined (m : Method) (name : String) : Prop := ∃ t, operationAt? m t = some (.label name)

/-- The control flow at a line cannot be resolved: a branch or jump names an undefined label; a switch names an
undefined label, or one with an executable line before the next payload or the end of the body, or its payload lists
an undefined label (an entry without a label lists the empty one); a directive names an undefined label, or a range
that ends before it starts. -/
inductive Unresolvable (m : Method) (line : Nat) : Prop
  | jump {op : Operation} (does : operationAt? m line = some op) (jumps : op.kind = .branch ∨ op.kind = .goto)
      (undefined : ¬ Defined m op.labelName)
  | table {value name : String} (does : operationAt? m line = some (.switch value name))
      (undefined : ¬ Defined m name)
  | code {value name : String} {table k : Nat} (does : operationAt? m line = some (.switch value name))
      (points : LabelAt m name table) (behind : table < k) (runs : executable m k = true)
      (early : ∀ i, table < i → i < k → lineKind? m i ≠ some .dataStart)
  | entry {value name entry : String} {table : Nat} (does : operationAt? m line = some (.switch value name))
      (points : LabelAt m name table) (lists : ListsLabel m table entry) (undefined : ¬ Defined m entry)
  | directive {range : CatchRange} (does : operationAt? m line = some (.handler range))
      (undefined : ¬ Defined m range.start ∨ ¬ Defined m range.stop ∨ ¬ Defined m range.handler)
  | inverted {range : CatchRange} {start stop : Nat} (does : operationAt? m line = some (.handler range))
      (starts : LabelAt m range.start start) (stops : LabelAt m range.stop stop) (inverted : stop < start)

/-! ### Failures -/

/-- The computation ends in an error. -/
def Fails {ε α : Type} (x : Except ε α) : Prop := ∃ e, x = .error e

section

variable {ε α β : Type}

@[simp] theorem fails_error {e : ε} : Fails (.error e : Except ε α) := ⟨e, rfl⟩

@[simp] theorem not_fails_ok {a : α} : ¬ Fails (.ok a : Except ε α) := by simp [Fails]

theorem fails_bind_iff {x : Except ε α} {f : α → Except ε β} :
    Fails (x >>= f) ↔ Fails x ∨ ∃ a, x = .ok a ∧ Fails (f a) := by
  cases x with
  | error e => simp [bind, Except.bind]
  | ok a => simp [bind, Except.bind]

/-- A walk over a list fails exactly if one of its steps does, whatever went before. -/
theorem fails_foldlM_iff {f : β → α → Except ε β} {bad : α → Prop} (step : ∀ b a, Fails (f b a) ↔ bad a)
    {start : β} {as : List α} : Fails (as.foldlM f start) ↔ ∃ a ∈ as, bad a := by
  induction as generalizing start with
  | nil => simp [pure, Except.pure]
  | cons a as ih =>
    rw [List.foldlM_cons, fails_bind_iff, step]
    simp only [ih, List.mem_cons, exists_eq_or_imp]
    constructor
    · rintro (here | ⟨_, _, later⟩)
      · exact .inl here
      · exact .inr later
    · rintro (here | later)
      · exact .inl here
      · cases done : f start a with
        | error e => exact .inl ((step start a).mp ⟨e, done⟩)
        | ok next => exact .inr ⟨next, rfl, later⟩

theorem fails_mapM_iff {f : α → Except ε β} {as : List α} : Fails (as.mapM f) ↔ ∃ a ∈ as, Fails (f a) := by
  induction as with
  | nil => simp [pure, Except.pure]
  | cons a as ih =>
    rw [List.mapM_cons, fails_bind_iff]
    simp only [fails_bind_iff, ih, pure, Except.pure, not_fails_ok, and_false, exists_false, or_false,
      List.mem_cons, exists_eq_or_imp]
    constructor
    · rintro (here | ⟨_, _, later⟩)
      · exact .inl here
      · exact .inr later
    · rintro (here | later)
      · exact .inl here
      · cases done : f a with
        | error e => exact .inl ⟨e, rfl⟩
        | ok b => exact .inr ⟨b, rfl, later⟩

end

/-! ### Lines -/

variable {m : Method}

/-- A defined label has a last definition. -/
theorem defined_iff {name : String} : Defined m name ↔ ∃ t, LabelAt m name t := by
  constructor
  · rintro ⟨t, does⟩
    have bound : t < m.lines.size := by
      by_contra beyond
      simp [operationAt?_eq_none (Nat.le_of_not_lt beyond)] at does
    cases found : labelLine? m name with
    | some i => exact ⟨i, labelLine?_eq_some_iff.mp found⟩
    | none =>
      have other := List.find?_eq_none.mp found t (by simpa using bound)
      exact absurd does (by simpa [operationAt?] using other)
  · rintro ⟨t, does, _⟩
    exact ⟨t, does⟩

theorem fails_target_iff {line : Nat} {name : String} : Fails (target m line name) ↔ ¬ Defined m name := by
  rw [defined_iff]
  simp only [← labelLine?_eq_some_iff, target]
  cases labelLine? m name <;> simp

/-- Something is executed between a line and the next payload. -/
theorem any_takeWhile_iff {table : Nat} :
    ((linesAfter m table).takeWhile fun i => lineKind? m i ≠ some .dataStart).any (executable m) = true ↔
      ∃ k, table < k ∧ executable m k = true ∧ ∀ i, table < i → i < k → lineKind? m i ≠ some .dataStart := by
  simp only [List.any_eq_true, linesAfter_eq, mem_takeWhile_range', decide_eq_true_eq]
  constructor
  · rintro ⟨k, ⟨bounds, code⟩, runs⟩
    exact ⟨k, by omega, runs, fun i behind before => code i behind (by omega)⟩
  · rintro ⟨k, behind, runs, code⟩
    have bound := lt_size_of_executable runs
    refine ⟨k, ⟨by omega, fun i above below => ?_⟩, runs⟩
    by_cases here : i = k
    · rintro start
      simp [executable_eq, ← here, start, Kind.executable] at runs
    · exact code i above (by omega)

/-- What a data line holds. -/
theorem exists_data_of_lineKind? {i : Nat} (isData : lineKind? m i = some .data) :
    ∃ literal name, operationAt? m i = some (.data literal name) := by
  rw [lineKind?_eq] at isData
  cases found : operationAt? m i with
  | none => simp [found] at isData
  | some op =>
    rw [found] at isData
    cases op <;> simp [Operation.kind] at isData
    exact ⟨_, _, rfl⟩

theorem exists_undefined_iff {table : Nat} :
    (∃ i ∈ (((linesAfter m table).dropWhile fun k => lineKind? m k ≠ some .dataStart).drop 1).takeWhile
        (fun k => lineKind? m k = some .data),
      ¬ Defined m ((m.lines[i]?.map fun l => l.operation.labelName).getD "")) ↔
      ∃ entry, ListsLabel m table entry ∧ ¬ Defined m entry := by
  have name {i : Nat} {literal entry : String} (does : operationAt? m i = some (.data literal entry)) :
      (m.lines[i]?.map fun l => l.operation.labelName).getD "" = entry := by
    obtain ⟨codeLine, atI, isData⟩ := Option.map_eq_some_iff.mp does
    simp [atI, isData, Operation.labelName]
  simp only [mem_payload_iff]
  constructor
  · rintro ⟨i, ⟨start, later, isStart, first, behind, data⟩, undefined⟩
    obtain ⟨literal, entry, does⟩ := exists_data_of_lineKind? (data i behind (Nat.le_refl _))
    exact ⟨entry, ⟨start, i, literal, later, isStart, first, behind, data, does⟩, name does ▸ undefined⟩
  · rintro ⟨entry, ⟨start, i, literal, later, isStart, first, behind, data, does⟩, undefined⟩
    exact ⟨i, ⟨start, later, isStart, first, behind, data⟩, (name does).symm ▸ undefined⟩

theorem fails_switchTargets_iff {line : Nat} {name : String} :
    Fails (switchTargets m line name) ↔ ¬ Defined m name ∨ ∃ table, LabelAt m name table ∧
      ((∃ k, table < k ∧ executable m k = true ∧ ∀ i, table < i → i < k → lineKind? m i ≠ some .dataStart) ∨
        ∃ entry, ListsLabel m table entry ∧ ¬ Defined m entry) := by
  rw [switchTargets, fails_bind_iff, fails_target_iff]
  refine or_congr_right (exists_congr fun table => ?_)
  rw [target_eq_ok_iff, List.span_eq_takeWhile_dropWhile]
  refine and_congr_right fun _ => ?_
  dsimp only
  split
  · next busy =>
    have code := any_takeWhile_iff.mp busy
    simp only [fails_error, code, true_or]
  · next quiet =>
    rw [any_takeWhile_iff] at quiet
    simp only [quiet, false_or, fails_mapM_iff, fails_target_iff]
    exact exists_undefined_iff

theorem fails_addCatch_iff {flow : Flow} {line : Nat} {range : CatchRange} :
    Fails (addCatch m flow line range) ↔
      (¬ Defined m range.start ∨ ¬ Defined m range.stop ∨ ¬ Defined m range.handler) ∨
        ∃ start stop, LabelAt m range.start start ∧ LabelAt m range.stop stop ∧ stop < start := by
  simp only [addCatch, fails_bind_iff, fails_target_iff, target_eq_ok_iff]
  constructor
  · rintro (start | ⟨start, starts, stop | ⟨stop, stops, handler | ⟨_, _, last⟩⟩⟩)
    · exact .inl (.inl start)
    · exact .inl (.inr (.inl stop))
    · exact .inl (.inr (.inr handler))
    · split at last
      · next inverted => exact .inr ⟨start, stop, starts, stops, inverted⟩
      · simp at last
  · intro flawed
    by_cases start : Defined m range.start
    · by_cases stop : Defined m range.stop
      · by_cases handler : Defined m range.handler
        · obtain ⟨t, leads⟩ := defined_iff.mp handler
          obtain ⟨first, last, starts, stops, inverted⟩ := flawed.resolve_left (by simp [start, stop, handler])
          refine .inr ⟨first, starts, .inr ⟨last, stops, .inr ⟨t, leads, ?_⟩⟩⟩
          simp [inverted]
        · obtain ⟨first, starts⟩ := defined_iff.mp start
          obtain ⟨last, stops⟩ := defined_iff.mp stop
          exact .inr ⟨first, starts, .inr ⟨last, stops, .inl handler⟩⟩
      · obtain ⟨first, starts⟩ := defined_iff.mp start
        exact .inr ⟨first, starts, .inl stop⟩
    · exact .inl start

/-- The flaws of a line by what it does. -/
theorem unresolvable_iff {line : Nat} {op : Operation} (does : operationAt? m line = some op) :
    Unresolvable m line ↔
      ((op.kind = .branch ∨ op.kind = .goto) ∧ ¬ Defined m op.labelName) ∨
      (∃ value name, op = .switch value name ∧ Fails (switchTargets m line name)) ∨
      ∃ range, op = .handler range ∧ Fails (addCatch m {} line range) := by
  simp only [fails_switchTargets_iff, fails_addCatch_iff]
  constructor
  · rintro (⟨does', jumps, undefined⟩ | ⟨does', undefined⟩ | ⟨does', points, behind, runs, early⟩ |
      ⟨does', points, lists, undefined⟩ | ⟨does', undefined⟩ | ⟨does', starts, stops, inverted⟩) <;>
      rw [does, Option.some.injEq] at does' <;> subst does'
    · exact .inl ⟨jumps, undefined⟩
    · exact .inr (.inl ⟨_, _, rfl, .inl undefined⟩)
    · exact .inr (.inl ⟨_, _, rfl, .inr ⟨_, points, .inl ⟨_, behind, runs, early⟩⟩⟩)
    · exact .inr (.inl ⟨_, _, rfl, .inr ⟨_, points, .inr ⟨_, lists, undefined⟩⟩⟩)
    · exact .inr (.inr ⟨_, rfl, .inl undefined⟩)
    · exact .inr (.inr ⟨_, rfl, .inr ⟨_, _, starts, stops, inverted⟩⟩)
  · rintro (⟨jumps, undefined⟩ |
      ⟨value, name, rfl, undefined | ⟨table, points, ⟨k, behind, runs, early⟩ | ⟨entry, lists, undefined⟩⟩⟩ |
      ⟨range, rfl, undefined | ⟨start, stop, starts, stops, inverted⟩⟩)
    · exact .jump does jumps undefined
    · exact .table does undefined
    · exact .code does points behind runs early
    · exact .entry does points lists undefined
    · exact .directive does undefined
    · exact .inverted does starts stops inverted

/-- Reading a line fails exactly if the line cannot be resolved, whatever was read before. -/
theorem fails_addLine_iff {flow : Flow} {line : Nat} : Fails (addLine m flow line) ↔ Unresolvable m line := by
  cases does : operationAt? m line with
  | none =>
    have read : addLine m flow line = .ok flow := by
      unfold addLine
      rw [show m.lines[line]?.map CodeLine.operation = none from does]
    rw [read]
    refine iff_of_false not_fails_ok fun flawed => ?_
    cases flawed <;> simp_all
  | some op =>
    have does' : m.lines[line]?.map CodeLine.operation = some op := does
    rw [unresolvable_iff does]
    unfold addLine
    simp only [does']
    cases op with
    | handler range => simp [Operation.kind, fails_addCatch_iff]
    | ifZero value label | ifCompare left right label | goto label =>
      simp [Operation.kind, Operation.labelName, fails_bind_iff, fails_target_iff]
    | switch value label => simp [Operation.kind, fails_bind_iff]
    | _ => simp [Operation.kind]

/-- The flow of a body is collected unless some line cannot be resolved. -/
theorem fails_collectFlow_iff : Fails (collectFlow m) ↔ ∃ line, Unresolvable m line := by
  have step : ∀ (flow : Flow) line, Fails (addLine m flow line) ↔ Unresolvable m line := fun _ _ => fails_addLine_iff
  rw [collectFlow, fails_foldlM_iff step]
  refine exists_congr fun line => and_iff_right_of_imp fun flawed => ?_
  have present : operationAt? m line ≠ none := by cases flawed <;> simp [*]
  by_contra outside
  exact present (operationAt?_eq_none (by simpa using outside))

/-- The blocks of a decoded body cannot be built exactly if something is executed and some line cannot be
resolved. -/
theorem fails_ofMethod_iff (decoded : m.fault = none) :
    Fails (ofMethod m) ↔ (∃ l, executable m l = true) ∧ ∃ line, Unresolvable m line := by
  rw [← fails_collectFlow_iff, ← any_executable_iff]
  unfold ofMethod build
  cases live : (List.range m.lines.size).any (executable m) with
  | true => cases collectFlow m <;> simp [decoded, Except.map]
  | false => simp [decoded]

end SmaliTrace.BlockGraph
