import Mathlib.Data.Nat.Find
import SmaliTrace.Proofs.BlockGraph.Edges

/-!
The block graph against the machine. Every step of execution stays inside a block or follows an edge to
the first executable line of a block, and every edge is there for a reason: a step, the bridge of a try
range, or a transfer of control to the lines behind the last executable one, which belong to the last
block.
-/
namespace SmaliTrace.BlockGraph
open SmaliTrace.ClassFile SmaliTrace.Smali

variable {m : Method} {g : Graph} {flow : Flow}

/-! ### Links and transfers -/

theorem endsBlock_eq_false_iff {kind : Kind} :
    kind.endsBlock = false ↔ kind ≠ .ret ∧ kind ≠ .throw ∧ kind ≠ .goto := by
  cases kind <;> simp [Kind.endsBlock]

theorem executable_of_kind {l : Nat} {op : Operation} (does : operationAt? m l = some op)
    (runs : op.kind.executable = true) : executable m l = true := by
  rw [executable_eq, lineKind?_eq, does]
  exact runs

/-- A link that is no bridge is a transfer of control from an executable line of the body. -/
theorem transfer_of_gives {line : Nat} {link : Link} (given : Gives m line link)
    (plain : link.bridge = false) : Transfer m link.src link.dst ∧ executable m link.src = true := by
  cases given with
  | @fall op does forks more =>
    have runs : executable m line = true :=
      executable_of_kind does (by rcases forks with kind | kind <;> rw [kind] <;> rfl)
    refine ⟨.inl (.next runs (by rw [lineKind?_eq, does]; rfl) ?_), runs⟩
    rcases forks with kind | kind <;> simp [kind]
  | @jump op t does jumps label =>
    exact ⟨.inl (.jump does jumps label),
      executable_of_kind does (by rcases jumps with kind | kind <;> rw [kind] <;> rfl)⟩
  | select does points lists label =>
    exact ⟨.inl (.select does points lists label), executable_of_kind does rfl⟩
  | raise runs directive inside => exact ⟨.inr ⟨runs, line, _, _, directive, inside⟩, runs⟩
  | bridge => simp at plain

theorem bridge_of_gives {line : Nat} {link : Link} (given : Gives m line link)
    (bridge : link.bridge = true) : Bridge m link.src link.dst := by
  cases given with
  | bridge directive runs inside last more ends =>
    exact ⟨line, _, _, _, directive, runs, inside.1, inside.2, last, rfl, more, ends⟩
  | _ => simp at bridge

theorem lt_size_of_labelAt {name : String} {t : Nat} (label : LabelAt m name t) : t < m.lines.size := by
  by_contra beyond
  have := label.1
  simp [operationAt?_eq_none (Nat.le_of_not_lt beyond)] at this

theorem dst_lt_of_gives {line : Nat} {link : Link} (given : Gives m line link) :
    link.dst < m.lines.size := by
  cases given with
  | fall _ _ more => exact more
  | jump _ _ label => exact lt_size_of_labelAt label
  | select _ _ _ label => exact lt_size_of_labelAt label
  | raise _ directive =>
    obtain ⟨_, _, _, _, label⟩ := directive
    exact lt_size_of_labelAt label
  | bridge _ _ _ _ more => exact more

theorem src_lt_of_gives {line : Nat} {link : Link} (given : Gives m line link) :
    link.src < m.lines.size := by
  cases bridged : link.bridge with
  | true =>
    obtain ⟨_, _, _, _, _, runs, _⟩ := bridge_of_gives given bridged
    exact lt_size_of_executable runs
  | false => exact lt_size_of_executable (transfer_of_gives given bridged).2

theorem executable_of_transfer {l t : Nat} (transfer : Transfer m l t) : executable m l = true := by
  rcases transfer with flows | raises
  · cases flows with
    | next runs => exact runs
    | jump does jumps => exact executable_of_kind does (by rcases jumps with kind | kind <;> rw [kind] <;> rfl)
    | select does => exact executable_of_kind does rfl
  · exact raises.1

theorem isLeader_of_mem {links : List Link} {link : Link} (member : link ∈ links) :
    isLeader m links link.dst = true := by
  simp only [isLeader, Bool.or_eq_true, List.any_eq_true, decide_eq_true_eq]
  exact .inr ⟨link, member, rfl⟩

/-! ### Where control arrives -/

theorem exists_firstFrom {t : Nat} (some : ∃ k, t ≤ k ∧ executable m k = true) : ∃ l, FirstFrom m t l := by
  classical
  obtain ⟨after, executed⟩ := Nat.find_spec some
  refine ⟨Nat.find some, after, executed, fun k above below => ?_⟩
  by_contra runs
  exact Nat.find_min some below ⟨above, by simpa using runs⟩

namespace HasFlow

variable (has : HasFlow m g flow)
include has

theorem sorted {b : Nat} {block : Block} (found : g.blocks[b]? = some block) :
    block.lines.Pairwise (· < ·) :=
  (pairwise_partition has.live).1 _ (List.mem_of_getElem? (has.part_of_block found))

/-- From a leader, control arrives at the first executable line of its block. -/
theorem find?_of_firstFrom {c t l : Nat} {block : Block} (found : g.blocks[c]? = some block)
    (inside : t ∈ block.lines) (leads : isLeader m flow.links t = true) (first : FirstFrom m t l) :
    block.lines.find? (executable m) = some l := by
  have part := has.part_of_block found
  have quiet : ∀ k ∈ block.lines, k < t → executable m k = false := by
    rcases quiet_before_leader has.live (List.mem_of_getElem? part) inside leads with before | never
    · exact before
    · have := never l first.after
      simp [first.executed] at this
  -- The block has an executable line, which is not before the leader, so it reaches up to `l`.
  obtain ⟨k, member, runs⟩ := exists_executable_of_mem_partition (List.mem_of_getElem? part)
  have above : t ≤ k := by
    by_contra below
    simp [quiet k member (by omega)] at runs
  have beyond : l ≤ k := by
    by_contra below
    simp [first.quiet k above (by omega)] at runs
  have here : l ∈ block.lines := mem_part_of_between has.live part inside member first.after beyond
  refine (find?_executable_iff (has.sorted found)).mpr ⟨here, first.executed, fun j inside' less => ?_⟩
  by_cases early : j < t
  · exact quiet j inside' early
  · exact first.quiet j (by omega) less

/-- A block whose last executable line falls through is followed by the block that has the next
executable line first. -/
theorem find?_next {b l l' : Nat} {block : Block} (found : g.blocks[b]? = some block)
    (inside : l ∈ block.lines) (first : FirstFrom m (l + 1) l') (outside : l' ∉ block.lines) :
    ∃ next : Block, g.blocks[b + 1]? = some next ∧ next.lines.find? (executable m) = some l' ∧
      ∀ k ∈ block.lines, l < k → executable m k = false := by
  have after := first.after
  obtain ⟨c, next, found', inside', _⟩ := has.exists_block (lt_size_of_executable first.executed)
  have later : b < c := by
    rcases Nat.lt_trichotomy b c with less | same | more
    · exact less
    · rw [← same, found] at found'
      cases found'
      exact absurd inside' outside
    · have := lt_of_part_lt has.live (has.part_of_block found') (has.part_of_block found) more inside' inside
      omega
  have quiet : ∀ k ∈ block.lines, l < k → executable m k = false := by
    intro k member above
    have := lt_of_part_lt has.live (has.part_of_block found) (has.part_of_block found') later member inside'
    exact first.quiet k (by omega) this
  -- The block right after has an executable line, which cannot be between `l` and `l'`.
  have follows : c = b + 1 := by
    by_contra apart
    have bound : b + 1 < (partition m flow.links).length := by
      have := (List.getElem?_eq_some_iff.mp (has.part_of_block found')).1
      omega
    have between := List.getElem?_eq_getElem bound
    obtain ⟨k, member, runs⟩ := exists_executable_of_mem_partition (List.mem_of_getElem? between)
    have above := lt_of_part_lt has.live (has.part_of_block found) between (by omega) inside member
    have below := lt_of_part_lt has.live between (has.part_of_block found') (by omega) member inside'
    simp [first.quiet k (by omega) below] at runs
  subst follows
  refine ⟨next, found', ?_, quiet⟩
  refine (find?_executable_iff (has.sorted found')).mpr ⟨inside', first.executed, fun k member less => ?_⟩
  have := lt_of_part_lt has.live (has.part_of_block found) (has.part_of_block found') later inside member
  exact first.quiet k (by omega) less

/-- A line is the last executable one of its block if the next line leads a run. -/
theorem quiet_after {b l : Nat} {block : Block} (found : g.blocks[b]? = some block)
    (inside : l ∈ block.lines) (runs : executable m l = true)
    (leads : l + 1 < m.lines.size → isLeader m flow.links (l + 1) = true) :
    ∀ k ∈ block.lines, l < k → executable m k = false := by
  intro k member above
  have part := has.part_of_block found
  have bound := lt_size_of_mem_part has.live (List.mem_of_getElem? part) member
  have here : l + 1 ∈ block.lines :=
    mem_part_of_between has.live part inside member (by omega) (by omega)
  rcases quiet_before_leader has.live (List.mem_of_getElem? part) here (leads (by omega)) with before | never
  · have := before l inside (by omega)
    simp [runs] at this
  · exact never k (by omega)

/-- A transfer to a line of the body is an edge of the graph, or leads to the next line. -/
theorem mem_succs_of_gives {line b c : Nat} {link : Link} {block next : Block} (given : Gives m line link)
    (plain : link.bridge = false) (found : g.blocks[b]? = some block) (source : link.src ∈ block.lines)
    (found' : g.blocks[c]? = some next) (target : link.dst ∈ next.lines) : c ∈ block.succs := by
  rw [has.mem_succs_iff found, mem_edges_iff]
  refine .inl ⟨link, (mem_links_iff has.collected link).mpr ⟨line, given⟩, ?_, ?_, by simp [plain]⟩
  · exact partOf_eq has.live (has.part_of_block found) source
  · exact partOf_eq has.live (has.part_of_block found') target

/-- Control that flows on stays inside the block, or leaves it from the last executable line along an edge
to the first executable line of a block. -/
theorem flow_cases {l t l' : Nat} (flows : Flows m l t) (first : FirstFrom m t l') :
    ∃ (b : Nat) (block : Block), g.blocks[b]? = some block ∧ l ∈ block.lines ∧
      ((l' ∈ block.lines ∧ FirstFrom m (l + 1) l') ∨
        ((∀ k ∈ block.lines, l < k → executable m k = false) ∧
          ∃ (c : Nat) (next : Block), g.blocks[c]? = some next ∧ c ∈ block.succs ∧
            next.lines.find? (executable m) = some l')) := by
  have runs := executable_of_transfer (.inl flows)
  obtain ⟨b, block, found, inside, _⟩ := has.exists_block (lt_size_of_executable runs)
  refine ⟨b, block, found, inside, ?_⟩
  -- A line that jumps is followed by a leader, so it is the last executable one of its block.
  have jumps {line : Nat} (given : Gives m line ⟨l, t, false⟩)
      (leads : l + 1 < m.lines.size → isLeader m flow.links (l + 1) = true) :
      (∀ k ∈ block.lines, l < k → executable m k = false) ∧
        ∃ (c : Nat) (next : Block), g.blocks[c]? = some next ∧ c ∈ block.succs ∧
          next.lines.find? (executable m) = some l' := by
    obtain ⟨c, next, found', inside', _⟩ := has.exists_block (dst_lt_of_gives given)
    have member := (mem_links_iff has.collected _).mpr ⟨line, given⟩
    exact ⟨has.quiet_after found inside runs leads, c, next, found',
      has.mem_succs_of_gives given rfl found inside found' inside',
      has.find?_of_firstFrom found' inside' (isLeader_of_mem member) first⟩
  have falls {op : Operation} (does : operationAt? m l = some op)
      (forks : op.kind = .branch ∨ op.kind = .switch) (more : l + 1 < m.lines.size) :
      isLeader m flow.links (l + 1) = true := by
    have member : ⟨l, l + 1, false⟩ ∈ flow.links :=
      (mem_links_iff has.collected _).mpr ⟨l, .fall does forks more⟩
    exact isLeader_of_mem member
  cases flows with
  | @next kind _ hasKind falls =>
    by_cases stays : l' ∈ block.lines
    · exact .inl ⟨stays, first⟩
    · obtain ⟨next, found', arrives, quiet⟩ := has.find?_next found inside first stays
      refine .inr ⟨quiet, b + 1, next, found', ?_, arrives⟩
      rw [has.mem_succs_iff found, mem_edges_iff]
      have last := (lastExecutable?_eq_some_iff (has.sorted found)).mpr ⟨inside, runs, quiet⟩
      refine .inr ⟨rfl, ?_, block.lines, l, kind, has.part_of_block found, last, hasKind,
        endsBlock_eq_false_iff.mpr falls⟩
      exact (List.getElem?_eq_some_iff.mp (has.part_of_block found')).1
  | jump does jump label =>
    refine .inr (jumps (.jump does jump label) fun more => ?_)
    rcases jump with branch | goto
    · exact falls does (.inl branch) more
    · have hasKind : lineKind? m l = some .goto := by rw [lineKind?_eq, does, ← goto]; rfl
      simp [isLeader, hasKind]
  | select does points lists label =>
    exact .inr (jumps (.select does points lists label) (falls does (.inr rfl)))

/-- An exception follows an edge to the block of the handler. -/
theorem mem_succs_of_raises {l t b c : Nat} {block next : Block} (raises : Raises m l t)
    (found : g.blocks[b]? = some block) (inside : l ∈ block.lines) (found' : g.blocks[c]? = some next)
    (inside' : t ∈ next.lines) : c ∈ block.succs := by
  obtain ⟨runs, line, start, stop, directive, range⟩ := raises
  have given : Gives m line ⟨l, t, false⟩ := .raise runs directive range
  exact has.mem_succs_of_gives given rfl found inside found' inside'

/-- After an exception control arrives at the first executable line of a block. -/
theorem raise_cases {l t l' : Nat} (raises : Raises m l t) (first : FirstFrom m t l') :
    ∃ (b : Nat) (block : Block), g.blocks[b]? = some block ∧ l ∈ block.lines ∧
      ∃ (c : Nat) (next : Block), g.blocks[c]? = some next ∧ c ∈ block.succs ∧
        next.lines.find? (executable m) = some l' := by
  obtain ⟨b, block, found, inside, _⟩ := has.exists_block (lt_size_of_executable raises.1)
  obtain ⟨runs, line, start, stop, directive, range⟩ := raises
  have given : Gives m line ⟨l, t, false⟩ := .raise runs directive range
  have member := (mem_links_iff has.collected _).mpr ⟨line, given⟩
  obtain ⟨c, next, found', inside', _⟩ := has.exists_block (dst_lt_of_gives given)
  exact ⟨b, block, found, inside, c, next, found',
    has.mem_succs_of_gives given rfl found inside found' inside',
    has.find?_of_firstFrom found' inside' (isLeader_of_mem member) first⟩

/-- A step stays inside its block or follows an edge to the first executable line of a block. -/
theorem step_cases {l l' : Nat} (step : Step m l l') :
    ∃ (b : Nat) (block : Block), g.blocks[b]? = some block ∧ l ∈ block.lines ∧
      ((l' ∈ block.lines ∧ FirstFrom m (l + 1) l') ∨
        ∃ (c : Nat) (next : Block), g.blocks[c]? = some next ∧ c ∈ block.succs ∧
          next.lines.find? (executable m) = some l') := by
  obtain ⟨t, flows | raises, first⟩ := step
  · obtain ⟨b, block, found, inside, stays | ⟨_, leaves⟩⟩ := has.flow_cases flows first
    · exact ⟨b, block, found, inside, .inl stays⟩
    · exact ⟨b, block, found, inside, .inr leaves⟩
  · obtain ⟨b, block, found, inside, leaves⟩ := has.raise_cases raises first
    exact ⟨b, block, found, inside, .inr leaves⟩

/-- The ends of an edge are blocks. -/
theorem lt_size_of_mem_edges {b c : Nat} (edge : (b, c) ∈ edges m (partition m flow.links) flow.links) :
    b < g.blocks.size ∧ c < g.blocks.size := by
  rcases mem_edges_iff.mp edge with ⟨link, member, rfl, rfl, _⟩ | ⟨rfl, bound, _⟩
  · obtain ⟨line, given⟩ := (mem_links_iff has.collected link).mp member
    obtain ⟨_, _, found, _, rfl⟩ := has.exists_block (src_lt_of_gives given)
    obtain ⟨_, _, found', _, rfl⟩ := has.exists_block (dst_lt_of_gives given)
    exact ⟨(Array.getElem?_eq_some_iff.mp found).1, (Array.getElem?_eq_some_iff.mp found').1⟩
  · rw [has.size_blocks]
    omega

/-- Every edge has a reason. -/
theorem edge_cases {b c : Nat} {block : Block} (found : g.blocks[b]? = some block) (edge : c ∈ block.succs) :
    ∃ next : Block, g.blocks[c]? = some next ∧
      ((∃ l ∈ block.lines, ∃ l', Step m l l' ∧ next.lines.find? (executable m) = some l') ∨
        (∃ l ∈ block.lines, ∃ t ∈ next.lines, Bridge m l t) ∨
        (c + 1 = g.blocks.size ∧ ∃ l ∈ block.lines, ∃ t ∈ next.lines, Transfer m l t ∧
          ∀ k, t ≤ k → executable m k = false)) := by
  rw [has.mem_succs_iff found, mem_edges_iff] at edge
  rcases edge with ⟨link, member, source, target, _⟩ | ⟨rfl, bound, part, l, kind, atB, last, hasKind, falls⟩
  · obtain ⟨line, given⟩ := (mem_links_iff has.collected link).mp member
    obtain ⟨c', next, found', inside', rfl⟩ := has.exists_block (dst_lt_of_gives given)
    rw [target] at found'
    refine ⟨next, found', ?_⟩
    obtain ⟨b', block', foundB, inside, rfl⟩ := has.exists_block (src_lt_of_gives given)
    rw [source, found] at foundB
    cases foundB
    cases bridged : link.bridge with
    | true => exact .inr (.inl ⟨link.src, inside, link.dst, inside', bridge_of_gives given bridged⟩)
    | false =>
      obtain ⟨transfer, runs⟩ := transfer_of_gives given bridged
      by_cases some : ∃ k, link.dst ≤ k ∧ executable m k = true
      · obtain ⟨l', first⟩ := exists_firstFrom some
        exact .inl ⟨link.src, inside, l', ⟨link.dst, transfer, first⟩,
          has.find?_of_firstFrom found' inside' (isLeader_of_mem member) first⟩
      · have never : ∀ k, link.dst ≤ k → executable m k = false := by
          intro k above
          by_contra runs
          exact some ⟨k, above, by simpa using runs⟩
        refine .inr (.inr ⟨?_, link.src, inside, link.dst, inside', transfer, never⟩)
        -- A later block would have an executable line behind the target.
        by_contra other
        have bound := (Array.getElem?_eq_some_iff.mp found').1
        have later : c + 1 < (partition m flow.links).length := by
          rw [has.size_blocks] at bound other
          omega
        have behind := List.getElem?_eq_getElem later
        obtain ⟨k, member', runs⟩ := exists_executable_of_mem_partition (List.mem_of_getElem? behind)
        have := lt_of_part_lt has.live (has.part_of_block found') behind (by omega) inside' member'
        simp [never k (by omega)] at runs
  · obtain ⟨next, found', same⟩ := has.block_of_part (List.getElem?_eq_getElem bound)
    rw [has.part_of_block found] at atB
    cases atB
    obtain ⟨inside, runs, quiet⟩ := (lastExecutable?_eq_some_iff (has.sorted found)).mp last
    obtain ⟨k, member, executed⟩ :=
      exists_executable_of_mem_partition (List.mem_of_getElem? (has.part_of_block found'))
    have above := lt_of_part_lt has.live (has.part_of_block found) (has.part_of_block found') (by omega)
      inside member
    obtain ⟨l', first⟩ := exists_firstFrom (t := l + 1) ⟨k, above, executed⟩
    have outside : l' ∉ block.lines := by
      intro stays
      have := first.after
      have := quiet l' stays (by omega)
      simp [first.executed] at this
    obtain ⟨next', found'', arrives, _⟩ := has.find?_next found inside first outside
    rw [found'] at found''
    cases found''
    exact ⟨next, found', .inl ⟨l, inside, l',
      ⟨l + 1, .inl (.next runs hasKind (endsBlock_eq_false_iff.mp falls)), first⟩, arrives⟩⟩

end HasFlow

/-! ### The simulation -/

/-- The block graph simulates execution: a step goes to the next executable line of its own block, or
along an edge to the first executable line of a block; and an edge comes from a step to the first
executable line of its target, is the bridge of a try range, or leads to the last block, to a place there
that no executable line follows. -/
structure Simulates (m : Method) (g : Graph) : Prop where
  sound : ∀ l l', Step m l l' → ∃ (b i : Nat) (block : Block),
    g.locate? l = some (b, i) ∧ g.blocks[b]? = some block ∧
    ((l' ∈ block.lines ∧ FirstFrom m (l + 1) l') ∨
      ∃ (c j : Nat) (next : Block), g.locate? l' = some (c, j) ∧ g.blocks[c]? = some next ∧ c ∈ block.succs ∧
        next.lines.find? (executable m) = some l')
  precise : ∀ (b c : Nat) (block : Block), g.blocks[b]? = some block → c ∈ block.succs →
    ∃ next : Block, g.blocks[c]? = some next ∧
      ((∃ l ∈ block.lines, ∃ l', Step m l l' ∧ next.lines.find? (executable m) = some l') ∨
        (∃ l ∈ block.lines, ∃ t ∈ next.lines, Bridge m l t) ∨
        (c + 1 = g.blocks.size ∧ ∃ l ∈ block.lines, ∃ t ∈ next.lines, Transfer m l t ∧
          ∀ k, t ≤ k → executable m k = false))

theorem simulates_of_built (built : ofMethod m = .ok g) (live : ∃ l, executable m l = true) :
    Simulates m g := by
  obtain ⟨flow, has⟩ := exists_hasFlow built live
  refine ⟨fun l l' step => ?_, fun b c block found edge => has.edge_cases found edge⟩
  obtain ⟨b, block, found, inside, stays | ⟨c, next, found', edge, arrives⟩⟩ := has.step_cases step
  · exact ⟨b, _, block, has.locate?_eq found inside, found, .inl stays⟩
  · have inside' := ((find?_executable_iff (has.sorted found')).mp arrives).1
    exact ⟨b, _, block, has.locate?_eq found inside, found,
      .inr ⟨c, _, next, has.locate?_eq found' inside', found', edge, arrives⟩⟩

/-- A body with a branch out of a try range, and a jump to a label that stands behind its last executable line. -/
def guardedBranch : Method where
  owner := "LMain;"
  name := "run"
  params := ["I"]
  result := "V"
  flags := [.static]
  lines := #[
    ⟨1, "", .label "start", ""⟩,
    ⟨2, "if-eqz", .ifZero "p0" "skip", ""⟩,
    ⟨3, "invoke-static", .invoke [] ⟨"LKey;", "get", [], "V"⟩, ""⟩,
    ⟨4, "", .label "stop", ""⟩,
    ⟨5, ".catchall", .handler ⟨"", "start", "stop", "handler"⟩, ""⟩,
    ⟨6, "", .label "skip", ""⟩,
    ⟨7, "goto", .goto "end", ""⟩,
    ⟨8, "", .label "handler", ""⟩,
    ⟨9, "return-void", .returnVoid, ""⟩,
    ⟨10, "", .label "end", ""⟩]

/-- The graph of that body: the branch and the call, which are both in the try range, the jump, and the handler with
the label behind its return. -/
def guardedBranchGraph : Graph where
  blocks := #[
    { lines := [0, 1], label := some 0, preds := [], succs := [1, 2, 3], returns := false, throws := false,
      jumps := false, dead := false, isTry := true, isHandler := false },
    { lines := [2, 3, 4], label := some 1, preds := [0], succs := [3, 2], returns := false, throws := false,
      jumps := false, dead := false, isTry := true, isHandler := false },
    { lines := [5, 6], label := some 3, preds := [0, 1], succs := [3], returns := false, throws := false,
      jumps := true, dead := false, isTry := false, isHandler := false },
    { lines := [7, 8, 9], label := some 2, preds := [0, 1, 2], succs := [], returns := true, throws := false,
      jumps := false, dead := false, isTry := false, isHandler := true }]
  tries := [{ start := 0, stop := 3, handlers := [7], types := ["*"] }]

theorem ofMethod_guardedBranch : ofMethod guardedBranch = .ok guardedBranchGraph := by cbv

theorem directive_guardedBranch : Directive guardedBranch 4 0 3 7 :=
  ⟨⟨"", "start", "stop", "handler"⟩, by decide, by decide, by decide, by decide⟩

/-- The branch, the fall into the call, and both lines of the try range to the handler are steps, and the call has
the bridge behind the directive; so the graph has the edges of the branch. -/
theorem simulates_guardedBranch :
    ofMethod guardedBranch = .ok guardedBranchGraph ∧ (∃ l, executable guardedBranch l = true) ∧
      Step guardedBranch 1 2 ∧ Step guardedBranch 1 6 ∧ Step guardedBranch 1 8 ∧ Step guardedBranch 2 8 ∧
      Bridge guardedBranch 2 5 ∧ Simulates guardedBranch guardedBranchGraph := by
  have falls : Flows guardedBranch 1 2 := .next (by decide) rfl (by decide)
  have jumps : Flows guardedBranch 1 5 := .jump rfl (.inl rfl) (by decide)
  have raises (l : Nat) (runs : executable guardedBranch l = true) (bound : l ≤ 3) : Step guardedBranch l 8 :=
    ⟨7, .inr ⟨runs, 4, 0, 3, directive_guardedBranch, l.zero_le, bound⟩, by decide⟩
  have quiet : ∀ k, 2 < k → k ≤ 3 → executable guardedBranch k = false := by
    intro k after bound
    obtain rfl : k = 3 := by omega
    rfl
  have bridge : Bridge guardedBranch 2 5 :=
    ⟨4, 0, 3, 7, directive_guardedBranch, by decide, by decide, by decide, quiet, rfl, by decide, by decide⟩
  have live : ∃ l, executable guardedBranch l = true := ⟨1, by decide⟩
  exact ⟨ofMethod_guardedBranch, live, ⟨2, .inl falls, by decide⟩, ⟨5, .inl jumps, by decide⟩,
    raises 1 (by decide) (by decide), raises 2 (by decide) (by decide), bridge,
    simulates_of_built ofMethod_guardedBranch live⟩

/-- A body with a jump to a label that stands behind its last executable line. -/
def jumpBehindReturn : Method where
  owner := "LMain;"
  name := "run"
  params := []
  result := "V"
  flags := [.static]
  lines := #[⟨1, "goto", .goto "end", ""⟩, ⟨2, "return-void", .returnVoid, ""⟩, ⟨3, "", .label "end", ""⟩]

/-- The graph of that body: the jump is a block, and the label belongs to the block of the return. -/
def jumpBehindReturnGraph : Graph where
  blocks := #[
    { lines := [0], label := some 0, preds := [], succs := [1], returns := false, throws := false,
      jumps := true, dead := false, isTry := false, isHandler := false },
    { lines := [1, 2], label := some 1, preds := [0], succs := [], returns := true, throws := false,
      jumps := false, dead := false, isTry := false, isHandler := false }]

theorem ofMethod_jumpBehindReturn : ofMethod jumpBehindReturn = .ok jumpBehindReturnGraph := by cbv

theorem executable_jumpBehindReturn : ∃ l, executable jumpBehindReturn l = true := ⟨1, by cbv⟩

private theorem operationAt?_jumpBehindReturn {l : Nat} {op : Operation}
    (does : operationAt? jumpBehindReturn l = some op) :
    (l = 0 ∧ op = .goto "end") ∨ (l = 1 ∧ op = .returnVoid) ∨ (l = 2 ∧ op = .label "end") := by
  rcases l with _ | _ | _ | l
  · exact .inl ⟨rfl, (Option.some.inj does).symm⟩
  · exact .inr (.inl ⟨rfl, (Option.some.inj does).symm⟩)
  · exact .inr (.inr ⟨rfl, (Option.some.inj does).symm⟩)
  · rw [operationAt?_eq_none (show 3 ≤ l + 3 by omega)] at does
    simp at does

/-- The edge to the block of the return is neither a step nor a bridge: nothing is executable behind the
label, and the body has no try range. -/
theorem edge_without_step :
    ofMethod jumpBehindReturn = .ok jumpBehindReturnGraph ∧
      (∃ l, executable jumpBehindReturn l = true) ∧
      ∃ block next : Block, jumpBehindReturnGraph.blocks[0]? = some block ∧
        jumpBehindReturnGraph.blocks[1]? = some next ∧ 1 ∈ block.succs ∧
        (∀ l ∈ block.lines, ∀ l', ¬ Step jumpBehindReturn l l') ∧
        ∀ l ∈ block.lines, ∀ t ∈ next.lines, ¬ Bridge jumpBehindReturn l t := by
  have noHandler : ∀ c range, operationAt? jumpBehindReturn c ≠ some (.handler range) := by
    intro c range does
    have := operationAt?_jumpBehindReturn does
    simp at this
  have labelled : ∀ t name, LabelAt jumpBehindReturn name t → t = 2 := by
    intro t name label
    have := operationAt?_jumpBehindReturn label.1
    simp at this
    exact this.1
  refine ⟨ofMethod_jumpBehindReturn, executable_jumpBehindReturn, _, _, rfl, rfl, by decide, ?_, ?_⟩
  · rintro l inside l' ⟨t, flows | ⟨_, c, _, _, ⟨range, does, _⟩, _⟩, first⟩
    · obtain rfl : l = 0 := List.mem_singleton.mp inside
      have behind : t = 2 := by
        cases flows with
        | next _ has falls => exact absurd (Option.some.inj has).symm falls.2.2
        | jump _ _ label => exact labelled _ _ label
        | select _ _ _ label => exact labelled _ _ label
      have after := first.after
      have runs := first.executed
      have bound : l' < 3 := lt_size_of_executable runs
      obtain rfl : l' = 2 := by omega
      exact absurd runs (by decide)
    · exact noHandler c range does
  · rintro l _ t _ ⟨c, _, _, _, ⟨range, does, _⟩, _⟩
    exact noHandler c range does

end SmaliTrace.BlockGraph
