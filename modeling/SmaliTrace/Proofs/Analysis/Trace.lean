import SmaliTrace.Analysis.Basic
import SmaliTrace.Proofs.Program.Hierarchy
import SmaliTrace.Proofs.Slice.Connection

/-!
Findings lead to their seeds. An analysis that ends evaluates its rules on the index of a program, and ends if its
class files are read. The slice of a search is connected to its seed, so that a shortest path from a constant to the
seed exists; the trace of a finding is one.
-/
namespace SmaliTrace.Slice

variable {σ : State} {seed : LineId} {k : Constant}

/-- The trace of a constant leads from its line to the seed, and no path of lines does so with fewer. -/
theorem walk_trace {r : SearchResult} (connected : Connected seed σ) (graph : r.graph = σ.work.graph)
    (kept : k ∈ σ.constants) :
    Graph.Walk r.graph.Joins k.line seed (Analysis.trace r k) ∧
      ∀ other, Graph.Walk r.graph.Joins k.line seed other → (Analysis.trace r k).length ≤ other.length := by
  obtain ⟨n, found, isNode⟩ := connected.lookup?_constant kept
  have start := connected.lookup?_seed
  rw [← graph] at found start
  have distinct : r.graph.lines.Nodup := graph ▸ connected.distinct
  have atN := (SliceGraph.lookup?_eq_some_iff distinct).mp found
  have atStart := (SliceGraph.lookup?_eq_some_iff distinct).mp start
  have live : n < r.graph.nodes.size := by
    rw [← SliceGraph.length_lines]
    exact (List.getElem?_eq_some_iff.mp atN).1
  have reach : Relation.ReflTransGen (Graph.Enters r.graph.next r.graph.ids) n 0 := by
    have path := connected.path n (graph ▸ ⟨by omega, by omega⟩)
    rw [graph]
    exact SliceGraph.reach_of_path connected.size_pos path
  obtain ⟨shortest, isShortest, walk, fewest⟩ := Graph.shortestPath?_of_reach r.graph.nodup_ids
    (List.mem_range.mpr live) reach
  have traced : Analysis.trace r k = shortest.filterMap fun i => r.graph.lines[i]? := by
    simp only [Analysis.trace, SliceGraph.shortestPath?, isNode, Int.toNat_natCast, isShortest, Option.getD_some,
      SliceGraph.getElem?_lines]
  obtain ⟨walk', length⟩ := SliceGraph.walk_lines distinct atN atStart walk
  rw [traced]
  refine ⟨walk', fun other isWalk => ?_⟩
  obtain ⟨path, isPath, length'⟩ := SliceGraph.exists_walk_of_lines found start isWalk
  rw [length, ← length']
  exact fewest path isPath

end SmaliTrace.Slice

namespace SmaliTrace.Analysis
open SmaliTrace.Slice

/-! ### Analyses -/

section Run

variable {ε β γ : Type}

/-- Whatever the computation gives has the property. -/
def Yields (x : Logged ε β) (P : β → Prop) : Prop := ∀ log b, (x.run log).1 = .ok b → P b

theorem Yields.bind {x : Logged ε β} {f : β → Logged ε γ} {P : γ → Prop} {Q : β → Prop} (first : Yields x Q)
    (rest : ∀ b, Q b → Yields (f b) P) : Yields (x >>= f) P := by
  intro log c ran
  have unfolded : (x >>= f).run log = ExceptT.bindCont f (x.run log).1 (x.run log).2 := rfl
  rw [unfolded] at ran
  rcases same : (x.run log).1 with e | b
  · rw [same] at ran
    cases ran
  · rw [same] at ran
    exact rest b (first log b same) _ c ran

theorem Yields.then {x : Logged ε β} {f : β → Logged ε γ} {P : γ → Prop} (rest : ∀ b, Yields (f b) P) :
    Yields (x >>= f) P :=
  .bind (Q := fun _ => True) (fun _ _ _ => trivial) fun b _ => rest b

theorem Yields.pure {b : β} {P : β → Prop} (holds : P b) : Yields (pure b : Logged ε β) P := by
  intro log c ran
  cases ran
  exact holds

/-- The computation gives the value, whatever was logged before. -/
def Succeeds (x : Logged ε β) (b : β) : Prop := ∀ log, ∃ log', x.run log = (.ok b, log')

theorem Succeeds.bind {x : Logged ε β} {f : β → Logged ε γ} {b : β} {c : γ} (first : Succeeds x b)
    (rest : Succeeds (f b) c) : Succeeds (x >>= f) c := by
  intro log
  obtain ⟨log', ran⟩ := first log
  obtain ⟨log'', ended⟩ := rest log'
  have unfolded : (x >>= f).run log = ExceptT.bindCont f (x.run log).1 (x.run log).2 := rfl
  rw [ran] at unfolded
  exact ⟨log'', unfolded.trans ended⟩

theorem Succeeds.pure (b : β) : Succeeds (pure b : Logged ε β) b := fun log => ⟨log, rfl⟩

theorem Succeeds.sayAll (entries : List LogEntry) : Succeeds (Logged.sayAll entries : Logged ε Unit) () := fun _ => ⟨_, rfl⟩

theorem Succeeds.forM {f : β → Logged ε Unit} (quiet : ∀ b, Succeeds (f b) ()) (items : List β) :
    Succeeds (items.forM f) () := by
  induction items with
  | nil => exact .pure ()
  | cons b items ih => exact (quiet b).bind ih

theorem Succeeds.outcome {x : Logged ε β} {b : β} (succeeds : Succeeds x b) : x.outcome.1 = .ok b := by
  obtain ⟨log, ran⟩ := succeeds []
  exact congrArg Prod.fst ran

end Run

theorem config_of_check {config : Config} {checked : Config.Checked} (checks : config.check = .ok checked) :
    checked.config = config := by
  simp only [Config.check, bind, Except.bind] at checks
  split at checks
  · cases checks
  split at checks
  · cases checks
  split at checks
  · cases checks
  cases checks
  rfl

/-- What the rules of a configuration give on a program. -/
def conclusion (program : Program) (c : Config.Checked) : Result where
  index := (Index.ofProgram program c.config.excluded).index
  rules := evaluate (Index.ofProgram program c.config.excluded).index c
  tally := (evaluate (Index.ofProgram program c.config.excluded).index c).foldl (fun t r => t.plus r.criterion.tally)
    (Index.ofProgram program c.config.excluded).tally

/-- An analysis that ends gives what the rules of its configuration give on a program. -/
theorem yields_run {α : Type} (t : FileTree α) (text : α → String) (paths : List String) (config : Config)
    (canceled listing : Bool) :
    Yields (run t text paths config canceled listing) fun result => ∃ program checked,
      checked.config = config ∧ result = conclusion program checked := by
  unfold run
  cases checks : config.check with
  | error reason =>
    intro log b ran
    cases ran
  | ok checked =>
    obtain rfl := config_of_check checks
    refine .bind (Q := fun checked' => checked' = checked) (.pure rfl) ?_
    rintro checked rfl
    refine .then fun files => .then fun _ => .then fun _ => ?_
    extract_lets evaluated
    have tail (program : Program) : Yields (evaluated program) fun result => ∃ program' checked',
        checked'.config = checked.config ∧ result = conclusion program' checked' := by
      refine .then fun _ => .then fun _ => .then fun _ => ?_
      dsimp only
      split
      · exact .then fun _ => .pure ⟨program, checked, rfl, rfl⟩
      · exact .pure ⟨program, checked, rfl, rfl⟩
    split
    · exact .then tail
    · exact .then tail

/-- An analysis ends with a result if its configuration is in order and its class files are read. -/
theorem outcome_run {α : Type} {t : FileTree α} {text : α → String} {paths files : List String} {config : Config}
    {checked : Config.Checked} {program : Program} {canceled : Bool} (listing : Bool)
    (checks : config.check = .ok checked) (listed : classFiles t paths = .ok files)
    (loads : (Program.loadFiles t text canceled files).outcome.1 = .ok program) :
    (run t text paths config canceled listing).outcome.1 = .ok (conclusion program checked) := by
  have reports (r : RuleResult) : Succeeds (report program r) () :=
    (Succeeds.sayAll _).bind ((Succeeds.sayAll _).bind (.sayAll _))
  obtain rfl := config_of_check checks
  refine Succeeds.outcome ?_
  unfold run
  simp only [checks, listed]
  refine (Succeeds.pure checked).bind ((Succeeds.pure files).bind ((Succeeds.sayAll _).bind
    ((Succeeds.sayAll _).bind ?_)))
  rw [loads]
  refine (Succeeds.pure program).bind ((Succeeds.sayAll _).bind ((Succeeds.forM reports _).bind
    ((Succeeds.sayAll _).bind ?_)))
  cases listing with
  | true => exact (Succeeds.sayAll _).bind (.pure _)
  | false => exact .pure _

/-- One class file that is read makes up a program. -/
theorem loadFiles_singleton {α : Type} {t : FileTree α} {text : α → String} {path : String} {place : List String}
    {content : α} {c : ClassFile.ClassDecl} (found : t.find "open" path = .ok (place, .file content))
    (parsed : ClassFile.parse path (text content) = .ok c) :
    (Program.loadFiles t text false [path]).outcome.1 = .ok ⟨#[c]⟩ := by
  have loaded : Program.loadClass t text path = .ok c := by simp only [Program.loadClass, found, parsed]
  have reads : [path].mapM (Program.loadClass t text) = .ok [c] := by simp [loaded]
  rw [Program.loadFiles, reads, ← Program.ofClasses_singleton]
  rfl

/-! ### A string that is copied -/

/-- A body that copies a string and passes the copy on. -/
def copyKey : ClassFile.Method where
  owner := "LMain;"
  name := "run"
  params := []
  result := "V"
  flags := [.static]
  lines := #[
    ⟨3, "const-string", .constLiteral "v0" "\"DES\"", "const-string v0, \"DES\""⟩,
    ⟨4, "move-object", .move "v1" "v0", "move-object v1, v0"⟩,
    ⟨5, "invoke-static", .invoke ["v1"] ⟨"LSink;", "take", ["LText;"], "V"⟩,
      "invoke-static \x7bv1\x7d, LSink;->take(LText;)V"⟩,
    ⟨6, "return-void", .returnVoid, "return-void"⟩]

/-- The class file with that body. -/
def copyKeyText : String :=
  ".class LMain;\n.method static run()V\nconst-string v0, \"DES\"\nmove-object v1, v0\n" ++
    "invoke-static \x7bv1\x7d, LSink;->take(LText;)V\nreturn-void\n.end method\n"

/-- The directory that holds the class file only. -/
def copyKeyTree : FileTree String := { files := [(["Main.smali"], copyKeyText)] }

/-- A rule that reports every literal that reaches the sink. -/
def sinkRule : Config.BackwardRule := { name := "key", owner := "LSink;", method := "take", insecure := ["."] }

def sinkConfig : Config := { excluded := [], options := fewIterations, backward := [sinkRule], forward := [] }

/-- That configuration, with its expression read. -/
def sinkChecked : Config.Checked := ⟨sinkConfig, [⟨sinkRule, [.any false]⟩]⟩

theorem check_sinkConfig : sinkConfig.check = .ok sinkChecked := by cbv

theorem parse_copyKeyText : ClassFile.parse "Main.smali" copyKeyText =
    .ok { path := "Main.smali", name := "LMain;", methods := #[copyKey] } := by
  have text : copyKeyText.toList = _ :=
    String.toList_append.trans (congrArg₂ (· ++ ·) String.toList_ofList String.toList_ofList)
  rw [ClassFile.parse, text]
  decide +kernel

theorem classFiles_copyKeyTree : classFiles copyKeyTree ["Main.smali"] = .ok ["Main.smali"] := by decide +kernel

theorem find_copyKeyTree : copyKeyTree.find "open" "Main.smali" = .ok (["Main.smali"], .file copyKeyText) := by
  have parts : checkPath "Main.smali" = .ok ["Main.smali"] := by decide +kernel
  have file : copyKeyTree.entry? ["Main.smali"] = some (.file copyKeyText) := rfl
  have descends : copyKeyTree.descend [] ["Main.smali"] = .ok ["Main.smali"] := by decide +kernel
  have plain : Text.endsWith "/" "Main.smali".toList = false := by decide +kernel
  rw [FileTree.find, FileTree.locate, parts]
  simp only [bind, Except.bind, descends, file, plain]
  rfl

theorem ran_copyKey : (run copyKeyTree (fun content => content) ["Main.smali"] sinkConfig false false).outcome.1 =
    .ok (conclusion (Index.oneMethod copyKey) sinkChecked) :=
  outcome_run false check_sinkConfig classFiles_copyKeyTree (loadFiles_singleton find_copyKeyTree parse_copyKeyText)

/-- The index of the program, which files the literal as well. -/
def copyKeyIndex : Index :=
  { Index.single copyKey passCopyGraph [2] with
    summaries := #[{ method := ⟨0, 0⟩, invokes := #[.body ⟨0, 0⟩ 2],
                     literals := LineTable.file {} (Text.Octets.ofString "DES") (.body ⟨0, 0⟩ 0) }]
    literals := LineTable.file {} (Text.Octets.ofString "DES") (.body ⟨0, 0⟩ 0) }

theorem index_copyKey : (Index.ofProgram (Index.oneMethod copyKey) []).index = copyKeyIndex := by
  have built : BlockGraph.ofMethod copyKey = .ok passCopyGraph := by cbv
  have summary : Summary.ofGraph (Index.oneMethod copyKey) ⟨0, 0⟩ passCopyGraph =
      { method := ⟨0, 0⟩, invokes := #[.body ⟨0, 0⟩ 2],
        literals := LineTable.file {} (Text.Octets.ofString "DES") (.body ⟨0, 0⟩ 0) } := by cbv
  rw [Index.index_ofProgram_of_candidates rfl rfl (by decide) built (by decide), summary]
  simp only [Index.add, Index.merge_empty, Index.merge_file]
  rfl

/-! ### Findings -/

/-- The trace is a path of lines from the constant to the seed, with the fewest lines of all such paths. -/
structure Finding.Traced (g : SliceGraph) (seed : LineId) (f : Finding) : Prop where
  nonempty : f.trace ≠ []
  walk : Graph.Walk g.Joins f.constant.line seed f.trace
  fewest : ∀ other, Graph.Walk g.Joins f.constant.line seed other → f.trace.length ≤ other.length

/-- The findings of a rule are the constants of a literal kind that the rule matches. -/
theorem exists_finding_iff {program : Program} {rule : Config.CheckedRule} {c : Criterion} {k : Constant} :
    (∃ f ∈ findings program rule c, f.constant = k) ↔
      ∃ r ∈ c.searches, k ∈ r.constants ∧ k.kind.isLiteral = true ∧ rule.isInsecure k.value = true := by
  simp only [findings, List.mem_mergeSort, List.mem_flatMap, List.mem_map, List.mem_filter, Bool.and_eq_true]
  constructor
  · rintro ⟨_, ⟨r, inside, k, ⟨kept, isLiteral, matched⟩, rfl⟩, rfl⟩
    exact ⟨r, inside, kept, isLiteral, matched⟩
  · rintro ⟨r, inside, kept, isLiteral, matched⟩
    exact ⟨_, ⟨r, inside, k, ⟨kept, isLiteral, matched⟩, rfl⟩, rfl⟩

theorem traced_of_mem_findings {index : Index} (faithful : index.Faithful) {options : Options} {p : BackwardPattern}
    {program : Program} {rule : Config.CheckedRule} {f : Finding}
    (found : f ∈ findings program rule (backward index options p)) :
    ∃ (i : Nat) (r : SearchResult) (seed : LineId), (backward index options p).searches[i]? = some r ∧
      (backwardSeeds index p)[i]? = some seed ∧ f.constant ∈ r.constants ∧ f.Traced r.graph seed := by
  obtain ⟨r, inside, made⟩ := List.mem_flatMap.mp (List.mem_mergeSort.mp found)
  obtain ⟨k, matched, rfl⟩ := List.mem_map.mp made
  have isConstant := (List.mem_filter.mp matched).1
  obtain ⟨i, isSearch⟩ := List.mem_iff_getElem?.mp inside
  obtain ⟨seed, isSeed, ⟨_, none⟩ | ⟨σ, connected, graph, kept⟩⟩ :=
    Pattern.connected_of_searches faithful (.backward p) isSearch
  · simp [none] at isConstant
  · obtain ⟨walk, fewest⟩ := walk_trace connected graph (kept k isConstant)
    exact ⟨i, r, seed, isSearch, isSeed, isConstant, walk.ne_nil, walk, fewest⟩

/-- Every search of an indexed program is connected to its seed, in whatever direction it goes and however it
ends; and the trace of every finding of an analysis is a shortest path of lines from its constant to the seed of
the search that found the constant. -/
theorem slices_lead_to_seeds :
    (∀ (program : Program) (excluded : List String) (options : Options) (pattern : Pattern) (i : Nat)
      (r : SearchResult),
      (pattern.slice (Index.ofProgram program excluded).index options).searches[i]? = some r →
        ∃ seed, (pattern.seedLines (Index.ofProgram program excluded).index)[i]? = some seed ∧ r.Rooted seed) ∧
    ∀ (α : Type) (t : FileTree α) (text : α → String) (paths : List String) (config : Config)
      (canceled listing : Bool) (result : Result),
      (run t text paths config canceled listing).outcome.1 = .ok result →
        ∀ f ∈ result.findings, ∃ (p : BackwardPattern) (i : Nat) (r : SearchResult) (seed : LineId),
          (∃ rule ∈ result.rules, f ∈ rule.findings ∧ rule.criterion = backward result.index config.options p) ∧
          (backward result.index config.options p).searches[i]? = some r ∧
          (backwardSeeds result.index p)[i]? = some seed ∧ f.constant ∈ r.constants ∧ f.Traced r.graph seed := by
  constructor
  · intro program excluded options pattern i r found
    exact pattern.rooted_searches (Index.faithful_ofProgram program excluded) found
  · intro α t text paths config canceled listing result ran f found
    obtain ⟨program, checked, rfl, rfl⟩ := yields_run t text paths config canceled listing [] result ran
    have faithful := Index.faithful_ofProgram program checked.config.excluded
    obtain ⟨rule, isRule, ofRule⟩ := List.mem_flatMap.mp found
    rcases List.mem_append.mp isRule with backward | forward
    · obtain ⟨r, _, rfl⟩ := List.mem_map.mp backward
      obtain ⟨i, s, seed, isSearch, isSeed, isConstant, traced⟩ := traced_of_mem_findings faithful ofRule
      exact ⟨r.rule.pattern, i, s, seed, ⟨_, isRule, ofRule, rfl⟩, isSearch, isSeed, isConstant, traced⟩
    · obtain ⟨r, _, rfl⟩ := List.mem_map.mp forward
      simp at ofRule

/-- The string, the copy and the call are connected, and the analysis reports the string with a shortest path to
the call. -/
theorem copyKey_leads_to_sink :
    (∃ r seed, (backward (Index.ofProgram (Index.oneMethod copyKey) []).index fewIterations sinkPattern).searches[0]? =
        some r ∧ r.graph.nodes.size = 3 ∧
      (backwardSeeds (Index.ofProgram (Index.oneMethod copyKey) []).index sinkPattern)[0]? = some seed ∧
      r.Rooted seed) ∧
    ∃ result, (run copyKeyTree (fun content => content) ["Main.smali"] sinkConfig false false).outcome.1 = .ok result ∧
      ∃ f ∈ result.findings, f.constant.value = Text.Octets.ofString "DES" ∧
        ∃ (p : BackwardPattern) (i : Nat) (r : SearchResult) (seed : LineId),
          (∃ rule ∈ result.rules, f ∈ rule.findings ∧ rule.criterion = backward result.index sinkConfig.options p) ∧
          (backward result.index sinkConfig.options p).searches[i]? = some r ∧
          (backwardSeeds result.index p)[i]? = some seed ∧ f.constant ∈ r.constants ∧ f.Traced r.graph seed := by
  have searched : (backward copyKeyIndex fewIterations sinkPattern).searches.map (fun r =>
      (r.graph.nodes.size, r.constants.map fun k => (k.kind, k.value))) =
        [(3, [(.localAnonymous, Text.Octets.ofString "DES")])] := by cbv
  obtain ⟨r, only, kept⟩ := List.map_eq_singleton_iff.mp searched
  rw [Prod.mk.injEq] at kept
  obtain ⟨k, constants, isKey⟩ := List.map_eq_singleton_iff.mp kept.2
  rw [Prod.mk.injEq] at isKey
  rw [← index_copyKey] at only
  constructor
  · have found : (backward (Index.ofProgram (Index.oneMethod copyKey) []).index fewIterations sinkPattern).searches[0]? =
        some r := by
      rw [only]
      rfl
    obtain ⟨seed, isSeed, rooted⟩ :=
      slices_lead_to_seeds.1 (Index.oneMethod copyKey) [] fewIterations (.backward sinkPattern) 0 r found
    exact ⟨r, seed, found, kept.1, isSeed, rooted⟩
  · have isLiteral : k.kind.isLiteral = true := by
      rw [isKey.1]
      rfl
    have matched : Config.CheckedRule.isInsecure ⟨sinkRule, [.any false]⟩ k.value = true := by
      rw [isKey.2]
      cbv
    obtain ⟨f, reported, rfl⟩ : ∃ f ∈ findings (Index.oneMethod copyKey) ⟨sinkRule, [.any false]⟩
        (backward (Index.ofProgram (Index.oneMethod copyKey) []).index fewIterations sinkPattern), f.constant = k :=
      exists_finding_iff.mpr ⟨r, by rw [only]; exact List.mem_singleton_self r,
        by rw [constants]; exact List.mem_singleton_self k, isLiteral, matched⟩
    have found : f ∈ (conclusion (Index.oneMethod copyKey) sinkChecked).findings := by
      refine List.mem_flatMap.mpr ⟨_, List.mem_append.mpr (.inl (List.mem_map.mpr ⟨_, List.mem_singleton_self _, rfl⟩)), ?_⟩
      rw [Index.program_ofProgram]
      exact reported
    exact ⟨_, ran_copyKey, f, found, isKey.2,
      slices_lead_to_seeds.2 String copyKeyTree (fun content => content) ["Main.smali"] sinkConfig false false _
        ran_copyKey f found⟩

end SmaliTrace.Analysis
