import SmaliTrace.Proofs.Index.Orderly
import SmaliTrace.Proofs.Slice.GroundedActions
import SmaliTrace.Proofs.Slice.Turn

/-!
The actions of backward searches meet nothing surprising in a reliable index, one lemma for each action. What they
have to see to is where they send later searches: these may walk up only where no return is in the way.
-/
namespace SmaliTrace.Slice
open SmaliTrace.Smali SmaliTrace.ClassFile

variable {α β : Type} {x : Context} {σ τ : State} {r : RegisterSearch} {c : Cursor} {s : Site}

/-! ### What searches rely on -/

/-- What a backward search takes for granted. -/
structure Reliable (x : Context) : Prop where
  faithful : x.index.Faithful
  /-- No return stands above an executable line of its block. -/
  above : ∀ s ∈ x.index.allSites, s.operation.kind.executable = true → ∀ t ∈ x.index.sites s.blockId,
    t.position < s.position → t.operation.kind ≠ .ret
  /-- No return stands in a block with a successor, unless it may be passed. -/
  below : ∀ b block, x.index.block? b = some block → block.succs ≠ [] → ∀ s ∈ x.index.sites b,
    s.operation.kind = .ret → mayPassReturn x b = true
  /-- What a line picks up was made by a call or is an array. -/
  produced : ∀ s ∈ x.index.allSites, s.operation.kind = .moveResult → ∃ p, x.index.previousExecutable? s = some p ∧
    (p.operation.kind = .invoke ∨ p.operation.kind = .filledNewArray)
  /-- Calls have an argument for every parameter of the methods that they may run. -/
  passed : ∀ id m, x.program.method? id = some m → ∀ s ∈ x.index.sitesOf (x.index.callSitesOf id), ∀ index,
    IsParam m.isStatic m.params index → ∃ register, s.instruction.argument index = .ok register
  /-- The bodies that a call may run have a register for every argument. -/
  received : ∀ s ∈ x.index.allSites, ∀ registers ref, s.operation = .invoke registers ref →
    ∀ id, x.index.resolve? ref = some id → ∀ body ∈ x.index.implementations id,
    ∀ m, x.program.method? body = some m → ∀ index : Int, 0 ≤ index → index < ref.params.length →
    ∃ register, m.paramRegister index = .ok register

/-- Searches can rely on the index of an orderly program, if that is untangled. -/
theorem reliable_of_orderly (faithful : x.index.Faithful) (described : x.program.Described)
    (orderly : x.index.Orderly) (untangled : x.index.Untangled) : Reliable x where
  faithful := faithful
  above s inside runs t above before := by
    obtain ⟨b, -, listed⟩ := List.mem_flatMap.mp inside
    obtain ⟨rfl, -⟩ := faithful.exists_stands listed
    exact orderly.kind_ne_ret faithful listed runs above before
  below b block isBlock more s inside isReturn := by
    rcases untangled.returns b block isBlock ⟨s, inside, isReturn⟩ with last | ⟨isTry, p, before, only, isBefore, handler⟩
    · exact absurd last more
    · simp [mayPassReturn, isBlock, isTry, only, isBefore, handler]
  produced s inside picks := by
    obtain ⟨b, -, listed⟩ := List.mem_flatMap.mp inside
    obtain ⟨p, previous, -, made⟩ := orderly.exists_producer faithful untangled listed picks
    exact ⟨p, previous, made⟩
  passed id m isMethod s isCall index isParam :=
    orderly.exists_argument_of_callSite faithful untangled described isMethod isCall isParam
  received s inside registers ref calls id resolves body runs m isMethod index low high := by
    obtain ⟨b, -, listed⟩ := List.mem_flatMap.mp inside
    obtain ⟨-, m', _, stands⟩ := faithful.exists_stands listed
    have called := (described.method? stands.isMethod).lines _ (Array.mem_of_getElem? stands.isLine) ref
      (by rw [show s.line.operation = _ from calls]; rfl)
    exact Index.exists_paramRegister_of_implementation described called resolves runs isMethod low high

/-- A search may walk up from the position: the returns on its way are those that it may pass. -/
def Clear (x : Context) (b : BlockId) (index : Int) : Prop :=
  ∀ s ∈ linesBack x b index, s.operation.kind = .ret → mayPassReturn x b = true

/-- The register searches that wait may walk up from where they start. -/
def Cleared (x : Context) (σ : State) : Prop := ∀ r ∈ σ.work.registers, Clear x r.block r.index

/-- The action meets nothing surprising and sends searches only to where they may walk up. -/
structure Logical (x : Context) (a : SearchM α) : Prop where
  cleared : ∀ σ, Cleared x σ → Cleared x (exec a σ).2
  sound : ∀ σ e, (exec a σ).1 ≠ .error (.logic e)

namespace Reliable

variable (reliable : Reliable x)
include reliable

theorem mem_sites (inside : s ∈ x.index.allSites) : s ∈ x.index.sites s.blockId := by
  obtain ⟨b, -, listed⟩ := List.mem_flatMap.mp inside
  obtain ⟨rfl, -⟩ := reliable.faithful.exists_stands listed
  exact listed

/-- The lines on the way up are those up to the position. -/
theorem mem_linesBack {b : BlockId} {index : Int} {t : Site} (listed : t ∈ linesBack x b index) :
    (x.index.sites b)[t.position]? = some t ∧ (t.position : Int) ≤ index := by
  obtain ⟨n, less, atN⟩ := List.mem_take_iff_getElem.mp (List.mem_reverse.mp listed)
  have found := List.getElem?_eq_some_iff.mpr ⟨by omega, atN⟩
  obtain ⟨-, rfl, -⟩ := reliable.faithful.site_of_getElem? found
  exact ⟨found, by omega⟩

/-- The way up is clear above an executable line. -/
theorem clear_above (inside : s ∈ x.index.allSites) (runs : s.operation.kind.executable = true) :
    Clear x s.blockId ((s.position : Int) - 1) := by
  intro t listed isReturn
  obtain ⟨found, less⟩ := reliable.mem_linesBack listed
  exact absurd isReturn (reliable.above s inside runs t (List.mem_of_getElem? found) (by omega))

/-- The way up is clear from an executable line that does not return. -/
theorem clear_at (inside : s ∈ x.index.allSites) (runs : s.operation.kind.executable = true)
    (goesOn : s.operation.kind ≠ .ret) : Clear x s.blockId s.position := by
  intro t listed isReturn
  obtain ⟨found, less⟩ := reliable.mem_linesBack listed
  rcases Nat.lt_or_eq_of_le (Int.ofNat_le.mp less) with before | same
  · exact absurd isReturn (reliable.above s inside runs t (List.mem_of_getElem? found) before)
  · obtain ⟨n, atN⟩ := List.mem_iff_getElem?.mp (reliable.mem_sites inside)
    obtain ⟨-, rfl, -⟩ := reliable.faithful.site_of_getElem? atN
    rw [same, atN] at found
    cases found
    exact absurd isReturn goesOn

/-- The way up is clear from the end of a block with a successor. -/
theorem clear_of_succs {b : BlockId} {block : BlockGraph.Block} (isBlock : x.index.block? b = some block)
    (more : block.succs ≠ []) (index : Int) : Clear x b index := fun t listed =>
  reliable.below b block isBlock more t (List.mem_of_mem_take (List.mem_reverse.mp listed))

end Reliable

/-! ### Rules -/

/-- A request adds itself to a queue at most. -/
theorem Worklist.mem_registers_accept {w : Worklist} {key : ItemKey} {fuzzy offset : Int} {o : Origin}
    {enqueue : Worklist → Worklist} {q : RegisterSearch}
    (waits : q ∈ (w.accept key fuzzy offset o enqueue).1.registers) :
    q ∈ w.registers ∨ ∃ w', w'.registers = w.registers ∧ q ∈ (enqueue w').registers := by
  rcases w.accept_cases key fuzzy offset o enqueue with ⟨-, same⟩ | ⟨-, i, -, same⟩ | ⟨-, -, same⟩
  · rw [same] at waits
    exact .inl waits
  · rw [same, (relinked_inherit ..).registers, (relinked_duplicate ..).registers] at waits
    exact .inl waits
  · rw [same] at waits
    exact .inr ⟨_, (relinked_opened ..).registers, waits⟩

namespace Logical

theorem pure (v : α) : Logical x (pure v) := ⟨fun _ cleared => cleared, by simp⟩

theorem misshapen (line : LineId) (shape : Misshape) : Logical x (misshapen x line shape : SearchM α) :=
  ⟨fun _ cleared => cleared, by simp⟩

theorem bind {a : SearchM α} {f : α → SearchM β} (first : Logical x a)
    (rest : ∀ v σ τ, exec a σ = (.ok v, τ) → Logical x (f v)) : Logical x (a >>= f) := by
  constructor
  · intro σ start
    have next := first.cleared σ start
    rw [exec_bind]
    rcases ran : exec a σ with ⟨_ | v, ρ⟩ <;> rw [ran] at next
    · exact next
    · exact (rest v σ ρ ran).cleared ρ next
  · intro σ e
    have sound := first.sound σ e
    rw [exec_bind]
    rcases ran : exec a σ with ⟨_ | v, ρ⟩ <;> rw [ran] at sound
    · exact fun same => sound (congrArg Except.error (Except.error.inj same))
    · exact (rest v σ ρ ran).sound ρ e

theorem andThen {a : SearchM α} {f : α → SearchM β} (first : Logical x a) (rest : ∀ v, Logical x (f v)) :
    Logical x (a >>= f) :=
  first.bind fun v _ _ _ => rest v

theorem map {a : SearchM α} (f : α → β) (logical : Logical x a) : Logical x (f <$> a) := by
  rw [← bind_pure_comp]
  exact logical.andThen fun _ => .pure _

theorem forM {items : List β} {f : β → SearchM PUnit} (each : ∀ item ∈ items, Logical x (f item)) :
    Logical x (items.forM f) := by
  induction items with
  | nil => exact .pure _
  | cons item items ih =>
    exact (each item (by simp)).andThen fun _ => ih fun other inside => each other (by simp [inside])

theorem mapM {items : List β} {f : β → SearchM α} (each : ∀ item, Logical x (f item)) :
    Logical x (items.mapM f) := by
  induction items with
  | nil => exact .pure _
  | cons item items ih =>
    rw [List.mapM_cons]
    exact (each item).andThen fun _ => ih.andThen fun _ => .pure _

/-- A change to the worklist that lets no further register search wait. -/
theorem onWork {f : Worklist → Worklist × α} (same : ∀ w, ∀ r ∈ (f w).1.registers, r ∈ w.registers) :
    Logical x (onWork f) :=
  ⟨fun σ cleared r waits => cleared r (same σ.work r waits), by simp⟩

end Logical

/-! ### The steps that all searches are made of -/

theorem logical_admitRegister (clear : Clear x r.block r.index) : Logical x (admitRegister r) := by
  refine ⟨fun σ cleared q (waits : q ∈ (σ.work.admitRegister r).1.registers) => ?_, fun _ _ same => nomatch same⟩
  rcases Worklist.mem_registers_accept waits with before | ⟨w', same, queued⟩
  · exact cleared q before
  · rcases List.mem_append.mp queued with before | new
    · exact cleared q (same ▸ before)
    · obtain rfl := List.mem_singleton.mp new
      exact clear

theorem logical_admitContent (kind : Content) (search : ContentSearch) : Logical x (admitContent kind search) := by
  refine Logical.andThen (.onWork fun w r waits => ?_) fun _ => .pure _
  rcases Worklist.mem_registers_accept waits with before | ⟨w', same, queued⟩
  · exact before
  · rwa [Worklist.registers_enqueueContent, same] at queued

theorem logical_produceIf (direct : Bool) (id : Nat) (key : EdgeKey) : Logical x (produceIf direct id key) := by
  unfold produceIf
  split
  · exact .onWork fun w r waits => (Worklist.relinked_produce w id key).registers ▸ waits
  · exact .pure _

theorem logical_addNode (line : LineId) (pred : Option NodeId) (key : EdgeKey) :
    Logical x (onWork (·.addNode line pred key)) :=
  .onWork fun _ _ waits => waits

theorem logical_step (line : LineId) (source register : Register) : Logical x (step c line source register) :=
  (logical_addNode ..).andThen fun _ => (logical_produceIf ..).andThen fun _ => .pure _

theorem logical_keepConstant (k : Constant) : Logical x (keepConstant k) :=
  ⟨fun _ cleared => cleared, fun _ _ same => nomatch same⟩

theorem logical_terminal (line : LineId) (kind : ConstantKind) (value : Text.Octets) (raw : String) (fuzzy : Int) :
    Logical x (terminal x c line kind value raw fuzzy) :=
  Logical.andThen (.onWork fun _ _ waits => waits) fun _ => (logical_keepConstant _).andThen fun _ =>
    (logical_produceIf ..).andThen fun _ => .pure _

theorem logical_record (line : LineId) (kind : ConstantKind) (value : Text.Octets) (raw : String) (fuzzy : Int) :
    Logical x (record x c line kind value raw fuzzy) :=
  logical_keepConstant _

theorem logical_argumentsOf : Logical x (argumentsOf x s) := by
  unfold argumentsOf
  split
  · exact .pure _
  · exact .misshapen ..

theorem arguments_of_argumentsOf {arguments : List Argument}
    (ran : exec (argumentsOf x s) σ = (.ok arguments, τ)) : s.instruction.arguments = .ok arguments := by
  unfold argumentsOf at ran
  split at ran
  · next found =>
    cases ran
    exact found
  · cases ran

theorem logical_argumentOf (index : Int) : Logical x (argumentOf x s index) := by
  unfold argumentOf
  split
  · exact .pure _
  · exact .misshapen ..

theorem logical_literalLoad (raw : String) : Logical x (literalLoad x r c s raw) := by
  unfold literalLoad
  split
  · exact .misshapen ..
  · exact (logical_terminal ..).andThen fun _ => .pure _

theorem logical_opcodeValue (value : String) : Logical x (opcodeValue x r c s value) :=
  (logical_terminal ..).andThen fun _ => .pure _

theorem logical_payloadLoad (label : String) : Logical x (payloadLoad x r c s label) := by
  unfold payloadLoad
  split
  · exact .misshapen ..
  · refine Logical.andThen (.mapM fun _ => ?_) fun _ => (logical_terminal ..).andThen fun _ => .pure _
    split
    · exact .pure _
    · exact .misshapen ..

/-! ### Where values come from -/

section Reliable

variable (reliable : Reliable x)
include reliable

/-- A search that goes on above an executable line. -/
theorem logical_fork_above (inside : s ∈ x.index.allSites) (runs : s.operation.kind.executable = true)
    (register : Register) (fuzzy : Int) :
    Logical x (fork r c register s.blockId ((s.position : Int) - 1) fuzzy) :=
  logical_admitRegister (reliable.clear_above inside runs)

theorem logical_enterCaller {m : Method} {id : MethodId} (isMethod : x.program.method? id = some m)
    (isCall : s ∈ x.index.sitesOf (x.index.callSitesOf id)) {index : Int} (isParam : IsParam m.isStatic m.params index) :
    Logical x (enterCaller x r c id index s) := by
  obtain ⟨register, found⟩ := reliable.passed id m isMethod s isCall index isParam
  obtain ⟨-, _, _, calls, -⟩ := reliable.faithful.call_of_mem_callSitesOf isMethod isCall
  have inside := reliable.faithful.mem_allSites_of_sitesOf isCall
  simp only [enterCaller, found]
  refine (logical_addNode ..).andThen fun _ => (logical_produceIf ..).andThen fun _ => logical_admitRegister ?_
  exact reliable.clear_above inside (by rw [calls]; rfl)

theorem logical_callers {m : Method} {id : MethodId} (isMethod : x.program.method? id = some m) {index : Int}
    (isParam : IsParam m.isStatic m.params index) : Logical x (callers x r c id index) := by
  unfold callers
  split
  · split
    · exact .pure _
    · exact (logical_terminal ..).andThen fun _ => .pure _
  · exact .forM fun s isCall => logical_enterCaller reliable isMethod isCall isParam

theorem logical_callersAtEntry (b : BlockId) : Logical x (callersAtEntry x r c b) := by
  unfold callersAtEntry
  split
  · exact .pure _
  · split
    · exact .pure _
    · next index found =>
      obtain ⟨m, isMethod, isParam⟩ := Option.bind_eq_some_iff.mp found
      exact logical_callers reliable isMethod (Method.isParam_of_paramIndex? isParam)

theorem logical_libraryArguments (inside : s ∈ x.index.allSites) (runs : s.operation.kind.executable = true)
    (method : MethodRef) (skip : Option Register) : Logical x (libraryArguments x r c s method skip) :=
  logical_argumentsOf.andThen fun _ => .forM fun _ _ => logical_fork_above reliable inside runs ..

theorem logical_callResult (inside : s ∈ x.index.allSites) (runs : s.operation.kind.executable = true)
    (method : MethodRef) : Logical x (callResult x r c s method) := by
  unfold callResult
  split
  · split
    · exact (logical_terminal ..).andThen fun _ => .pure _
    · exact (logical_step ..).andThen fun _ => logical_admitContent ..
  · exact (logical_terminal ..).andThen fun _ => logical_libraryArguments reliable inside runs ..

theorem logical_builtArray (inside : s ∈ x.index.allSites) (runs : s.operation.kind.executable = true)
    (elements : List Register) (type : String) : Logical x (builtArray x r c s elements type) := by
  refine (logical_step ..).andThen fun _ => Logical.andThen (.forM fun e _ => ?_) fun _ => ?_
  · exact logical_fork_above reliable inside runs ..
  · split
    · exact .pure _
    · exact logical_record ..

theorem logical_pickedResult (inside : s ∈ x.index.allSites) (picks : s.operation.kind = .moveResult) :
    Logical x (pickedResult x r c s) := by
  obtain ⟨p, previous, made⟩ := reliable.produced s inside picks
  have inside' := reliable.faithful.mem_allSites_of_previousExecutable? previous
  have runs : p.operation.kind.executable = true := by rcases made with made | made <;> rw [made] <;> rfl
  simp only [pickedResult, previous]
  split
  · exact logical_builtArray reliable inside' runs ..
  · exact logical_callResult reliable inside' runs _
  · next neitherArray neitherCall =>
    exfalso
    cases does : p.operation with
    | filledNewArray elements type => exact neitherArray _ _ does
    | invoke registers method => exact neitherCall _ _ does
    | _ => simp [does, Operation.kind] at made

/-! ### Arrays -/

theorem logical_elementStore (inside : s ∈ x.index.allSites) (runs : s.operation.kind.executable = true)
    (call : Option Site) (array value : Register) : Logical x (elementStore r c call s array value) := by
  have stored : ∀ c, Logical x (do
      let c ← step c s.id array array
      fork r c value s.blockId ((s.position : Int) - 1) r.fuzzy) :=
    fun c => (logical_step ..).andThen fun _ => logical_fork_above reliable inside runs ..
  unfold elementStore
  split
  · exact (logical_step ..).andThen stored
  · exact (Logical.pure c).andThen stored

theorem logical_storesInBlock (array : Register) (call : Option Site) {sites : List Site}
    (inside : ∀ s ∈ sites, s ∈ x.index.allSites) : Logical x (storesInBlock x r c array call sites) := by
  induction sites with
  | nil => exact .pure _
  | cons s sites ih =>
    have isSite := inside s List.mem_cons_self
    have rest := ih fun t isRest => inside t (List.mem_cons_of_mem s isRest)
    unfold storesInBlock
    split
    · next isPut =>
      split
      · exact (logical_elementStore reliable isSite (by rw [isPut]; rfl) ..).andThen fun _ => rest
      · exact rest
    · next isCall =>
      split
      · refine (logical_argumentOf ..).andThen fun _ => ?_
        exact (logical_elementStore reliable isSite (by rw [isCall]; rfl) ..).andThen fun _ => rest
      · exact rest
    · split
      · exact .pure _
      · exact rest

theorem logical_walkStores (array : Register) (call : Option Site) (f : Frontier)
    (queue : List (BlockId × Int)) : Logical x (walkStores x r c array call f queue) := by
  induction f, queue using walkStores.induct x with
  | case1 f => rw [walkStores]; exact .pure _
  | case2 f b index rest onward stay =>
    rw [walkStores]
    refine (logical_storesInBlock reliable array call (inside_linesOn reliable.faithful b index)).andThen fun holds => ?_
    split
    · exact onward
    · exact stay

theorem logical_arrayStores (array : Register) (call : Option Site) (b : BlockId) (index : Int) :
    Logical x (arrayStores x r c array call b index) :=
  logical_walkStores reliable ..

/-- An argument has a register in every body that a call may run. -/
theorem logical_argumentStores (inside : s ∈ x.index.allSites) {registers : List Register} {ref : MethodRef}
    (calls : s.operation = .invoke registers ref) {callee : MethodId} (resolves : x.index.resolve? ref = some callee)
    {index : Int} (low : 0 ≤ index) (high : index < ref.params.length) :
    Logical x (argumentStores x r c s callee index) := by
  refine .forM fun body isBody => ?_
  split
  · exact .pure _
  · next e found =>
    obtain ⟨m, isMethod, unknown⟩ := Option.map_eq_some_iff.mp found
    obtain ⟨register, known⟩ := reliable.received s inside registers ref calls callee resolves body
      (List.mem_filter.mp isBody).1 m isMethod index low high
    rw [known] at unknown
    cases unknown
  · exact logical_arrayStores reliable ..

theorem logical_filledByCall (inside : s ∈ x.index.allSites) {registers : List Register} {ref : MethodRef}
    (calls : s.operation = .invoke registers ref) {arguments : List Argument}
    (made : ∀ a ∈ arguments, 0 ≤ a.index ∧ a.index < ref.params.length) :
    Logical x (filledByCall x r c s ref arguments) := by
  unfold filledByCall
  split
  · exact .pure _
  · next a rest =>
    obtain ⟨low, high⟩ := made a List.mem_cons_self
    split
    · next resolves =>
      exact (logical_argumentStores reliable inside calls resolves low high).andThen fun _ => .pure _
    · exact logical_terminal ..

theorem logical_copiedFrom (inside : s ∈ x.index.allSites) (runs : s.operation.kind.executable = true)
    (redirect : Redirect) : Logical x (copiedFrom x r c s redirect) :=
  (logical_argumentOf ..).andThen fun _ => (logical_step ..).andThen fun _ =>
    (logical_fork_above reliable inside runs ..).andThen fun _ => .pure _

omit reliable in
/-- The arguments for parameters are in range. -/
theorem index_lt_of_mem_arguments {registers : List Register} {ref : MethodRef}
    (calls : s.operation = .invoke registers ref) {arguments : List Argument}
    (made : s.instruction.arguments = .ok arguments) {a : Argument} (inside : a ∈ arguments) (low : 0 ≤ a.index) :
    a.index < ref.params.length := by
  have isParam := (mem_map_index_of_arguments calls made a.index).mp (List.mem_map_of_mem inside)
  rcases isParam with ⟨same, -⟩ | ⟨-, high⟩
  · omega
  · exact high

theorem logical_arrayCall (inside : s ∈ x.index.allSites) {registers : List Register} {ref : MethodRef}
    (calls : s.operation = .invoke registers ref) : Logical x (arrayCall x r c s ref) := by
  unfold arrayCall
  split
  · exact .pure _
  · split
    · exact logical_copiedFrom reliable inside (by rw [calls]; rfl) _
    · refine logical_argumentsOf.bind fun arguments σ τ ran => logical_filledByCall reliable inside calls ?_
      intro a picked
      obtain ⟨isArgument, chosen⟩ := List.mem_filter.mp picked
      have low : 0 ≤ a.index := by simp at chosen; exact chosen.1
      exact ⟨low, index_lt_of_mem_arguments calls (arguments_of_argumentsOf ran) isArgument low⟩

theorem logical_arrayLine (inside : s ∈ x.index.allSites) : Logical x (arrayLine x r c s) := by
  unfold arrayLine
  split
  · split
    · exact (logical_opcodeValue ..).andThen fun _ => .pure _
    · exact .pure _
  · split
    · exact (logical_payloadLoad ..).andThen fun _ => .pure _
    · exact .pure _
  · next isPut =>
    split
    · refine (logical_step ..).andThen fun _ => ?_
      exact (logical_fork_above reliable inside (by rw [isPut]; rfl) ..).andThen fun _ => .pure _
    · exact .pure _
  · split
    · exact .pure _
    · split
      · exact .pure _
      · exact (logical_literalLoad ..).andThen fun _ => .pure _
  · split
    · exact (logical_opcodeValue ..).andThen fun _ => .pure _
    · exact .pure _
  iterate 2
    split
    · exact (logical_step ..).map some
    · exact .pure _
  iterate 2
    split
    · exact (logical_step ..).andThen fun _ => (logical_admitContent ..).andThen fun _ => .pure _
    · exact .pure _
  · next picks =>
    split
    · refine Logical.andThen (logical_admitRegister ?_) fun _ => .pure _
      exact reliable.clear_at inside (by rw [picks]; rfl) (by rw [picks]; simp [Operation.kind])
    · exact .pure _
  · next calls => exact (logical_arrayCall reliable inside calls).map some
  · split
    · exact (logical_opcodeValue ..).andThen fun _ => .pure _
    · exact .pure _

theorem logical_arrayLines {sites : List Site} (inside : ∀ s ∈ sites, s ∈ x.index.allSites) :
    Logical x (arrayLines x r c sites) := by
  induction sites generalizing c with
  | nil => exact .pure _
  | cons s sites ih =>
    refine (logical_arrayLine reliable (inside s List.mem_cons_self)).andThen fun left => ?_
    split
    · exact ih fun t isRest => inside t (List.mem_cons_of_mem s isRest)
    · exact .pure _

theorem logical_walkArray (f : Frontier) (queue : List ArrayFrame) : Logical x (walkArray x r f queue) := by
  induction f, queue using walkArray.induct x with
  | case1 f => rw [walkArray]; exact .pure _
  | case2 f frame rest stay onward =>
    rw [walkArray]
    have inside := inside_linesBack reliable.faithful frame.block frame.index
    refine (logical_arrayLines reliable inside).andThen fun left => ?_
    split
    · exact stay
    · exact (logical_callersAtEntry reliable _).andThen fun _ => onward _

theorem logical_arrayOrigin (b : BlockId) (index : Int) : Logical x (arrayOrigin x r c b index) :=
  logical_walkArray reliable ..

/-! ### Backward searches -/

theorem logical_backwardCall (inside : s ∈ x.index.allSites) {registers : List Register} {ref : MethodRef}
    (calls : s.operation = .invoke registers ref) : Logical x (backwardCall x r c s ref) := by
  have runs : s.operation.kind.executable = true := by rw [calls]; rfl
  unfold backwardCall
  split
  · exact .pure _
  · refine logical_argumentsOf.bind fun arguments σ τ ran => ?_
    split
    · exact logical_copiedFrom reliable inside runs _
    · dsimp only
      split
      · refine (logical_step ..).andThen fun _ => ?_
        exact (logical_libraryArguments reliable inside runs ..).andThen fun _ => .pure _
      · refine logical_filledByCall reliable inside calls fun a picked => ?_
        obtain ⟨isArgument, chosen⟩ := List.mem_filter.mp picked
        have low : 0 ≤ a.index := by simp at chosen; exact chosen.1.2
        exact ⟨low, index_lt_of_mem_arguments calls (arguments_of_argumentsOf ran) isArgument low⟩

theorem logical_backwardMath (inside : s ∈ x.index.allSites) (runs : s.operation.kind.executable = true)
    (left right : Register) : Logical x (backwardMath r c s left right) := by
  refine (logical_step ..).andThen fun c => ?_
  dsimp only
  split
  · exact (logical_fork_above reliable inside runs ..).andThen fun _ => .pure _
  · exact .pure _

omit reliable in
theorem logical_backwardFieldRead (field : FieldRef) : Logical x (backwardFieldRead x r c s field) := by
  rw [backwardFieldRead]
  rcases x.program.fieldTarget field with ⟨owner, name⟩
  refine (logical_step ..).andThen fun c => ?_
  split
  · exact .pure _
  · exact logical_admitContent ..

theorem logical_backwardDefinition (inside : s ∈ x.index.allSites) : Logical x (backwardDefinition x r c s) := by
  unfold backwardDefinition
  split
  iterate 2 exact (logical_step ..).map some
  · refine (logical_step ..).andThen fun c => ?_
    split
    · exact .misshapen ..
    · exact (logical_record ..).andThen fun _ => .pure _
  · next isMath => exact logical_backwardMath reliable inside (by rw [isMath]; rfl) ..
  · next isMath => exact logical_backwardMath reliable inside (by rw [isMath]; rfl) ..
  · exact (logical_step ..).andThen fun _ => (logical_arrayOrigin reliable ..).andThen fun _ => .pure _
  · next picks => exact (logical_pickedResult reliable inside (by rw [picks]; rfl)).andThen fun _ => .pure _
  · exact (logical_literalLoad ..).andThen fun _ => .pure _
  iterate 3 exact (logical_opcodeValue ..).andThen fun _ => .pure _
  iterate 2 exact (logical_backwardFieldRead ..).andThen fun _ => .pure _
  · exact (logical_opcodeValue ..).andThen fun _ => .pure _

/-- A line on a clear way up. -/
theorem logical_backwardLine (inside : s ∈ x.index.allSites)
    (passes : s.operation.kind = .ret → mayPassReturn x s.blockId = true) : Logical x (backwardLine x r c s) := by
  unfold backwardLine
  split
  · exact logical_backwardDefinition reliable inside
  · split
    · next returns =>
      rw [if_pos (passes (by rw [returns]; rfl))]
      exact .pure _
    · next returns =>
      rw [if_pos (passes (by rw [returns]; rfl))]
      exact .pure _
    · split
      · exact (logical_payloadLoad ..).andThen fun _ => .pure _
      · exact .pure _
    · next isPut =>
      split
      · refine (logical_step ..).andThen fun _ => ?_
        exact (logical_fork_above reliable inside (by rw [isPut]; rfl) ..).andThen fun _ => .pure _
      · exact .pure _
    · next calls => exact (logical_backwardCall reliable inside calls).map some
    · exact .pure _

theorem logical_backwardLines {sites : List Site} (inside : ∀ s ∈ sites, s ∈ x.index.allSites)
    (passes : ∀ s ∈ sites, s.operation.kind = .ret → mayPassReturn x s.blockId = true) :
    Logical x (backwardLines x r c sites) := by
  induction sites generalizing c with
  | nil => exact .pure _
  | cons s sites ih =>
    refine (logical_backwardLine reliable (inside s List.mem_cons_self) (passes s List.mem_cons_self)).andThen
      fun left => ?_
    split
    · exact ih (fun t isRest => inside t (List.mem_cons_of_mem s isRest)) fun t isRest =>
        passes t (List.mem_cons_of_mem s isRest)
    · exact .pure _

/-- The way up is clear from the end of a predecessor. -/
theorem logical_blockTop : Logical x (blockTop x r c) := by
  refine Logical.andThen (.forM fun i inside => logical_admitRegister ?_) fun _ => logical_callersAtEntry reliable ..
  cases isBlock : x.index.block? r.block with
  | none => simp [neighbours, isBlock] at inside
  | some block =>
    have isPred : i ∈ block.preds := by simpa [neighbours, isBlock] using inside
    obtain ⟨pred, isBlock', isSucc⟩ := reliable.faithful.mem_succs_of_mem_preds isBlock isPred
    exact reliable.clear_of_succs isBlock' (List.ne_nil_of_mem isSucc) _

theorem logical_backwardRegister (clear : Clear x r.block r.index) : Logical x (backwardRegister x r) := by
  refine Logical.andThen ?_ fun left => ?_
  · refine logical_backwardLines reliable (inside_linesBack reliable.faithful r.block r.index) fun s listed isReturn => ?_
    obtain ⟨found, -⟩ := reliable.mem_linesBack listed
    obtain ⟨same, -⟩ := reliable.faithful.exists_stands (List.mem_of_getElem? found)
    rw [same]
    exact clear s listed isReturn
  · split
    · exact logical_blockTop reliable
    · exact .pure _

omit reliable in
theorem executable_of_mem_fieldStores {key : String} {store : Site × Register} (inside : store ∈ fieldStores x key) :
    store.1.operation.kind.executable = true := by
  obtain ⟨s, -, made⟩ := List.mem_filterMap.mp inside
  split at made
  · next isPut =>
    cases made
    rw [isPut]
    rfl
  · next isPut =>
    cases made
    rw [isPut]
    rfl
  · simp at made

omit reliable in
theorem executable_of_mem_returnedValues {m : MethodId} {value : Site × Register} (inside : value ∈ returnedValues x m) :
    value.1.operation.kind.executable = true := by
  obtain ⟨body, -, inside⟩ := List.mem_flatMap.mp inside
  obtain ⟨s, -, made⟩ := List.mem_filterMap.mp inside
  split at made
  · next isReturn =>
    cases made
    rw [isReturn]
    rfl
  · simp at made

variable (search : ContentSearch)

omit reliable in
theorem logical_foreignField : Logical x (foreignField x search) :=
  (logical_terminal ..).andThen fun _ => .pure _

theorem logical_backwardField : Logical x (backwardField x search) := by
  refine Logical.andThen (.forM fun store inside => (logical_step ..).andThen fun _ => ?_) fun _ => ?_
  · have isSite := (mem_fieldStores reliable.faithful inside).1
    exact logical_fork_above reliable isSite (executable_of_mem_fieldStores inside) ..
  · split
    · split
      · exact logical_foreignField ..
      · exact .pure _
    · split
      · split
        · exact .misshapen ..
        · exact (logical_terminal ..).andThen fun _ => .pure _
      · exact .pure _

theorem logical_backwardArrayField : Logical x (backwardArrayField x search) := by
  refine Logical.andThen (.forM fun _ _ => (logical_step ..).andThen fun _ => logical_arrayOrigin reliable ..) fun _ => ?_
  refine Logical.andThen (.forM fun _ _ => (logical_step ..).andThen fun _ => logical_arrayStores reliable ..) fun _ => ?_
  split
  · exact logical_foreignField ..
  · exact .pure _

theorem logical_backwardResult : Logical x (backwardResult x search) := by
  unfold backwardResult
  split
  · exact (logical_terminal ..).andThen fun _ => .pure _
  · refine .forM fun value inside => (logical_step ..).andThen fun _ => logical_admitRegister ?_
    cases tracked : trackedMethod? x search with
    | none => simp [tracked] at inside
    | some m =>
      have returned : value ∈ returnedValues x m := by simpa [tracked] using inside
      exact reliable.clear_above (mem_returnedValues reliable.faithful returned).1
        (executable_of_mem_returnedValues returned)

end Reliable

end SmaliTrace.Slice
