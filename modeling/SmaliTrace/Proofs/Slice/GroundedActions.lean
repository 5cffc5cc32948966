import SmaliTrace.Proofs.Slice.Grounded

/-!
The actions of backward and forward searches are grounded, one lemma for each action: as long as a search
follows a register of the program from a node of the slice, it adds to that node, asks for keys of the program,
and goes on with a register of the program.
-/
namespace SmaliTrace.Slice
open SmaliTrace.Smali SmaliTrace.ClassFile

variable {x : Context} {r : RegisterSearch} {c : Cursor} {s : Site} {here later : List LineId}
  {register : Register}

/-- The cursor is on a register of the program, at a node of the slice. -/
structure Placed (index : Index) (here : List LineId) (c : Cursor) : Prop where
  register : c.register ∈ index.registers
  origin : Anchored here c.origin

/-- A cursor that is left is on a register of the program, at a node of the slice. -/
def Left (index : Index) (here : List LineId) (left : Option Cursor) : Prop := ∀ c ∈ left, Placed index here c

theorem Placed.mono {index : Index} (placed : Placed index here c) (grown : here <+: later) :
    Placed index later c :=
  ⟨placed.register, placed.origin.mono grown⟩

theorem Placed.stays {index : Index} (placed : Placed index here c) :
    Tracks index here (pure c) (Placed index) :=
  .pure fun _ grown => placed.mono grown

theorem Placed.left {index : Index} (placed : Placed index here c) :
    Tracks index here (pure (some c)) (Left index) := by
  refine .pure fun later grown c' same => ?_
  obtain rfl : c = c' := by simpa using same
  exact placed.mono grown

namespace Tracks

variable {α : Type} {index : Index}

theorem ends : Tracks index here (Pure.pure none) (Left index) := by
  refine .pure fun _ _ c' same => ?_
  simp at same

theorem thenEnds {a : SearchM α} (grounds : Grounds index here a) :
    Tracks index here (do let _ ← a; Pure.pure none) (Left index) :=
  grounds.andThen fun _ _ _ => .ends

theorem some {a : SearchM Cursor} (tracks : Tracks index here a (Placed index)) :
    Tracks index here (Option.some <$> a) (Left index) := by
  refine tracks.map fun later c placed c' same => ?_
  obtain rfl : c = c' := by simpa using same
  exact placed

theorem unit {a : SearchM α} (grounds : Grounds index here a) : Grounds index here (do let _ ← a) :=
  grounds.andThen fun _ _ _ => .done

end Tracks

/-- After a step to a line, the cursor is placed there, on the register that it goes on with. -/
theorem tracks_step_to {line : LineId} {source : Register} (anchored : Anchored here c.origin)
    (known : register ∈ x.index.registers) :
    Tracks x.index here (step c line source register) (Placed x.index) :=
  (tracks_step anchored).weaken fun _ _ stepped => ⟨stepped.1 ▸ known, stepped.2.anchored⟩

theorem grounds_terminal {line : LineId} {kind : ConstantKind} {value : Text.Octets} {raw : String} {fuzzy : Int}
    (anchored : Anchored here c.origin) : Grounds x.index here (terminal x c line kind value raw fuzzy) :=
  (tracks_terminal anchored).grounds

theorem tracks_terminal_on {line : LineId} {kind : ConstantKind} {value : Text.Octets} {raw : String}
    {fuzzy : Int} (placed : Placed x.index here c) :
    Tracks x.index here (terminal x c line kind value raw fuzzy) (Placed x.index) :=
  (tracks_terminal placed.origin).weaken fun _ _ ended => ⟨ended.1 ▸ placed.register, ended.2⟩

theorem tracks_argumentsOf : Tracks x.index here (argumentsOf x s) fun _ arguments =>
    ∀ a ∈ arguments, a.register ∈ s.operation.registers := by
  unfold argumentsOf
  split
  · next found => exact .pure fun _ _ a inside => Instruction.register_mem_of_arguments found inside
  · exact .misshapen

theorem tracks_argumentOf (position : Int) : Tracks x.index here (argumentOf x s position) fun _ argument =>
    argument ∈ s.operation.registers := by
  unfold argumentOf
  split
  · next found => exact .pure fun _ _ => Instruction.argument_mem found
  · exact .misshapen

/-- The place right before a line can be asked for. -/
theorem known_before (known : register ∈ x.index.registers) (inside : s ∈ x.index.allSites) :
    .register register s.blockId ((s.position : Int) - 1) ∈ x.index.searchKeys :=
  Index.mem_searchKeys_of_site known inside (by omega) (by omega)

/-- The place right behind a line can be asked for. -/
theorem known_behind (known : register ∈ x.index.registers) (inside : s ∈ x.index.allSites) :
    .register register s.blockId ((s.position : Int) + 1) ∈ x.index.searchKeys :=
  Index.mem_searchKeys_of_site known inside (by omega) (by omega)

/-! ### Where values come from -/

theorem grounds_literalLoad (anchored : Anchored here c.origin) (raw : String) :
    Grounds x.index here (literalLoad x r c s raw) := by
  unfold literalLoad
  split
  · exact .misshapen
  · exact .unit (grounds_terminal anchored)

theorem grounds_opcodeValue (anchored : Anchored here c.origin) (value : String) :
    Grounds x.index here (opcodeValue x r c s value) :=
  .unit (grounds_terminal anchored)

theorem grounds_payloadLoad (anchored : Anchored here c.origin) (label : String) :
    Grounds x.index here (payloadLoad x r c s label) := by
  unfold payloadLoad
  split
  · exact .misshapen
  · refine Tracks.andThen (.mapM fun here raw => ?_) fun later _ grown =>
      .unit (grounds_terminal (anchored.mono grown))
    split
    · exact .done
    · exact .misshapen

theorem grounds_enterCaller (anchored : Anchored here c.origin) (inside : s ∈ x.index.allSites) (m : MethodId)
    (position : Int) : Grounds x.index here (enterCaller x r c m position s) := by
  unfold enterCaller
  split
  · exact .illogical
  · next argument found =>
    refine (tracks_addNode anchored).bind fun there id _ added => ?_
    refine (grounds_produceIf ..).andThen fun later _ grown => grounds_admitRegister ?_ ?_
    · exact Stands.anchored ⟨id, rfl, findIdx?_of_prefix added grown⟩
    · exact known_before (Index.mem_registers_of_site inside (Instruction.argument_mem found)) inside

section Index

variable (faithful : x.index.Faithful)
include faithful

theorem grounds_callers (anchored : Anchored here c.origin) (m : MethodId) (position : Int) :
    Grounds x.index here (callers x r c m position) := by
  unfold callers
  split
  · split
    · exact .done
    · exact .unit (grounds_terminal anchored)
  · exact .forM fun s inside => grounds_enterCaller anchored (faithful.mem_allSites_of_sitesOf inside) m position

theorem grounds_callersAtEntry (anchored : Anchored here c.origin) (b : BlockId) :
    Grounds x.index here (callersAtEntry x r c b) := by
  unfold callersAtEntry
  split
  · exact .done
  · split
    · exact .done
    · exact grounds_callers faithful anchored ..

omit faithful in
theorem grounds_libraryArguments (anchored : Anchored here c.origin) (inside : s ∈ x.index.allSites)
    (method : MethodRef) (skip : Option Register) : Grounds x.index here (libraryArguments x r c s method skip) := by
  refine tracks_argumentsOf.bind fun later arguments grown named => .forM fun a isArgument => ?_
  have known := Index.mem_registers_of_site inside (named a (List.mem_of_mem_filter isArgument))
  exact grounds_fork (anchored.mono grown) (known_before known inside)

omit faithful in
theorem grounds_callResult (placed : Placed x.index here c) (inside : s ∈ x.index.allSites) (method : MethodRef) :
    Grounds x.index here (callResult x r c s method) := by
  unfold callResult
  split
  · next callee found =>
    split
    · exact .unit (grounds_terminal placed.origin)
    · refine (tracks_step_to placed.origin placed.register).bind fun later c' _ placed' => ?_
      obtain ⟨id, _, isMethod⟩ := Option.bind_eq_some_iff.mp found
      obtain ⟨m, isMethod, same⟩ := Option.map_eq_some_iff.mp isMethod
      cases same
      exact grounds_admitContent placed'.origin (Index.mem_searchKeys_result (Index.mem_methodNames isMethod))
  · refine (tracks_terminal_on placed).bind fun later c' _ placed' => ?_
    exact grounds_libraryArguments placed'.origin inside method none

omit faithful in
theorem grounds_builtArray (anchored : Anchored here c.origin) (inside : s ∈ x.index.allSites)
    {elements : List Register} {type : String} (built : s.operation = .filledNewArray elements type) :
    Grounds x.index here (builtArray x r c s elements type) := by
  refine (tracks_step anchored).bind fun there c' _ stepped => ?_
  refine Tracks.andThen (.forM fun e isElement => ?_) fun later _ grown => ?_
  · have named : e ∈ s.operation.registers := by simpa [built, Operation.registers] using isElement
    exact grounds_fork stepped.2.anchored (known_before (Index.mem_registers_of_site inside named) inside)
  · split
    · exact .done
    · exact grounds_record (stepped.2.mono grown)

theorem grounds_pickedResult (placed : Placed x.index here c) : Grounds x.index here (pickedResult x r c s) := by
  unfold pickedResult
  split
  · exact .illogical
  · next p previous =>
    have inside := faithful.mem_allSites_of_previousExecutable? previous
    split
    · next built => exact grounds_builtArray placed.origin inside built
    · exact grounds_callResult placed inside _
    · exact .illogical

/-! ### Arrays -/

omit faithful in
theorem grounds_elementStore (anchored : Anchored here c.origin) (inside : s ∈ x.index.allSites)
    (call : Option Site) (array : Register) {value : Register} (known : value ∈ x.index.registers) :
    Grounds x.index here (elementStore r c call s array value) := by
  have stored : ∀ {there : List LineId} {c : Cursor}, Anchored there c.origin → Grounds x.index there (do
      let c ← step c s.id array array
      fork r c value s.blockId ((s.position : Int) - 1) r.fuzzy) := by
    intro there c anchored
    refine (tracks_step anchored).bind fun later c' _ stepped => ?_
    exact grounds_fork stepped.2.anchored (known_before known inside)
  unfold elementStore
  split
  · exact (tracks_step anchored).bind fun later c' _ stepped => stored stepped.2.anchored
  · exact stored anchored

omit faithful in
theorem grounds_storesInBlock (anchored : Anchored here c.origin) (array : Register) (call : Option Site)
    {sites : List Site} (inside : ∀ s ∈ sites, s ∈ x.index.allSites) :
    Grounds x.index here (storesInBlock x r c array call sites) := by
  induction sites generalizing here with
  | nil => exact .done
  | cons s sites ih =>
    have isSite := inside s (by simp)
    have rest : ∀ {later : List LineId}, here <+: later →
        Grounds x.index later (storesInBlock x r c array call sites) := fun grown =>
      ih (anchored.mono grown) fun t isRest => inside t (by simp [isRest])
    unfold storesInBlock
    split
    · next value target i isPut =>
      have known : value ∈ x.index.registers :=
        Index.mem_registers_of_site isSite (by simp [isPut, Operation.registers])
      split
      · exact (grounds_elementStore anchored isSite call array known).andThen fun _ _ => rest
      · exact rest List.prefix_rfl
    · split
      · refine (tracks_argumentOf _).bind fun there value grown named => ?_
        have known := Index.mem_registers_of_site isSite named
        exact (grounds_elementStore (anchored.mono grown) isSite call array known).andThen fun _ _ grown' =>
          rest (grown.trans grown')
      · exact rest List.prefix_rfl
    · split
      · exact .done
      · exact rest List.prefix_rfl

theorem inside_linesOn (b : BlockId) (position : Int) : ∀ s ∈ linesOn x b position, s ∈ x.index.allSites :=
  fun _ inside => faithful.mem_allSites_of_mem_sites (List.mem_of_mem_drop inside)

theorem inside_linesBack (b : BlockId) (position : Int) : ∀ s ∈ linesBack x b position, s ∈ x.index.allSites :=
  fun _ inside => faithful.mem_allSites_of_mem_sites (List.mem_of_mem_take (List.mem_reverse.mp inside))

theorem grounds_walkStores (anchored : Anchored here c.origin) (array : Register) (call : Option Site)
    (f : Frontier) (queue : List (BlockId × Int)) : Grounds x.index here (walkStores x r c array call f queue) := by
  induction f, queue using walkStores.induct x generalizing here with
  | case1 f => rw [walkStores]; exact .done
  | case2 f b position rest onward stay =>
    rw [walkStores]
    refine (grounds_storesInBlock anchored array call (inside_linesOn faithful b position)).andThen
      fun later holds grown => ?_
    split
    · exact onward (anchored.mono grown)
    · exact stay (anchored.mono grown)

theorem grounds_arrayStores (anchored : Anchored here c.origin) (array : Register) (call : Option Site)
    (b : BlockId) (position : Int) : Grounds x.index here (arrayStores x r c array call b position) :=
  grounds_walkStores faithful anchored ..

theorem grounds_argumentStores (anchored : Anchored here c.origin) (callee : MethodId) (position : Int) :
    Grounds x.index here (argumentStores x r c s callee position) := by
  refine .forM fun body _ => ?_
  split
  · exact .done
  · exact .illogical
  · exact grounds_arrayStores faithful anchored ..

theorem tracks_filledByCall (placed : Placed x.index here c) (method : MethodRef) (arguments : List Argument) :
    Tracks x.index here (filledByCall x r c s method arguments) (Placed x.index) := by
  unfold filledByCall
  split
  · exact placed.stays
  · split
    · exact (grounds_argumentStores faithful placed.origin ..).andThen fun later _ grown =>
        (placed.mono grown).stays
    · exact tracks_terminal_on placed

omit faithful in
theorem tracks_copiedFrom (placed : Placed x.index here c) (inside : s ∈ x.index.allSites)
    (redirect : Redirect) : Tracks x.index here (copiedFrom x r c s redirect) (Placed x.index) := by
  refine (tracks_argumentOf _).bind fun there source grown named => ?_
  refine (tracks_step_to (placed.origin.mono grown) placed.register).bind fun there' c' _ placed' => ?_
  have known := known_before (Index.mem_registers_of_site inside named) inside
  exact (grounds_fork placed'.origin known).andThen fun later _ grown' => (placed'.mono grown').stays

theorem tracks_arrayCall (placed : Placed x.index here c) (inside : s ∈ x.index.allSites) (method : MethodRef) :
    Tracks x.index here (arrayCall x r c s method) (Placed x.index) := by
  unfold arrayCall
  split
  · exact placed.stays
  · split
    · exact tracks_copiedFrom placed inside _
    · exact tracks_argumentsOf.bind fun later _ grown _ => tracks_filledByCall faithful (placed.mono grown) ..

omit faithful in
/-- A field that a line names can be asked for, and so can an array in it. -/
theorem known_field {field : FieldRef} (inside : s ∈ x.index.allSites) (named : s.operation.field? = some field)
    {kind : Content} (isField : kind ≠ .result) {search : ContentSearch}
    (isOwner : search.owner = (x.program.fieldTarget field).1)
    (isName : search.identifier = (x.program.fieldTarget field).2) : search.key kind ∈ x.index.searchKeys := by
  have names := Index.mem_searchKeys_field (Index.mem_fieldNames inside named)
  have name : search.name = (x.program.fieldTarget field).1 ++ "->" ++ (x.program.fieldTarget field).2 := by
    rw [ContentSearch.name, isOwner, isName]
  rw [ContentSearch.key, name]
  cases kind with
  | field => exact names.1
  | array => exact names.2
  | result => exact absurd rfl isField

theorem tracks_arrayLine (placed : Placed x.index here c) (inside : s ∈ x.index.allSites) :
    Tracks x.index here (arrayLine x r c s) (Left x.index) := by
  have anchored := placed.origin
  have arrayOf : ∀ {field : FieldRef}, s.operation.field? = some field → Tracks x.index here (do
      let c ← step c s.id c.register c.register
      admitContent .array (contentFrom r c s.id (x.program.fieldTarget field).1 (x.program.fieldTarget field).2
        c.register r.offset)
      pure none) (Left x.index) := by
    intro field named
    refine (tracks_step anchored).bind fun there c' _ stepped => .thenEnds ?_
    exact grounds_admitContent stepped.2.anchored (known_field inside named (by simp) rfl rfl)
  unfold arrayLine
  split
  · split
    · exact .thenEnds (grounds_opcodeValue anchored _)
    · exact placed.left
  · split
    · exact .thenEnds (grounds_payloadLoad anchored _)
    · exact placed.left
  · next value array i isPut =>
    split
    · refine (tracks_step_to anchored placed.register).bind fun there c' _ placed' => ?_
      have known : value ∈ x.index.registers :=
        Index.mem_registers_of_site inside (by simp [isPut, Operation.registers])
      exact (grounds_fork placed'.origin (known_before known inside)).andThen fun later _ grown =>
        (placed'.mono grown).left
    · exact placed.left
  · split
    · exact placed.left
    · split
      · exact .ends
      · exact .thenEnds (grounds_literalLoad anchored _)
  · split
    · exact .thenEnds (grounds_opcodeValue anchored _)
    · exact placed.left
  · next d source isMove =>
    split
    · have known : source ∈ x.index.registers :=
        Index.mem_registers_of_site inside (by simp [isMove, Operation.registers])
      exact .some (tracks_step_to anchored known)
    · exact placed.left
  · next d source i isGet =>
    split
    · have known : source ∈ x.index.registers :=
        Index.mem_registers_of_site inside (by simp [isGet, Operation.registers])
      exact .some (tracks_step_to anchored known)
    · exact placed.left
  · next d field isGet =>
    split
    · exact arrayOf (by simp [isGet, Operation.field?])
    · exact placed.left
  · next d object field isGet =>
    split
    · exact arrayOf (by simp [isGet, Operation.field?])
    · exact placed.left
  · split
    · have known : .register c.register s.blockId (s.position : Int) ∈ x.index.searchKeys :=
        Index.mem_searchKeys_of_site placed.register inside (by omega) (by omega)
      exact .thenEnds (grounds_fork anchored known)
    · exact placed.left
  · exact .some (tracks_arrayCall faithful placed inside _)
  · split
    · exact .thenEnds (grounds_opcodeValue anchored _)
    · exact placed.left

theorem tracks_arrayLines (placed : Placed x.index here c) {sites : List Site}
    (inside : ∀ s ∈ sites, s ∈ x.index.allSites) : Tracks x.index here (arrayLines x r c sites) (Left x.index) := by
  induction sites generalizing here c with
  | nil => exact placed.left
  | cons s sites ih =>
    refine (tracks_arrayLine faithful placed (inside s (by simp))).bind fun later left _ goesOn => ?_
    split
    · exact ih (goesOn _ rfl) fun t isRest => inside t (by simp [isRest])
    · exact .ends

theorem grounds_walkArray (f : Frontier) (queue : List ArrayFrame)
    (follow : ∀ frame ∈ queue, Placed x.index here frame.cursor) : Grounds x.index here (walkArray x r f queue) := by
  induction f, queue using walkArray.induct x generalizing here with
  | case1 f => rw [walkArray]; exact .done
  | case2 f frame rest stay onward =>
    rw [walkArray]
    have others : ∀ {later : List LineId}, here <+: later → ∀ frame ∈ rest, Placed x.index later frame.cursor :=
      fun grown frame waits => (follow frame (by simp [waits])).mono grown
    have inside := inside_linesBack faithful frame.block frame.index
    refine (tracks_arrayLines faithful (follow frame (by simp)) inside).bind fun there left grown goesOn => ?_
    split
    · exact stay (others grown)
    · next c =>
      have placed : Placed x.index there c := goesOn c rfl
      refine (grounds_callersAtEntry faithful placed.origin _).andThen fun later _ grown' => onward c ?_
      intro frame' waits
      rcases List.mem_append.mp waits with old | new
      · exact others (grown.trans grown') frame' old
      · obtain ⟨i, _, rfl⟩ := List.mem_map.mp new
        exact placed.mono grown'

theorem grounds_arrayOrigin (placed : Placed x.index here c) (b : BlockId) (position : Int) :
    Grounds x.index here (arrayOrigin x r c b position) := by
  refine grounds_walkArray faithful _ _ fun frame waits => ?_
  obtain rfl := List.mem_singleton.mp waits
  exact placed

/-! ### Backward searches -/

theorem tracks_backwardCall (placed : Placed x.index here c) (inside : s ∈ x.index.allSites)
    (method : MethodRef) : Tracks x.index here (backwardCall x r c s method) (Placed x.index) := by
  unfold backwardCall
  split
  · exact placed.stays
  · refine tracks_argumentsOf.bind fun there arguments grown _ => ?_
    have placed := placed.mono grown
    split
    · exact tracks_copiedFrom placed inside _
    · dsimp only
      split
      · refine (tracks_step_to placed.origin placed.register).bind fun there' c' _ placed' => ?_
        exact (grounds_libraryArguments placed'.origin inside method _).andThen fun later _ grown' =>
          (placed'.mono grown').stays
      · exact tracks_filledByCall faithful placed ..

omit faithful in
theorem tracks_backwardMath (anchored : Anchored here c.origin) (inside : s ∈ x.index.allSites)
    {left right : Register} (isLeft : left ∈ s.operation.registers) (isRight : right ∈ s.operation.registers) :
    Tracks x.index here (backwardMath r c s left right) (Left x.index) := by
  have known := Index.mem_registers_of_site inside isLeft
  refine (tracks_step_to anchored known).bind fun there c' _ placed => ?_
  dsimp only
  split
  · have known' := known_before (Index.mem_registers_of_site inside isRight) inside
    exact (grounds_fork placed.origin known').andThen fun later _ grown => (placed.mono grown).left
  · exact placed.left

omit faithful in
theorem grounds_backwardFieldRead (placed : Placed x.index here c) (inside : s ∈ x.index.allSites)
    {field : FieldRef} (named : s.operation.field? = some field) :
    Grounds x.index here (backwardFieldRead x r c s field) := by
  unfold backwardFieldRead
  rcases target : x.program.fieldTarget field with ⟨owner, name⟩
  refine (tracks_step placed.origin).bind fun there c' _ stepped => ?_
  split
  · exact .done
  · exact grounds_admitContent stepped.2.anchored
      (known_field inside named (by simp) (by simp [contentFrom, target]) (by simp [contentFrom, target]))

theorem tracks_backwardDefinition (placed : Placed x.index here c) (inside : s ∈ x.index.allSites) :
    Tracks x.index here (backwardDefinition x r c s) (Left x.index) := by
  have anchored := placed.origin
  have known : ∀ {register : Register}, register ∈ s.operation.registers → register ∈ x.index.registers :=
    Index.mem_registers_of_site inside
  unfold backwardDefinition
  split
  · next isMove => exact .some (tracks_step_to anchored (known (by simp [isMove, Operation.registers])))
  · next isMath => exact .some (tracks_step_to anchored (known (by simp [isMath, Operation.registers])))
  · next d source raw isMath =>
    refine (tracks_step anchored).bind fun there c' _ stepped => ?_
    split
    · exact .misshapen
    · refine (grounds_record stepped.2).andThen fun later _ grown => Placed.left ⟨?_, ?_⟩
      · exact stepped.1 ▸ known (by simp [isMath, Operation.registers])
      · exact (stepped.2.mono grown).anchored
  · next isMath =>
    exact tracks_backwardMath anchored inside (by simp [isMath, Operation.registers])
      (by simp [isMath, Operation.registers])
  · next isMath =>
    exact tracks_backwardMath anchored inside (by simp [isMath, Operation.registers])
      (by simp [isMath, Operation.registers])
  · next isGet =>
    refine (tracks_step_to anchored (known (by simp [isGet, Operation.registers]))).bind fun there c' _ placed' => ?_
    exact .thenEnds (grounds_arrayOrigin faithful placed' ..)
  · exact .thenEnds (grounds_pickedResult faithful placed)
  · exact .thenEnds (grounds_literalLoad anchored _)
  iterate 3 exact .thenEnds (grounds_opcodeValue anchored _)
  · next isGet => exact .thenEnds (grounds_backwardFieldRead placed inside (by simp [isGet, Operation.field?]))
  · next isGet => exact .thenEnds (grounds_backwardFieldRead placed inside (by simp [isGet, Operation.field?]))
  · exact .thenEnds (grounds_opcodeValue anchored _)

theorem tracks_backwardLine (placed : Placed x.index here c) (inside : s ∈ x.index.allSites) :
    Tracks x.index here (backwardLine x r c s) (Left x.index) := by
  unfold backwardLine
  split
  · exact tracks_backwardDefinition faithful placed inside
  · split
    iterate 2
      split
      · exact placed.left
      · exact .illogical
    · split
      · exact .thenEnds (grounds_payloadLoad placed.origin _)
      · exact placed.left
    · next value array i isPut =>
      split
      · refine (tracks_step_to placed.origin placed.register).bind fun there c' _ placed' => ?_
        have known : value ∈ x.index.registers :=
          Index.mem_registers_of_site inside (by simp [isPut, Operation.registers])
        exact (grounds_fork placed'.origin (known_before known inside)).andThen fun later _ grown =>
          (placed'.mono grown).left
      · exact placed.left
    · exact .some (tracks_backwardCall faithful placed inside _)
    · exact placed.left

theorem tracks_backwardLines (placed : Placed x.index here c) {sites : List Site}
    (inside : ∀ s ∈ sites, s ∈ x.index.allSites) :
    Tracks x.index here (backwardLines x r c sites) (Left x.index) := by
  induction sites generalizing here c with
  | nil => exact placed.left
  | cons s sites ih =>
    refine (tracks_backwardLine faithful placed (inside s (by simp))).bind fun later left _ goesOn => ?_
    split
    · exact ih (goesOn _ rfl) fun t isRest => inside t (by simp [isRest])
    · exact .ends

theorem known_neighbour {b : BlockId} {n : Nat} {side : BlockGraph.Block → List Nat}
    (isSide : side = (·.preds) ∨ side = (·.succs)) (inside : n ∈ neighbours x b side)
    (known : register ∈ x.index.registers) {i : Int} (isEnd : i = 0 ∨ i = lastPosition x ⟨b.method, n⟩) :
    .register register ⟨b.method, n⟩ i ∈ x.index.searchKeys := by
  obtain ⟨block, found⟩ := faithful.mem_blocks_of_neighbours rfl isSide inside
  refine Index.mem_searchKeys_register.mpr ⟨known, faithful.mem_blocks_of_block? found, ?_⟩
  refine (Index.positions_of_block found).mpr ?_
  rcases isEnd with rfl | rfl
  · exact ⟨by omega, by omega⟩
  · simp only [lastPosition, found, Option.map_some, Option.getD_some]
    exact ⟨by omega, by omega⟩

theorem grounds_blockTop (placed : Placed x.index here c) : Grounds x.index here (blockTop x r c) := by
  refine Tracks.andThen (.forM fun i inside => ?_) fun later _ grown =>
    grounds_callersAtEntry faithful (placed.origin.mono grown) _
  exact grounds_admitRegister placed.origin (known_neighbour faithful (.inl rfl) inside placed.register (.inr rfl))

theorem grounds_backwardRegister (placed : Placed x.index here r.cursor) :
    Grounds x.index here (backwardRegister x r) := by
  have inside := inside_linesBack faithful r.block r.index
  refine (tracks_backwardLines faithful placed inside).bind fun later left _ goesOn => ?_
  split
  · exact grounds_blockTop faithful (goesOn _ rfl)
  · exact .done

variable {search : ContentSearch} (anchored : Anchored here search.origin)
include anchored

omit faithful in
theorem grounds_foreignField : Grounds x.index here (foreignField x search) := .unit (grounds_terminal anchored)

omit anchored in
theorem mem_fieldStores {key : String} {store : Site × Register} (inside : store ∈ fieldStores x key) :
    store.1 ∈ x.index.allSites ∧ store.2 ∈ x.index.registers := by
  obtain ⟨s, isWrite, made⟩ := List.mem_filterMap.mp inside
  have isSite := faithful.mem_allSites_of_sitesOf isWrite
  split at made
  · next isPut =>
    cases made
    exact ⟨isSite, Index.mem_registers_of_site isSite (by simp [isPut, Operation.registers])⟩
  · next isPut =>
    cases made
    exact ⟨isSite, Index.mem_registers_of_site isSite (by simp [isPut, Operation.registers])⟩
  · simp at made

omit anchored in
theorem mem_fieldLoads {key : String} {load : Site × Register} (inside : load ∈ fieldLoads x key) :
    load.1 ∈ x.index.allSites ∧ load.2 ∈ x.index.registers := by
  obtain ⟨s, isRead, made⟩ := List.mem_filterMap.mp inside
  have isSite := faithful.mem_allSites_of_sitesOf isRead
  obtain ⟨d, defined, rfl⟩ := Option.map_eq_some_iff.mp made
  exact ⟨isSite, Index.mem_registers_of_site isSite (Operation.mem_registers_of_result? defined)⟩

theorem grounds_backwardField : Grounds x.index here (backwardField x search) := by
  refine Tracks.andThen (.forM fun store inside => ?_) fun later _ grown => ?_
  · obtain ⟨isSite, known⟩ := mem_fieldStores faithful inside
    refine (tracks_step (by exact anchored)).bind fun later c' _ stepped => ?_
    exact grounds_fork stepped.2.anchored (known_before known isSite)
  · split
    · split
      · exact grounds_foreignField (anchored.mono grown)
      · exact .done
    · split
      · split
        · exact .misshapen
        · exact .unit (grounds_terminal (by exact anchored.mono grown))
      · exact .done

theorem grounds_backwardArrayField : Grounds x.index here (backwardArrayField x search) := by
  refine Tracks.andThen (.forM fun store inside => ?_) fun there _ grown => ?_
  · obtain ⟨_, known⟩ := mem_fieldStores faithful inside
    refine (tracks_step_to (by exact anchored) known).bind fun later c' _ placed => ?_
    exact grounds_arrayOrigin faithful placed ..
  · refine Tracks.andThen (.forM fun load inside => ?_) fun later _ grown' => ?_
    · refine (tracks_step (by exact anchored.mono grown)).bind fun later c' _ stepped => ?_
      exact grounds_arrayStores faithful stepped.2.anchored ..
    · split
      · exact grounds_foreignField (anchored.mono (grown.trans grown'))
      · exact .done

omit anchored in
theorem mem_returnedValues {m : MethodId} {value : Site × Register} (inside : value ∈ returnedValues x m) :
    value.1 ∈ x.index.allSites ∧ value.2 ∈ x.index.registers := by
  obtain ⟨body, _, inside⟩ := List.mem_flatMap.mp inside
  obtain ⟨s, returns, made⟩ := List.mem_filterMap.mp inside
  have isSite := faithful.mem_allSites_of_sitesOf returns
  split at made
  · next isReturn =>
    cases made
    exact ⟨isSite, Index.mem_registers_of_site isSite (by simp [isReturn, Operation.registers])⟩
  · simp at made

theorem grounds_backwardResult : Grounds x.index here (backwardResult x search) := by
  unfold backwardResult
  split
  · exact .unit (grounds_terminal (by exact anchored))
  · refine .forM fun value inside => ?_
    have inside : ∃ m, value ∈ returnedValues x m := by
      cases tracked : trackedMethod? x search with
      | none => simp [tracked] at inside
      | some m => exact ⟨m, by simpa [tracked] using inside⟩
    obtain ⟨m, inside⟩ := inside
    obtain ⟨isSite, known⟩ := mem_returnedValues faithful inside
    refine (tracks_step (by exact anchored)).bind fun later c' _ stepped => ?_
    exact grounds_admitRegister stepped.2.anchored (known_before known isSite)

/-! ### Forward searches -/

omit anchored in
theorem grounds_followPickUp (anchored : Anchored here c.origin) (fuzzy : Int) :
    Grounds x.index here (followPickUp x r c s fuzzy) := by
  unfold followPickUp
  split
  · exact .done
  · next found =>
    obtain ⟨isSite, known⟩ := faithful.mem_of_pickUp? found
    exact grounds_fork anchored (known_behind known isSite)

omit anchored in
theorem grounds_enterBody (anchored : Anchored here c.origin) (arguments : List Argument) {body : MethodId}
    (hasBody : x.index.hasBody body = true) : Grounds x.index here (enterBody x r c s arguments body) := by
  refine .forM fun a _ => ?_
  split
  · exact .done
  · exact .illogical
  · next parameter found =>
    obtain ⟨m, isMethod, isParameter⟩ := Option.map_eq_some_iff.mp found
    have known := Index.mem_registers_of_param isMethod isParameter
    exact grounds_admitRegister anchored (faithful.mem_searchKeys_of_start known hasBody)

omit anchored in
theorem grounds_forwardCall (placed : Placed x.index here c) (inside : s ∈ x.index.allSites)
    (method : MethodRef) : Grounds x.index here (forwardCall x r c s method) := by
  unfold forwardCall
  split
  · refine (tracks_argumentOf _).bind fun there target grown named => ?_
    refine (tracks_step (placed.origin.mono grown)).bind fun later c' _ stepped => ?_
    exact grounds_fork stepped.2.anchored (known_behind (Index.mem_registers_of_site inside named) inside)
  · refine tracks_argumentsOf.bind fun there arguments grown _ => ?_
    have placed := placed.mono grown
    dsimp only
    split
    · refine (tracks_step placed.origin).bind fun later c' _ stepped => .forM fun body isBody => ?_
      exact grounds_enterBody faithful stepped.2.anchored _ (List.mem_filter.mp isBody).2
    · refine (tracks_terminal_on placed).bind fun later c' _ placed' => ?_
      exact grounds_followPickUp faithful placed'.origin _

omit faithful anchored in
theorem field?_of_definition? {array : Register} {target : String × String}
    (faithful : x.index.Faithful) (found : arrayField? x s array = some target) :
    ∃ d field, d ∈ x.index.allSites ∧ d.operation.field? = some field ∧ target = x.program.fieldTarget field := by
  obtain ⟨d, isDefinition, found⟩ := Option.bind_eq_some_iff.mp found
  obtain ⟨field, isField, made⟩ := Option.bind_eq_some_iff.mp found
  cases made
  exact ⟨d, field, faithful.mem_allSites_of_definition? isDefinition, isField, rfl⟩

omit anchored in
theorem grounds_forwardElement (anchored : Anchored here c.origin) (inside : s ∈ x.index.allSites)
    {array : Register} (named : array ∈ s.operation.registers) :
    Grounds x.index here (forwardElement x r c s array) := by
  refine (tracks_step anchored).bind fun later c' _ stepped => ?_
  split
  · next owner name found =>
    obtain ⟨d, field, isSite, isField, same⟩ := field?_of_definition? faithful found
    have names := Prod.mk.inj same
    exact grounds_admitContent stepped.2.anchored (known_field isSite isField (by simp) names.1 names.2)
  · exact grounds_fork stepped.2.anchored (known_behind (Index.mem_registers_of_site inside named) inside)

omit faithful anchored in
theorem grounds_forwardStore (anchored : Anchored here c.origin) (inside : s ∈ x.index.allSites)
    {field : FieldRef} (named : s.operation.field? = some field) :
    Grounds x.index here (forwardStore x r c s field) := by
  refine (tracks_step anchored).bind fun later c' _ stepped => ?_
  exact grounds_admitContent stepped.2.anchored (known_field inside named (by simp) rfl rfl)

omit faithful anchored in
theorem grounds_forwardResult (anchored : Anchored here c.origin) (inside : s ∈ x.index.allSites)
    {result : Register} (named : result ∈ s.operation.registers) :
    Grounds x.index here (forwardResult r c s result) := by
  refine (tracks_step anchored).bind fun later c' _ stepped => ?_
  exact grounds_fork stepped.2.anchored (known_behind (Index.mem_registers_of_site inside named) inside)

omit faithful anchored in
theorem grounds_forwardReturn (anchored : Anchored here c.origin) : Grounds x.index here (forwardReturn x r c s) := by
  refine (tracks_step anchored).bind fun later c' _ stepped => ?_
  split
  · exact .done
  · next m isMethod =>
    split
    · exact grounds_admitContent stepped.2.anchored (Index.mem_searchKeys_result (Index.mem_methodNames isMethod))
    · exact .done

omit anchored in
theorem grounds_forwardUse (placed : Placed x.index here c) (inside : s ∈ x.index.allSites) :
    Grounds x.index here (forwardUse x r c s) := by
  have anchored := placed.origin
  unfold forwardUse
  split
  iterate 10
    next isUse =>
    exact (grounds_forwardResult anchored inside (by simp [isUse, Operation.registers])).andThen fun _ _ _ => .done
  · next isPut =>
    split
    · exact (grounds_forwardElement faithful anchored inside (by simp [isPut, Operation.registers])).andThen
        fun _ _ _ => .done
    · exact .done
  iterate 2
    next isPut =>
    split
    · exact (grounds_forwardStore anchored inside (by simp [isPut, Operation.field?])).andThen fun _ _ _ => .done
    · exact .done
  · refine (tracks_step anchored).bind fun later c' _ stepped => ?_
    exact (grounds_followPickUp faithful stepped.2.anchored _).andThen fun _ _ _ => .done
  · exact (grounds_forwardReturn anchored).andThen fun _ _ _ => .done
  · exact (grounds_forwardCall faithful placed inside _).andThen fun _ _ _ => .done
  · exact .done

omit anchored in
theorem grounds_forwardLines (placed : Placed x.index here c) {sites : List Site}
    (inside : ∀ s ∈ sites, s ∈ x.index.allSites) : Grounds x.index here (forwardLines x r c sites) := by
  induction sites generalizing here with
  | nil => exact .done
  | cons s sites ih =>
    have rest : ∀ {later : List LineId} (goesOn : Bool), here <+: later → Grounds x.index later
        (if goesOn && !s.operation.defines c.register then forwardLines x r c sites else pure false) := by
      intro later goesOn grown
      split
      · exact ih (placed.mono grown) fun t isRest => inside t (by simp [isRest])
      · exact .done
    unfold forwardLines
    split
    · exact (grounds_forwardUse faithful placed (inside s (by simp))).andThen fun _ goesOn grown => rest goesOn grown
    · exact rest true List.prefix_rfl

omit anchored in
theorem grounds_forwardRegister (placed : Placed x.index here r.cursor) :
    Grounds x.index here (forwardRegister x r) := by
  have inside := inside_linesOn faithful r.block r.index
  refine (grounds_forwardLines faithful placed inside).andThen fun later goesOn grown => ?_
  split
  · refine .forM fun i isNext => grounds_admitRegister (placed.origin.mono grown) ?_
    exact known_neighbour faithful (.inr rfl) isNext placed.register (.inl rfl)
  · exact .done

theorem grounds_forwardField : Grounds x.index here (forwardField x search) := by
  refine .forM fun load inside => ?_
  obtain ⟨isSite, known⟩ := mem_fieldLoads faithful inside
  refine (tracks_step (by exact anchored)).bind fun later c' _ stepped => ?_
  exact grounds_admitRegister stepped.2.anchored (known_behind known isSite)

theorem grounds_forwardCallers : Grounds x.index here (forwardCallers x search) := by
  unfold forwardCallers
  split
  · exact .done
  · refine .forM fun s _ => ?_
    split
    · exact .done
    · next found =>
      obtain ⟨isSite, known⟩ := faithful.mem_of_pickUp? found
      refine (tracks_step (by exact anchored)).bind fun there c' _ stepped => ?_
      refine (tracks_step stepped.2.anchored).bind fun later c'' _ stepped' => ?_
      exact grounds_admitRegister stepped'.2.anchored (known_behind known isSite)

end Index

/-! ### Items -/

/-- Every item that continues from a node of the slice, under a key of the program, is grounded. -/
theorem Item.grounds_perform (faithful : x.index.Faithful) {item : Item} (anchored : Anchored here item.origin)
    (known : item.key ∈ x.index.searchKeys) : Grounds x.index here (item.perform x) := by
  cases item with
  | register r =>
    have placed : Placed x.index here r.cursor := ⟨(Index.mem_searchKeys_register.mp known).1, anchored⟩
    rw [Item.perform, searchRegister]
    split
    · exact grounds_forwardRegister faithful placed
    · exact grounds_backwardRegister faithful placed
  | content kind search =>
    rw [Item.perform]
    unfold searchContent
    split
    · exact grounds_forwardField faithful anchored
    · exact grounds_forwardField faithful anchored
    · exact grounds_backwardField faithful anchored
    · exact grounds_backwardArrayField faithful anchored
    · exact grounds_forwardCallers faithful anchored
    · exact grounds_backwardResult faithful anchored

end SmaliTrace.Slice
