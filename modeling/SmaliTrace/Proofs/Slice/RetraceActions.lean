import SmaliTrace.Proofs.Slice.Retrace

/-!
The walks of a search of a part, done again in the whole: over arrays, back to where values come from, and on to
where they go.
-/
namespace SmaliTrace.Slice
open SmaliTrace.Smali SmaliTrace.ClassFile

variable {f : Nat → Nat} {x : Context} {whole : Index} (embeds : x.index.Embeds f whole) {r : RegisterSearch}
  {place : BlockId} {c : Cursor} {s : Site}
include embeds

/-! ### Blocks and fields -/

theorem neighbours_onto (b : BlockId) (side : BlockGraph.Block → List Nat) :
    neighbours (x.onto whole) (b.rename f) side = neighbours x b side := by
  unfold neighbours
  rw [Context.index_onto, embeds.block?]

theorem lastPosition_onto (b : BlockId) : lastPosition (x.onto whole) (b.rename f) = lastPosition x b := by
  unfold lastPosition
  rw [Context.index_onto, embeds.block?]

theorem linesBack_onto (b : BlockId) (index : Int) :
    linesBack (x.onto whole) (b.rename f) index = (linesBack x b index).map (Site.rename f) := by
  unfold linesBack
  rw [Context.index_onto, embeds.sites, ← List.map_take, ← List.map_reverse]

theorem linesOn_onto (b : BlockId) (index : Int) :
    linesOn (x.onto whole) (b.rename f) index = (linesOn x b index).map (Site.rename f) := by
  unfold linesOn
  rw [Context.index_onto, embeds.sites, ← List.map_drop]

omit embeds in
theorem holds_of_mem_linesBack {b : BlockId} {index : Int} (inside : s ∈ linesBack x b index) : x.program.Holds s :=
  Index.holds_of_mem_sites (List.mem_of_mem_take (List.mem_reverse.mp inside))

omit embeds in
theorem holds_of_mem_linesOn {b : BlockId} {index : Int} (inside : s ∈ linesOn x b index) : x.program.Holds s :=
  Index.holds_of_mem_sites (List.mem_of_mem_drop inside)

theorem bodies_onto (m : MethodId) :
    ((x.onto whole).index.implementations (m.rename f)).filter (x.onto whole).index.hasBody =
      ((x.index.implementations m).filter x.index.hasBody).map (MethodId.rename f) := by
  rw [Context.index_onto, embeds.implementations, List.filter_map]
  congr 2
  funext body
  exact embeds.hasBody body

/-- A search for the field that a line accesses is about the same field. -/
theorem agrees_field (holds : x.program.Holds s) {field : FieldRef} (accesses : s.operation.field? = some field)
    {kind : Content} (isField : kind ≠ .result) {q : ContentSearch}
    (target : (q.owner, q.identifier) = x.program.fieldTarget field) : Item.Agrees f x whole (.content kind q) := by
  have resolves := embeds.resolveField? holds accesses
  have same : trackedField? (x.onto whole) q =
      (trackedField? x q).map (Prod.map (LineId.rename f) id) := by
    rw [← show x.program.fieldTarget field = x.index.program.fieldTarget field from rfl, ← target] at resolves
    unfold trackedField?
    rw [Context.program_onto, resolves, show x.program = x.index.program from rfl]
    cases x.index.program.resolveField? q.owner q.identifier with
    | none => rfl
    | some found =>
      simp only [Option.map_some, Option.bind_eq_bind, Option.bind_some, Prod.map, id, embeds.field?]
      cases x.index.program.field? found.1 found.2 <;> rfl
  cases kind with
  | result => exact absurd rfl isField
  | field => exact same
  | array => exact same

theorem fieldTarget_onto (holds : x.program.Holds s) {field : FieldRef}
    (accesses : s.operation.field? = some field) :
    (x.onto whole).program.fieldTarget field = x.program.fieldTarget field :=
  embeds.fieldTarget holds accesses

/-! ### Arrays -/

theorem retraces_elementStore (call : Option Site) (array value : Register) :
    Retraces f x whole (elementStore r c call s array value)
      (elementStore (r.moved place) c (call.map (Site.rename f)) (s.rename f) array value) := by
  unfold elementStore
  cases call with
  | none =>
    exact (Retraces.pure c).bind fun _ => (retraces_step embeds ..).bind fun _ => retraces_fork embeds ..
  | some call =>
    exact (retraces_step embeds ..).bind fun _ => (retraces_step embeds ..).bind fun _ => retraces_fork embeds ..

theorem retraces_storesInBlock (array : Register) (call : Option Site) (sites : List Site) :
    Retraces f x whole (storesInBlock x r c array call sites)
      (storesInBlock (x.onto whole) (r.moved place) c array (call.map (Site.rename f)) (sites.map (Site.rename f))) := by
  induction sites with
  | nil => exact .pure _
  | cons s sites ih =>
    rw [List.map_cons]
    unfold storesInBlock
    rw [show redirectInto? (x.onto whole) (s.rename f) array = redirectInto? x s array from rfl,
      show (s.rename f).operation = s.operation from rfl]
    cases s.operation with
    | arrayPut value target _ =>
      dsimp only
      split
      · exact (retraces_elementStore embeds call array value).bind fun _ => ih
      · exact ih
    | invoke _ _ =>
      cases redirectInto? x s array with
      | none => exact ih
      | some redirect =>
        exact (retraces_argumentOf embeds redirect.src).bind fun value =>
          (retraces_elementStore embeds call array value).bind fun _ => ih
    | _ =>
      dsimp only
      split
      · exact .pure _
      · exact ih

theorem retraces_walkStores (array : Register) (call : Option Site) (frontier : Frontier)
    (queue : List (BlockId × Int)) :
    Retraces f x whole (walkStores x r c array call frontier queue)
      (walkStores (x.onto whole) (r.moved place) c array (call.map (Site.rename f)) frontier
        (queue.map (Prod.map (BlockId.rename f) id))) := by
  induction frontier, queue using walkStores.induct x with
  | case1 frontier =>
    rw [List.map_nil, walkStores, walkStores]
    exact .pure _
  | case2 frontier b index rest onward stay =>
    rw [List.map_cons, Prod.map, walkStores, walkStores, linesOn_onto embeds, neighbours_onto embeds]
    refine (retraces_storesInBlock embeds array call _).bind fun holds => ?_
    split
    · dsimp only at onward
      rw [List.map_append, List.map_map] at onward
      exact onward
    · exact stay

theorem retraces_arrayStores (array : Register) (call : Option Site) (b : BlockId) (index : Int) :
    Retraces f x whole (arrayStores x r c array call b index)
      (arrayStores (x.onto whole) (r.moved place) c array (call.map (Site.rename f)) (b.rename f) index) :=
  retraces_walkStores embeds array call _ [(b, index)]

theorem retraces_argumentStores (callee : MethodId) (index : Int) :
    Retraces f x whole (argumentStores x r c s callee index)
      (argumentStores (x.onto whole) (r.moved place) c (s.rename f) (callee.rename f) index) := by
  unfold argumentStores
  rw [bodies_onto embeds]
  refine .forM_map fun body _ => ?_
  rw [method?_onto embeds]
  rcases (x.program.method? body).map (Method.paramRegister · index) with _ | (e | register)
  · exact .pure _
  · exact retraces_illogical embeds ..
  · exact retraces_arrayStores embeds register (some s) ⟨body, 0⟩ 0

section Call

variable {method : MethodRef} (holds : x.program.Holds s) (calls : s.operation.method? = some method)
include holds calls

theorem retraces_filledByCall (arguments : List Argument) :
    Retraces f x whole (filledByCall x r c s method arguments)
      (filledByCall (x.onto whole) (r.moved place) c (s.rename f) method arguments) := by
  unfold filledByCall
  rw [Context.index_onto, embeds.resolve? holds calls]
  cases arguments with
  | nil => exact .pure _
  | cons a _ =>
    dsimp only
    cases x.index.resolve? method with
    | none => exact retraces_terminal embeds ..
    | some callee => exact (retraces_argumentStores embeds callee a.index).bind fun _ => .pure _

omit holds calls in
theorem retraces_copiedFrom (redirect : Redirect) :
    Retraces f x whole (copiedFrom x r c s redirect)
      (copiedFrom (x.onto whole) (r.moved place) c (s.rename f) redirect) :=
  (retraces_argumentOf embeds redirect.src).bind fun _ => (retraces_step embeds ..).bind fun _ =>
    (retraces_fork embeds ..).bind fun _ => .pure _

theorem retraces_arrayCall :
    Retraces f x whole (arrayCall x r c s method)
      (arrayCall (x.onto whole) (r.moved place) c (s.rename f) method) := by
  unfold arrayCall
  rw [show isAskedFor (x.onto whole) (s.rename f) = isAskedFor x s from rfl,
    show redirectInto? (x.onto whole) (s.rename f) c.register = redirectInto? x s c.register from rfl,
    show (s.rename f).operation = s.operation from rfl]
  split
  · exact .pure _
  · cases redirectInto? x s c.register with
    | some redirect => exact retraces_copiedFrom embeds redirect
    | none => exact (retraces_argumentsOf embeds).bind fun _ => retraces_filledByCall embeds holds calls _

end Call

/-- A field access asks for the content of the field. -/
theorem retraces_fieldAccess (holds : x.program.Holds s) {field : FieldRef}
    (accesses : s.operation.field? = some field) {kind : Content} (isField : kind ≠ .result) (register : Register) :
    Retraces f x whole
      (admitContent kind (contentFrom r c s.id (x.program.fieldTarget field).1 (x.program.fieldTarget field).2
        register r.offset))
      (admitContent kind (contentFrom (r.moved place) c (s.rename f).id ((x.onto whole).program.fieldTarget field).1
        ((x.onto whole).program.fieldTarget field).2 register r.offset)) := by
  rw [fieldTarget_onto embeds holds accesses]
  exact retraces_admitContent embeds (by exact agrees_field embeds holds accesses isField rfl)

theorem retraces_arrayLine (holds : x.program.Holds s) :
    Retraces f x whole (arrayLine x r c s) (arrayLine (x.onto whole) (r.moved place) c (s.rename f)) := by
  have ended : ∀ {a b : SearchM Unit}, Retraces f x whole a b →
      Retraces f x whole (do a; pure (none : Option Cursor)) (do b; pure none) :=
    fun retraces => retraces.bind fun _ => .pure _
  unfold arrayLine
  rw [show (s.rename f).operation = s.operation from rfl]
  cases does : s.operation with
  | newArray d _ type | constClass d type =>
    dsimp only
    split
    · exact ended (retraces_opcodeValue embeds type)
    · exact .pure _
  | fillArrayData array label =>
    dsimp only
    split
    · exact ended (retraces_payloadLoad embeds label)
    · exact .pure _
  | arrayPut value array _ =>
    dsimp only
    split
    · exact (retraces_step embeds ..).bind fun _ => (retraces_fork embeds ..).bind fun _ => .pure _
    · exact .pure _
  | constLiteral d literal =>
    dsimp only
    split
    · exact .pure _
    · split
      · exact .pure _
      · exact ended (retraces_literalLoad embeds literal)
  | move d source | arrayGet d source _ =>
    dsimp only
    split
    · exact (retraces_step embeds ..).map _
    · exact .pure _
  | staticGet d field | instanceGet d _ field =>
    dsimp only
    split
    · refine (retraces_step embeds ..).bind fun c => ended ?_
      exact retraces_fieldAccess embeds holds (by rw [does]; rfl) (by decide) c.register
    · exact .pure _
  | moveResult d =>
    dsimp only
    split
    · exact ended (retraces_fork embeds ..)
    · exact .pure _
  | invoke _ method => exact (retraces_arrayCall embeds holds (by rw [does]; rfl)).map _
  | _ =>
    dsimp only
    split
    · exact ended (retraces_opcodeValue embeds _)
    · exact .pure _

theorem retraces_arrayLines (sites : List Site) (holds : ∀ s ∈ sites, x.program.Holds s) :
    Retraces f x whole (arrayLines x r c sites)
      (arrayLines (x.onto whole) (r.moved place) c (sites.map (Site.rename f))) := by
  induction sites generalizing c with
  | nil => exact .pure _
  | cons s sites ih =>
    refine (retraces_arrayLine embeds (holds s (by simp))).bind fun left => ?_
    cases left with
    | some c => exact ih fun other inside => holds other (by simp [inside])
    | none => exact .pure _

def ArrayFrame.rename (f : Nat → Nat) (frame : ArrayFrame) : ArrayFrame :=
  { frame with block := frame.block.rename f }

theorem retraces_walkArray (frontier : Frontier) (queue : List ArrayFrame) :
    Retraces f x whole (walkArray x r frontier queue)
      (walkArray (x.onto whole) (r.moved place) frontier (queue.map (ArrayFrame.rename f))) := by
  induction frontier, queue using walkArray.induct x with
  | case1 frontier =>
    rw [List.map_nil, walkArray, walkArray]
    exact .pure _
  | case2 frontier frame rest stay onward =>
    rw [List.map_cons, walkArray, walkArray, show (frame.rename f).block = frame.block.rename f from rfl,
      linesBack_onto embeds, neighbours_onto embeds]
    refine (retraces_arrayLines embeds _ fun s inside => holds_of_mem_linesBack inside).bind fun left => ?_
    cases left with
    | none => exact stay
    | some c =>
      refine (retraces_callersAtEntry embeds frame.block).bind fun _ => ?_
      have places : ∀ entered : List Nat,
          (entered.map fun i => (⟨⟨frame.block.method, i⟩, lastPosition x ⟨frame.block.method, i⟩, c⟩ : ArrayFrame)).map
              (ArrayFrame.rename f) =
            entered.map fun i => ⟨⟨frame.block.method.rename f, i⟩,
              lastPosition (x.onto whole) ⟨frame.block.method.rename f, i⟩, c⟩ := by
        intro entered
        rw [List.map_map]
        refine List.map_congr_left fun i _ => ?_
        have position := lastPosition_onto embeds ⟨frame.block.method, i⟩
        rw [BlockId.rename] at position
        rw [position]
        rfl
      have later := onward c
      dsimp only at later
      rw [List.map_append, places] at later
      exact later

theorem retraces_arrayOrigin (b : BlockId) (index : Int) :
    Retraces f x whole (arrayOrigin x r c b index)
      (arrayOrigin (x.onto whole) (r.moved place) c (b.rename f) index) :=
  retraces_walkArray embeds _ [⟨b, index, c⟩]

/-! ### Backward searches -/

theorem retraces_backwardCall (holds : x.program.Holds s) {method : MethodRef}
    (calls : s.operation.method? = some method) :
    Retraces f x whole (backwardCall x r c s method)
      (backwardCall (x.onto whole) (r.moved place) c (s.rename f) method) := by
  unfold backwardCall
  rw [show isAskedFor (x.onto whole) (s.rename f) = isAskedFor x s from rfl,
    show redirectInto? (x.onto whole) (s.rename f) c.register = redirectInto? x s c.register from rfl,
    show (s.rename f).operation = s.operation from rfl, show (s.rename f).instruction = s.instruction from rfl]
  split
  · exact .pure _
  · refine (retraces_argumentsOf embeds).bind fun arguments => ?_
    cases redirectInto? x s c.register with
    | some redirect => exact retraces_copiedFrom embeds redirect
    | none =>
      dsimp only
      split
      · exact (retraces_step embeds ..).bind fun _ => (retraces_libraryArguments embeds ..).bind fun _ => .pure _
      · exact retraces_filledByCall embeds holds calls _

theorem mayPassReturn_onto (b : BlockId) : mayPassReturn (x.onto whole) (b.rename f) = mayPassReturn x b := by
  unfold mayPassReturn
  rw [Context.index_onto, embeds.block?]
  cases x.index.block? b with
  | none => rfl
  | some block =>
    dsimp only
    split
    · next p only =>
      rw [show (⟨(b.rename f).method, p⟩ : BlockId) = BlockId.rename f ⟨b.method, p⟩ from rfl, embeds.block?]
    · rfl

theorem retraces_backwardMath (left right : Register) :
    Retraces f x whole (backwardMath r c s left right) (backwardMath (r.moved place) c (s.rename f) left right) := by
  refine (retraces_step embeds ..).bind fun c => ?_
  dsimp only
  split
  · exact (retraces_fork embeds ..).bind fun _ => .pure _
  · exact .pure _

theorem retraces_backwardFieldRead (holds : x.program.Holds s) {field : FieldRef}
    (accesses : s.operation.field? = some field) :
    Retraces f x whole (backwardFieldRead x r c s field)
      (backwardFieldRead (x.onto whole) (r.moved place) c (s.rename f) field) := by
  have agrees : ∀ c : Cursor, Item.Agrees f x whole (.content .field (contentFrom r c s.id
      (x.program.fieldTarget field).1 (x.program.fieldTarget field).2 c.register r.offset)) :=
    fun c => agrees_field embeds holds accesses (by decide) rfl
  unfold backwardFieldRead
  rw [fieldTarget_onto embeds holds accesses]
  generalize x.program.fieldTarget field = target at agrees ⊢
  obtain ⟨owner, name⟩ := target
  refine (retraces_step embeds ..).bind fun c => ?_
  rw [show (r.moved place).field = r.field from rfl]
  split
  · exact .pure _
  · exact retraces_admitContent embeds (agrees c)

theorem retraces_backwardDefinition (holds : x.program.Holds s) :
    Retraces f x whole (backwardDefinition x r c s)
      (backwardDefinition (x.onto whole) (r.moved place) c (s.rename f)) := by
  have ended : ∀ {a b : SearchM Unit}, Retraces f x whole a b →
      Retraces f x whole (do a; pure (none : Option Cursor)) (do b; pure none) :=
    fun retraces => retraces.bind fun _ => .pure _
  unfold backwardDefinition
  rw [show (s.rename f).operation = s.operation from rfl]
  cases does : s.operation with
  | move _ source | unaryMath _ source => exact (retraces_step embeds ..).map _
  | literalMath _ source raw =>
    refine (retraces_step embeds ..).bind fun c => ?_
    cases Literal.value raw with
    | error e => exact retraces_misshapen embeds ..
    | ok value => exact (retraces_record embeds ..).bind fun _ => .pure _
  | inPlaceMath d source => exact retraces_backwardMath embeds d source
  | binaryMath _ left right => exact retraces_backwardMath embeds left right
  | arrayGet _ array _ => exact (retraces_step embeds ..).bind fun _ => ended (retraces_arrayOrigin embeds ..)
  | moveResult _ => exact ended (retraces_pickedResult embeds)
  | constLiteral _ raw => exact ended (retraces_literalLoad embeds raw)
  | constClass _ type | newInstance _ type | newArray _ _ type => exact ended (retraces_opcodeValue embeds type)
  | instanceGet _ _ field | staticGet _ field =>
    exact ended (retraces_backwardFieldRead embeds holds (by rw [does]; rfl))
  | _ => exact ended (retraces_opcodeValue embeds _)

theorem retraces_backwardLine (holds : x.program.Holds s) :
    Retraces f x whole (backwardLine x r c s) (backwardLine (x.onto whole) (r.moved place) c (s.rename f)) := by
  unfold backwardLine
  rw [show (s.rename f).operation = s.operation from rfl]
  split
  · exact retraces_backwardDefinition embeds holds
  · cases does : s.operation with
    | returnVoid | returnValue _ =>
      dsimp only
      rw [show (s.rename f).blockId = s.blockId.rename f from rfl, mayPassReturn_onto embeds]
      split
      · exact .pure _
      · exact retraces_illogical embeds ..
    | fillArrayData array label =>
      dsimp only
      split
      · exact (retraces_payloadLoad embeds label).bind fun _ => .pure _
      · exact .pure _
    | arrayPut value array _ =>
      dsimp only
      split
      · exact (retraces_step embeds ..).bind fun _ => (retraces_fork embeds ..).bind fun _ => .pure _
      · exact .pure _
    | invoke _ method => exact (retraces_backwardCall embeds holds (by rw [does]; rfl)).map _
    | _ => exact .pure _

theorem retraces_backwardLines (sites : List Site) (holds : ∀ s ∈ sites, x.program.Holds s) :
    Retraces f x whole (backwardLines x r c sites)
      (backwardLines (x.onto whole) (r.moved place) c (sites.map (Site.rename f))) := by
  induction sites generalizing c with
  | nil => exact .pure _
  | cons s sites ih =>
    refine (retraces_backwardLine embeds (holds s (by simp))).bind fun left => ?_
    cases left with
    | some c => exact ih fun other inside => holds other (by simp [inside])
    | none => exact .pure _

theorem retraces_blockTop : Retraces f x whole (blockTop x r c) (blockTop (x.onto whole) (r.rename f) c) := by
  unfold blockTop
  rw [show (r.rename f).block = r.block.rename f from rfl, neighbours_onto embeds]
  refine Retraces.bind (.forM fun p _ => ?_) fun _ => retraces_callersAtEntry embeds r.block
  have position := lastPosition_onto embeds ⟨r.block.method, p⟩
  rw [BlockId.rename] at position
  dsimp only [BlockId.rename]
  rw [position]
  exact retraces_admitRegister embeds _

theorem retraces_backwardRegister :
    Retraces f x whole (backwardRegister x r) (backwardRegister (x.onto whole) (r.rename f)) := by
  unfold backwardRegister
  rw [show (r.rename f).block = r.block.rename f from rfl, linesBack_onto embeds]
  refine (retraces_backwardLines embeds _ fun s inside => holds_of_mem_linesBack inside).bind fun left => ?_
  cases left with
  | some c => exact retraces_blockTop embeds
  | none => exact .pure _

/-! ### Contents -/

theorem fieldStores_onto (key : String) :
    fieldStores (x.onto whole) key = (fieldStores x key).map (Prod.map (Site.rename f) id) := by
  unfold fieldStores
  rw [Context.index_onto, embeds.fieldWrites, embeds.sitesOf, List.filterMap_map, List.map_filterMap]
  congr 1
  funext s
  rw [Function.comp_apply, show (s.rename f).operation = s.operation from rfl]
  cases s.operation <;> rfl

theorem fieldLoads_onto (key : String) :
    fieldLoads (x.onto whole) key = (fieldLoads x key).map (Prod.map (Site.rename f) id) := by
  unfold fieldLoads
  rw [Context.index_onto, embeds.fieldReads, embeds.sitesOf, List.filterMap_map, List.map_filterMap]
  congr 1
  funext s
  rw [Function.comp_apply, show (s.rename f).operation = s.operation from rfl, Option.map_map]
  rfl

variable {q : ContentSearch}

theorem retraces_foreignField : Retraces f x whole (foreignField x q) (foreignField (x.onto whole) (q.rename f)) := by
  unfold foreignField
  rw [show (q.rename f).line = q.line.rename f from rfl, label_onto embeds]
  exact (retraces_terminal embeds ..).bind fun _ => .pure _

theorem retraces_backwardField (agrees : Item.Agrees f x whole (.content .field q)) :
    Retraces f x whole (backwardField x q) (backwardField (x.onto whole) (q.rename f)) := by
  have tracked : trackedField? (x.onto whole) (q.rename f) = _ := agrees
  unfold backwardField
  rw [show (q.rename f).name = q.name from rfl, fieldStores_onto embeds, tracked]
  refine Retraces.bind (.forM_map fun store _ => ?_) fun _ => ?_
  · exact (retraces_step embeds ..).bind fun _ => retraces_fork embeds (r := q.asRegisterSearch q.name) ..
  · rw [show ((fieldStores x q.name).map (Prod.map (Site.rename f) id)).isEmpty = (fieldStores x q.name).isEmpty by
      simp]
    cases trackedField? x q with
    | none =>
      dsimp only [Option.map_none]
      split
      · exact retraces_foreignField embeds
      · exact .pure _
    | some found =>
      obtain ⟨line, field⟩ := found
      dsimp only [Option.map_some, Prod.map, id]
      split
      · cases Literal.value field.value with
        | error e => exact retraces_misshapen embeds ..
        | ok value => exact (retraces_terminal embeds ..).bind fun _ => .pure _
      · exact .pure _

theorem retraces_backwardArrayField (agrees : Item.Agrees f x whole (.content .array q)) :
    Retraces f x whole (backwardArrayField x q) (backwardArrayField (x.onto whole) (q.rename f)) := by
  have tracked : trackedField? (x.onto whole) (q.rename f) = _ := agrees
  unfold backwardArrayField
  rw [show (q.rename f).name = q.name from rfl, fieldStores_onto embeds, fieldLoads_onto embeds, tracked]
  refine Retraces.bind (.forM_map fun store _ => ?_) fun _ => Retraces.bind (.forM_map fun load _ => ?_) fun _ => ?_
  · exact (retraces_step embeds ..).bind fun _ =>
      retraces_arrayOrigin embeds (r := q.asRegisterSearch q.name) store.1.blockId _
  · exact (retraces_step embeds ..).bind fun _ =>
      retraces_arrayStores embeds (r := q.asRegisterSearch q.name) load.2 none load.1.blockId _
  · rw [List.isEmpty_map, Option.isNone_map]
    split
    · exact retraces_foreignField embeds
    · exact .pure _

theorem returnedValues_onto (m : MethodId) :
    returnedValues (x.onto whole) (m.rename f) = (returnedValues x m).map (Prod.map (Site.rename f) id) := by
  unfold returnedValues
  rw [Context.index_onto, embeds.implementations, List.flatMap_map, List.map_flatMap]
  congr 1
  funext body
  rw [embeds.returns, embeds.sitesOf, List.filterMap_map, List.map_filterMap]
  congr 1
  funext s
  rw [Function.comp_apply, show (s.rename f).operation = s.operation from rfl]
  cases s.operation <;> rfl

theorem retraces_backwardResult (agrees : Item.Agrees f x whole (.content .result q)) :
    Retraces f x whole (backwardResult x q) (backwardResult (x.onto whole) (q.rename f)) := by
  have tracked : trackedMethod? (x.onto whole) (q.rename f) = _ := agrees
  have values : ((trackedMethod? (x.onto whole) (q.rename f)).map (returnedValues (x.onto whole))).getD [] =
      (((trackedMethod? x q).map (returnedValues x)).getD []).map (Prod.map (Site.rename f) id) := by
    rw [tracked]
    cases trackedMethod? x q with
    | none => rfl
    | some m => exact returnedValues_onto embeds m
  unfold backwardResult
  rw [values, show (q.rename f).line = q.line.rename f from rfl, label_onto embeds, Context.index_onto, embeds.callee?]
  cases ((trackedMethod? x q).map (returnedValues x)).getD [] with
  | nil => exact (retraces_terminal embeds ..).bind fun _ => .pure _
  | cons first rest =>
    refine .forM_map (l := first :: rest) (k := Prod.map (Site.rename f) id) fun value _ => ?_
    exact (retraces_step embeds ..).bind fun _ => retraces_admitRegister embeds _

end SmaliTrace.Slice
