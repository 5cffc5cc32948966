import SmaliTrace.Proofs.Slice.Action

/-!
The actions of searches develop the state by edits, one lemma for each action.
-/
namespace SmaliTrace.Slice
open SmaliTrace.Smali SmaliTrace.ClassFile

variable (x : Context) (r : RegisterSearch) (c : Cursor) (s : Site)

/-! ### The steps that all searches are made of -/

theorem develops_admitRegister : Develops (admitRegister r) :=
  ⟨fun σ => .single (.register σ r)⟩

theorem develops_admitContent (kind : Content) (search : ContentSearch) :
    Develops (admitContent kind search) :=
  ⟨fun σ => .single (.content σ kind search)⟩

theorem develops_produceIf (direct : Bool) (id : Nat) (key : EdgeKey) :
    Develops (produceIf direct id key) := by
  unfold produceIf
  split
  · exact ⟨fun σ => .single (.produced σ id key)⟩
  · exact .pure _

theorem develops_addNode (line : LineId) (pred : Option NodeId) (key : EdgeKey) :
    Develops (onWork (·.addNode line pred key)) :=
  ⟨fun σ => .single (.node σ line pred key)⟩

theorem develops_addConstant (line : LineId) (pred : Option NodeId) (register target : Register) :
    Develops (onWork (·.addConstant line pred register target)) :=
  ⟨fun σ => .single (.constant σ line pred register target)⟩

theorem develops_keepConstant (k : Constant) : Develops (keepConstant k) :=
  ⟨fun σ => .single (.kept σ k)⟩

theorem develops_step (line : LineId) (source register : Register) :
    Develops (step c line source register) :=
  (develops_addNode ..).bind fun _ => (develops_produceIf ..).bind fun _ => .pure _

theorem develops_terminal (line : LineId) (kind : ConstantKind) (value : Text.Octets) (raw : String)
    (fuzzy : Int) : Develops (terminal x c line kind value raw fuzzy) :=
  (develops_addConstant ..).bind fun _ => (develops_keepConstant _).bind fun _ =>
    (develops_produceIf ..).bind fun _ => .pure _

theorem develops_record (line : LineId) (kind : ConstantKind) (value : Text.Octets) (raw : String)
    (fuzzy : Int) : Develops (record x c line kind value raw fuzzy) :=
  develops_keepConstant _

theorem develops_fork (register : Register) (block : BlockId) (index fuzzy : Int) :
    Develops (fork r c register block index fuzzy) :=
  develops_admitRegister _

theorem develops_argumentsOf : Develops (argumentsOf x s) := by
  unfold argumentsOf
  split
  · exact .pure _
  · exact .misshapen ..

theorem develops_argumentOf (index : Int) : Develops (argumentOf x s index) := by
  unfold argumentOf
  split
  · exact .pure _
  · exact .misshapen ..

/-! ### Where values come from -/

theorem develops_literalLoad (raw : String) : Develops (literalLoad x r c s raw) := by
  unfold literalLoad
  split
  · exact .misshapen ..
  · exact (develops_terminal ..).bind fun _ => .pure _

theorem develops_opcodeValue (value : String) : Develops (opcodeValue x r c s value) :=
  (develops_terminal ..).bind fun _ => .pure _

theorem develops_payloadLoad (label : String) : Develops (payloadLoad x r c s label) := by
  unfold payloadLoad
  split
  · exact .misshapen ..
  · refine Develops.bind (.mapM fun _ => ?_) fun _ => (develops_terminal ..).bind fun _ => .pure _
    split
    · exact .pure _
    · exact .misshapen ..

theorem develops_enterCaller (m : MethodId) (index : Int) : Develops (enterCaller x r c m index s) := by
  unfold enterCaller
  split
  · exact .illogical ..
  · exact (develops_addNode ..).bind fun _ => (develops_produceIf ..).bind fun _ => develops_admitRegister _

theorem develops_callers (m : MethodId) (index : Int) : Develops (callers x r c m index) := by
  unfold callers
  split
  · split
    · exact .pure _
    · exact (develops_terminal ..).bind fun _ => .pure _
  · exact .forM fun s _ => develops_enterCaller x r c s m index

theorem develops_callersAtEntry (b : BlockId) : Develops (callersAtEntry x r c b) := by
  unfold callersAtEntry
  split
  · exact .pure _
  · split
    · exact .pure _
    · exact develops_callers ..

theorem develops_libraryArguments (method : MethodRef) (skip : Option Register) :
    Develops (libraryArguments x r c s method skip) :=
  (develops_argumentsOf x s).bind fun _ => .forM fun _ _ => develops_fork ..

theorem develops_callResult (method : MethodRef) : Develops (callResult x r c s method) := by
  unfold callResult
  split
  · split
    · exact (develops_terminal ..).bind fun _ => .pure _
    · exact (develops_step ..).bind fun _ => develops_admitContent ..
  · exact (develops_terminal ..).bind fun _ => develops_libraryArguments ..

theorem develops_builtArray (elements : List Register) (type : String) :
    Develops (builtArray x r c s elements type) := by
  refine (develops_step ..).bind fun _ => (Develops.forM fun _ _ => develops_fork ..).bind fun _ => ?_
  split
  · exact .pure _
  · exact develops_record ..

theorem develops_pickedResult : Develops (pickedResult x r c s) := by
  unfold pickedResult
  split
  · exact .illogical ..
  · split
    · exact develops_builtArray ..
    · exact develops_callResult ..
    · exact .illogical ..

/-! ### Arrays -/

theorem develops_elementStore (call : Option Site) (array value : Register) :
    Develops (elementStore r c call s array value) := by
  have stored : ∀ c, Develops (do
      let c ← step c s.id array array
      fork r c value s.blockId ((s.position : Int) - 1) r.fuzzy) :=
    fun c => (develops_step ..).bind fun _ => develops_fork ..
  unfold elementStore
  split
  · exact (develops_step ..).bind stored
  · exact (Develops.pure c).bind stored

theorem develops_storesInBlock (array : Register) (call : Option Site) (sites : List Site) :
    Develops (storesInBlock x r c array call sites) := by
  induction sites with
  | nil => exact .pure _
  | cons s sites ih =>
    unfold storesInBlock
    split
    · split
      · exact (develops_elementStore ..).bind fun _ => ih
      · exact ih
    · split
      · exact (develops_argumentOf ..).bind fun _ => (develops_elementStore ..).bind fun _ => ih
      · exact ih
    · split
      · exact .pure _
      · exact ih

theorem develops_walkStores (array : Register) (call : Option Site) (f : Frontier)
    (queue : List (BlockId × Int)) : Develops (walkStores x r c array call f queue) := by
  induction f, queue using walkStores.induct x with
  | case1 f => rw [walkStores]; exact .pure _
  | case2 f b index rest onward stay =>
    rw [walkStores]
    refine (develops_storesInBlock ..).bind fun holds => ?_
    split
    · exact onward
    · exact stay

theorem develops_arrayStores (array : Register) (call : Option Site) (b : BlockId) (index : Int) :
    Develops (arrayStores x r c array call b index) :=
  develops_walkStores ..

theorem develops_argumentStores (callee : MethodId) (index : Int) :
    Develops (argumentStores x r c s callee index) := by
  refine .forM fun body _ => ?_
  split
  · exact .pure _
  · exact .illogical ..
  · exact develops_arrayStores ..

theorem develops_filledByCall (method : MethodRef) (arguments : List Argument) :
    Develops (filledByCall x r c s method arguments) := by
  unfold filledByCall
  split
  · exact .pure _
  · split
    · exact (develops_argumentStores ..).bind fun _ => .pure _
    · exact develops_terminal ..

theorem develops_copiedFrom (redirect : Redirect) : Develops (copiedFrom x r c s redirect) :=
  (develops_argumentOf ..).bind fun _ => (develops_step ..).bind fun _ =>
    (develops_fork ..).bind fun _ => .pure _

theorem develops_arrayCall (method : MethodRef) : Develops (arrayCall x r c s method) := by
  unfold arrayCall
  split
  · exact .pure _
  · split
    · exact develops_copiedFrom ..
    · exact (develops_argumentsOf ..).bind fun _ => develops_filledByCall ..

theorem develops_arrayLine : Develops (arrayLine x r c s) := by
  unfold arrayLine
  split
  · split
    · exact (develops_opcodeValue ..).bind fun _ => .pure _
    · exact .pure _
  · split
    · exact (develops_payloadLoad ..).bind fun _ => .pure _
    · exact .pure _
  · split
    · exact (develops_step ..).bind fun _ => (develops_fork ..).bind fun _ => .pure _
    · exact .pure _
  · split
    · exact .pure _
    · split
      · exact .pure _
      · exact (develops_literalLoad ..).bind fun _ => .pure _
  · split
    · exact (develops_opcodeValue ..).bind fun _ => .pure _
    · exact .pure _
  iterate 2
    split
    · exact (develops_step ..).map some
    · exact .pure _
  iterate 2
    split
    · exact (develops_step ..).bind fun _ => (develops_admitContent ..).bind fun _ => .pure _
    · exact .pure _
  · split
    · exact (develops_fork ..).bind fun _ => .pure _
    · exact .pure _
  · exact (develops_arrayCall ..).map some
  · split
    · exact (develops_opcodeValue ..).bind fun _ => .pure _
    · exact .pure _

theorem develops_arrayLines (sites : List Site) : Develops (arrayLines x r c sites) := by
  induction sites generalizing c with
  | nil => exact .pure _
  | cons s sites ih =>
    refine (develops_arrayLine ..).bind fun left => ?_
    split
    · exact ih _
    · exact .pure _

theorem develops_walkArray (f : Frontier) (queue : List ArrayFrame) : Develops (walkArray x r f queue) := by
  induction f, queue using walkArray.induct x with
  | case1 f => rw [walkArray]; exact .pure _
  | case2 f frame rest stay onward =>
    rw [walkArray]
    refine (develops_arrayLines ..).bind fun left => ?_
    split
    · exact stay
    · exact (develops_callersAtEntry ..).bind fun _ => onward _

theorem develops_arrayOrigin (b : BlockId) (index : Int) : Develops (arrayOrigin x r c b index) :=
  develops_walkArray ..

/-! ### Backward searches -/

theorem develops_backwardCall (method : MethodRef) : Develops (backwardCall x r c s method) := by
  unfold backwardCall
  split
  · exact .pure _
  · refine (develops_argumentsOf ..).bind fun arguments => ?_
    split
    · exact develops_copiedFrom ..
    · dsimp only
      split
      · exact (develops_step ..).bind fun _ => (develops_libraryArguments ..).bind fun _ => .pure _
      · exact develops_filledByCall ..

theorem develops_backwardMath (left right : Register) : Develops (backwardMath r c s left right) := by
  refine (develops_step ..).bind fun c => ?_
  dsimp only
  split
  · exact (develops_fork ..).bind fun _ => .pure _
  · exact .pure _

theorem develops_backwardFieldRead (field : FieldRef) : Develops (backwardFieldRead x r c s field) := by
  rw [backwardFieldRead]
  rcases x.program.fieldTarget field with ⟨owner, name⟩
  refine (develops_step ..).bind fun c => ?_
  split
  · exact .pure _
  · exact develops_admitContent ..

theorem develops_backwardDefinition : Develops (backwardDefinition x r c s) := by
  unfold backwardDefinition
  split
  iterate 2 exact (develops_step ..).map some
  · refine (develops_step ..).bind fun c => ?_
    split
    · exact .misshapen ..
    · exact (develops_record ..).bind fun _ => .pure _
  iterate 2 exact develops_backwardMath ..
  · exact (develops_step ..).bind fun _ => (develops_arrayOrigin ..).bind fun _ => .pure _
  · exact (develops_pickedResult ..).bind fun _ => .pure _
  · exact (develops_literalLoad ..).bind fun _ => .pure _
  iterate 3 exact (develops_opcodeValue ..).bind fun _ => .pure _
  iterate 2 exact (develops_backwardFieldRead ..).bind fun _ => .pure _
  · exact (develops_opcodeValue ..).bind fun _ => .pure _

theorem develops_backwardLine : Develops (backwardLine x r c s) := by
  unfold backwardLine
  split
  · exact develops_backwardDefinition ..
  · split
    iterate 2
      split
      · exact .pure _
      · exact .illogical ..
    · split
      · exact (develops_payloadLoad ..).bind fun _ => .pure _
      · exact .pure _
    · split
      · exact (develops_step ..).bind fun _ => (develops_fork ..).bind fun _ => .pure _
      · exact .pure _
    · exact (develops_backwardCall ..).map some
    · exact .pure _

theorem develops_backwardLines (sites : List Site) : Develops (backwardLines x r c sites) := by
  induction sites generalizing c with
  | nil => exact .pure _
  | cons s sites ih =>
    refine (develops_backwardLine ..).bind fun left => ?_
    split
    · exact ih _
    · exact .pure _

theorem develops_blockTop : Develops (blockTop x r c) :=
  (Develops.forM fun _ _ => develops_admitRegister _).bind fun _ => develops_callersAtEntry ..

theorem develops_backwardRegister : Develops (backwardRegister x r) := by
  refine (develops_backwardLines ..).bind fun left => ?_
  split
  · exact develops_blockTop ..
  · exact .pure _

theorem develops_foreignField (search : ContentSearch) : Develops (foreignField x search) :=
  (develops_terminal ..).bind fun _ => .pure _

theorem develops_backwardField (search : ContentSearch) : Develops (backwardField x search) := by
  refine (Develops.forM fun store _ => (develops_step ..).bind fun _ => develops_fork ..).bind fun _ => ?_
  split
  · split
    · exact develops_foreignField ..
    · exact .pure _
  · split
    · split
      · exact .misshapen ..
      · exact (develops_terminal ..).bind fun _ => .pure _
    · exact .pure _

theorem develops_backwardArrayField (search : ContentSearch) : Develops (backwardArrayField x search) := by
  refine (Develops.forM fun _ _ => (develops_step ..).bind fun _ => develops_arrayOrigin ..).bind fun _ => ?_
  refine (Develops.forM fun _ _ => (develops_step ..).bind fun _ => develops_arrayStores ..).bind fun _ => ?_
  split
  · exact develops_foreignField ..
  · exact .pure _

theorem develops_backwardResult (search : ContentSearch) : Develops (backwardResult x search) := by
  unfold backwardResult
  split
  · exact (develops_terminal ..).bind fun _ => .pure _
  · exact .forM fun _ _ => (develops_step ..).bind fun _ => develops_admitRegister _

theorem develops_seedRegister (p : BackwardPattern) : Develops (seedRegister x p s) := by
  unfold seedRegister
  split
  · exact .illogical ..
  · exact .pure _
  · split
    · exact .pure _
    · exact .illogical ..
  · exact .illogical ..

theorem develops_seedBackward (p : BackwardPattern) (line : LineId) : Develops (seedBackward x p line) := by
  unfold seedBackward
  split
  · exact .illogical ..
  · exact (develops_seedRegister ..).bind fun _ => (develops_addNode ..).bind fun _ => develops_admitRegister _

/-! ### Forward searches -/

theorem develops_followPickUp (fuzzy : Int) : Develops (followPickUp x r c s fuzzy) := by
  unfold followPickUp
  split
  · exact .pure _
  · exact develops_fork ..

theorem develops_enterBody (arguments : List Argument) (body : MethodId) :
    Develops (enterBody x r c s arguments body) := by
  refine .forM fun a _ => ?_
  split
  · exact .pure _
  · exact .illogical ..
  · exact develops_admitRegister _

theorem develops_forwardCall (method : MethodRef) : Develops (forwardCall x r c s method) := by
  unfold forwardCall
  split
  · exact (develops_argumentOf ..).bind fun _ => (develops_step ..).bind fun _ => develops_fork ..
  · refine (develops_argumentsOf x s).bind fun arguments => ?_
    dsimp only
    split
    · exact (develops_step ..).bind fun _ => .forM fun body _ => develops_enterBody ..
    · exact (develops_terminal ..).bind fun _ => develops_followPickUp ..

theorem develops_forwardElement (array : Register) : Develops (forwardElement x r c s array) := by
  refine (develops_step ..).bind fun c => ?_
  split
  · exact develops_admitContent ..
  · exact develops_fork ..

theorem develops_forwardStore (field : FieldRef) : Develops (forwardStore x r c s field) := by
  rw [forwardStore]
  exact (develops_step ..).bind fun _ => develops_admitContent ..

theorem develops_forwardResult (result : Register) : Develops (forwardResult r c s result) :=
  (develops_step ..).bind fun _ => develops_fork ..

theorem develops_forwardReturn : Develops (forwardReturn x r c s) := by
  refine (develops_step ..).bind fun c => ?_
  split
  · exact .pure _
  · split
    · exact develops_admitContent ..
    · exact .pure _

theorem develops_forwardUse : Develops (forwardUse x r c s) := by
  unfold forwardUse
  split
  iterate 10 exact (develops_forwardResult ..).bind fun _ => .pure _
  · split
    · exact (develops_forwardElement ..).bind fun _ => .pure _
    · exact .pure _
  iterate 2
    split
    · exact (develops_forwardStore ..).bind fun _ => .pure _
    · exact .pure _
  · exact (develops_step ..).bind fun _ => (develops_followPickUp ..).bind fun _ => .pure _
  · exact (develops_forwardReturn ..).bind fun _ => .pure _
  · exact (develops_forwardCall ..).bind fun _ => .pure _
  · exact .pure _

theorem develops_forwardLines (sites : List Site) : Develops (forwardLines x r c sites) := by
  induction sites with
  | nil => exact .pure _
  | cons s sites ih =>
    have rest : ∀ goesOn : Bool, Develops (if goesOn && !s.operation.defines c.register then
        forwardLines x r c sites else pure false) := by
      intro goesOn
      split
      · exact ih
      · exact .pure _
    unfold forwardLines
    dsimp only
    split
    · exact (develops_forwardUse ..).bind rest
    · exact (Develops.pure true).bind rest

theorem develops_forwardRegister : Develops (forwardRegister x r) := by
  refine (develops_forwardLines ..).bind fun holds => ?_
  split
  · exact .forM fun _ _ => develops_admitRegister _
  · exact .pure _

theorem develops_forwardField (search : ContentSearch) : Develops (forwardField x search) :=
  .forM fun _ _ => (develops_step ..).bind fun _ => develops_admitRegister _

theorem develops_forwardCallers (search : ContentSearch) : Develops (forwardCallers x search) := by
  unfold forwardCallers
  split
  · exact .pure _
  · refine .forM fun s _ => ?_
    split
    · exact .pure _
    · exact (develops_step ..).bind fun _ => (develops_step ..).bind fun _ => develops_admitRegister _

theorem develops_seedForward (seed : ForwardSeed) : Develops (seedForward seed) := by
  refine (develops_addNode ..).bind fun id => ?_
  dsimp only
  split
  · exact (Develops.pure id).bind fun _ => develops_admitRegister _
  · exact (develops_addNode ..).bind fun _ => develops_admitRegister _

/-! ### Items -/

theorem develops_searchRegister : Develops (searchRegister x r) := by
  unfold searchRegister
  split
  · exact develops_forwardRegister x r
  · exact develops_backwardRegister x r

theorem develops_searchContent (kind : Content) (search : ContentSearch) :
    Develops (searchContent x kind search) := by
  unfold searchContent
  split
  iterate 2 exact develops_forwardField x search
  · exact develops_backwardField x search
  · exact develops_backwardArrayField x search
  · exact develops_forwardCallers x search
  · exact develops_backwardResult x search

end SmaliTrace.Slice
