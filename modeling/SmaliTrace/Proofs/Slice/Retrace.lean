import SmaliTrace.Proofs.Index.Embedding
import SmaliTrace.Proofs.Slice.Level
import SmaliTrace.Proofs.Slice.Renaming
import SmaliTrace.Proofs.Slice.Turn

/-!
A search of a part of a program, done again in the whole. As long as the index answers there what it answers in
the part, every action makes the same changes to the state, at the other positions of the lines, and ends in the
same way: with the same result, or with the same fault.
-/
namespace SmaliTrace.Slice
open SmaliTrace.Smali SmaliTrace.ClassFile
open SmaliTrace.Text (Octets)

/-- The same surroundings, with another index. -/
def Context.onto (x : Context) (whole : Index) : Context := { x with index := whole }

variable {f : Nat → Nat} {x : Context} {whole : Index} {α β γ : Type} {σ σ' : State}

@[simp] theorem Context.index_onto : (x.onto whole).index = whole := rfl

@[simp] theorem Context.program_onto : (x.onto whole).program = whole.program := rfl

@[simp] theorem Context.options_onto : (x.onto whole).options = x.options := rfl

/-- The same request at another block. Only the walk over that block looks at it; all that is asked for on the way
takes over the other terms. -/
def RegisterSearch.moved (r : RegisterSearch) (place : BlockId) : RegisterSearch := { r with block := place }

def Item.rename (f : Nat → Nat) : Item → Item
  | .register r => .register (r.rename f)
  | .content kind c => .content kind (c.rename f)

/-- The field or method that a content search is about is the same one in the part and in the whole. -/
def Item.Agrees (f : Nat → Nat) (x : Context) (whole : Index) : Item → Prop
  | .register _ => True
  | .content .result c => trackedMethod? (x.onto whole) c = (trackedMethod? x c).map (MethodId.rename f)
  | .content _ c => trackedField? (x.onto whole) c = (trackedField? x c).map (Prod.map (LineId.rename f) id)

/-- The states of two searches, in the part and in the whole, that have done the same so far. -/
structure Abreast (f : Nat → Nat) (x : Context) (whole : Index) (σ σ' : State) : Prop where
  work : ∃ done, σ'.work = σ.work.rename f done ∧ Keyed f σ.work.done done
  constants : σ'.constants = σ.constants.map (Constant.rename f)
  tally : σ'.tally = σ.tally
  agrees : ∀ item, σ.work.Waits item → item.Agrees f x whole

/-- From states that stand abreast the actions end alike, and in states that stand abreast again. -/
structure Retraces (f : Nat → Nat) (x : Context) (whole : Index) (a b : SearchM α) : Prop where
  run : ∀ {σ σ'}, Abreast f x whole σ σ' →
    (exec b σ').1 = (exec a σ).1 ∧ Abreast f x whole (exec a σ).2 (exec b σ').2

namespace Retraces

theorem pure (v : α) : Retraces f x whole (pure v) (pure v) := ⟨fun abreast => ⟨rfl, abreast⟩⟩

theorem throw (fault : Fault) : Retraces f x whole (throw fault : SearchM α) (throw fault) :=
  ⟨fun abreast => ⟨rfl, abreast⟩⟩

theorem bind {a b : SearchM α} {g h : α → SearchM β} (first : Retraces f x whole a b)
    (rest : ∀ v, Retraces f x whole (g v) (h v)) : Retraces f x whole (a >>= g) (b >>= h) := by
  refine ⟨fun {σ σ'} abreast => ?_⟩
  have start := first.run abreast
  rw [exec_bind, exec_bind]
  rcases ran : exec a σ with ⟨fault | v, τ⟩ <;> rcases ran' : exec b σ' with ⟨v', τ'⟩ <;>
    rw [ran, ran'] at start <;> obtain ⟨rfl, abreast'⟩ := start
  · exact ⟨rfl, abreast'⟩
  · exact (rest v).run abreast'

theorem map {a b : SearchM α} (g : α → β) (retraces : Retraces f x whole a b) :
    Retraces f x whole (g <$> a) (g <$> b) := by
  rw [← bind_pure_comp, ← bind_pure_comp]
  exact retraces.bind fun _ => .pure _

theorem forM_map {l : List β} {k : β → γ} {g : β → SearchM PUnit} {h : γ → SearchM PUnit}
    (each : ∀ item ∈ l, Retraces f x whole (g item) (h (k item))) :
    Retraces f x whole (l.forM g) ((l.map k).forM h) := by
  induction l with
  | nil => exact .pure _
  | cons item l ih =>
    exact (each item (by simp)).bind fun _ => ih fun other inside => each other (by simp [inside])

theorem forM {items : List β} {g h : β → SearchM PUnit} (each : ∀ item ∈ items, Retraces f x whole (g item) (h item)) :
    Retraces f x whole (items.forM g) (items.forM h) := by
  have same := forM_map (k := id) each
  rwa [List.map_id] at same

theorem mapM {items : List β} {g h : β → SearchM α} (each : ∀ item, Retraces f x whole (g item) (h item)) :
    Retraces f x whole (items.mapM g) (items.mapM h) := by
  induction items with
  | nil => exact .pure _
  | cons item items ih =>
    rw [List.mapM_cons, List.mapM_cons]
    exact (each item).bind fun _ => ih.bind fun _ => .pure _

end Retraces

/-! ### One edit on both sides -/

namespace Abreast

variable (abreast : Abreast f x whole σ σ')
include abreast

/-- An edit of the worklist after which nothing new waits. -/
theorem edit {w w' : Worklist} (changes : ∀ done, σ'.work = σ.work.rename f done → Keyed f σ.work.done done →
      ∃ done', w' = w.rename f done' ∧ Keyed f w.done done')
    (waits : ∀ item, w.Waits item → σ.work.Waits item ∨ item.Agrees f x whole) :
    Abreast f x whole { σ with work := w } { σ' with work := w' } where
  work := by
    obtain ⟨done, same, keyed⟩ := abreast.work
    exact changes done same keyed
  constants := abreast.constants
  tally := abreast.tally
  agrees item waiting := (waits item waiting).elim (abreast.agrees item) id

theorem produce (node : NodeId) (key : EdgeKey) :
    Abreast f x whole { σ with work := σ.work.produce node key } { σ' with work := σ'.work.produce node key } := by
  have relinked := Worklist.relinked_produce σ.work node key
  refine abreast.edit (fun done same keyed => ⟨done, ?_, ?_⟩) fun item waiting => .inl (relinked.waits.mp waiting)
  · rw [same, Worklist.produce_rename]
  · rwa [relinked.done]

section
variable (injective : f.Injective)
include injective

theorem register (r : RegisterSearch) :
    Abreast f x whole { σ with work := (σ.work.admitRegister r).1 }
      { σ' with work := (σ'.work.admitRegister (r.rename f)).1 } := by
  refine abreast.edit (fun done same keyed => ?_) fun item waiting => ?_
  · rw [same]
    exact Worklist.admitRegister_rename injective keyed r
  · refine (waits_accept (.register r) (Worklist.waits_enqueueRegister r) waiting).imp_right ?_
    rintro rfl
    trivial

theorem content {kind : Content} {c : ContentSearch} (agrees : Item.Agrees f x whole (.content kind c)) :
    Abreast f x whole { σ with work := (σ.work.admitContent kind c).1 }
      { σ' with work := (σ'.work.admitContent kind (c.rename f)).1 } := by
  refine abreast.edit (fun done same keyed => ?_) fun item waiting => ?_
  · rw [same]
    exact Worklist.admitContent_rename injective keyed kind c
  · refine (waits_accept (.content kind c) (Worklist.waits_enqueueContent kind c) waiting).imp_right ?_
    rintro rfl
    exact agrees

theorem keep (k : Constant) : Abreast f x whole (σ.keep k) (σ'.keep (k.rename f)) where
  work := abreast.work
  constants := by
    simp only [State.keep]
    rw [abreast.constants, addConstant_rename injective]
  tally := by
    simp only [State.keep]
    rw [abreast.constants, addConstant_rename injective, abreast.tally]
  agrees := abreast.agrees

end

end Abreast

section Actions

variable (embeds : x.index.Embeds f whole) {r : RegisterSearch} {place : BlockId} {c : Cursor} {s : Site}
include embeds

/-! ### The steps that all searches are made of -/

theorem label_onto (l : LineId) : (x.onto whole).label (l.rename f) = x.label l := embeds.label l

theorem method?_onto (m : MethodId) : (x.onto whole).program.method? (m.rename f) = x.program.method? m :=
  embeds.method? m

theorem methodText_onto (m : MethodId) :
    (x.onto whole).program.methodText (m.rename f) = x.program.methodText m :=
  embeds.methodText m

theorem retraces_misshapen (line : LineId) (shape : Misshape) :
    Retraces f x whole (misshapen x line shape : SearchM α) (misshapen (x.onto whole) (line.rename f) shape) := by
  unfold misshapen
  rw [label_onto embeds]
  exact .throw _

theorem retraces_illogical (line : LineId) (surprise : Surprise) :
    Retraces f x whole (illogical x line surprise : SearchM α)
      (illogical (x.onto whole) (line.rename f) surprise) := by
  unfold illogical
  rw [label_onto embeds]
  exact .throw _

theorem retraces_admitRegister (q : RegisterSearch) :
    Retraces f x whole (admitRegister q) (admitRegister (q.rename f)) :=
  ⟨fun abreast => ⟨rfl, abreast.register embeds.injective q⟩⟩

theorem retraces_admitContent {kind : Content} {q : ContentSearch}
    (agrees : Item.Agrees f x whole (.content kind q)) :
    Retraces f x whole (admitContent kind q) (admitContent kind (q.rename f)) :=
  ⟨fun abreast => ⟨rfl, abreast.content embeds.injective agrees⟩⟩

theorem retraces_addNode (line : LineId) (pred : Option NodeId) (key : EdgeKey) :
    Retraces f x whole (onWork (·.addNode line pred key)) (onWork (·.addNode (line.rename f) pred key)) := by
  refine ⟨fun {σ σ'} abreast => ?_⟩
  obtain ⟨done, same, _⟩ := abreast.work
  simp only [exec_onWork]
  refine ⟨?_, abreast.edit (fun done same keyed => ⟨done, ?_, keyed⟩) fun item waiting => .inl ?_⟩
  · rw [same, Worklist.addNode_rename embeds.injective]
  · rw [same, Worklist.addNode_rename embeds.injective]
  · cases item <;> exact waiting

theorem retraces_addConstant (line : LineId) (pred : Option NodeId) (register target : Register) :
    Retraces f x whole (onWork (·.addConstant line pred register target))
      (onWork (·.addConstant (line.rename f) pred register target)) := by
  refine ⟨fun {σ σ'} abreast => ?_⟩
  obtain ⟨done, same, _⟩ := abreast.work
  simp only [exec_onWork]
  refine ⟨?_, abreast.edit (fun done same keyed => ⟨done, ?_, keyed⟩) fun item waiting => .inl ?_⟩
  · rw [same, Worklist.addConstant_rename embeds.injective]
  · rw [same, Worklist.addConstant_rename embeds.injective]
  · cases item <;> exact waiting

omit embeds in
theorem retraces_produceIf (direct : Bool) (id : Nat) (key : EdgeKey) :
    Retraces f x whole (produceIf direct id key) (produceIf direct id key) := by
  cases direct with
  | false => exact .pure _
  | true => exact ⟨fun abreast => ⟨rfl, abreast.produce id key⟩⟩

theorem retraces_keepConstant (k : Constant) :
    Retraces f x whole (keepConstant k) (keepConstant (k.rename f)) :=
  ⟨fun abreast => ⟨rfl, abreast.keep embeds.injective k⟩⟩

theorem retraces_step (line : LineId) (source register : Register) :
    Retraces f x whole (step c line source register) (step c (line.rename f) source register) :=
  (retraces_addNode embeds ..).bind fun _ => (retraces_produceIf ..).bind fun _ => .pure _

theorem retraces_terminal (line : LineId) (kind : ConstantKind) (value : Octets) (raw : String) (fuzzy : Int) :
    Retraces f x whole (terminal x c line kind value raw fuzzy)
      (terminal (x.onto whole) c (line.rename f) kind value raw fuzzy) :=
  (retraces_addConstant embeds ..).bind fun _ => (retraces_keepConstant embeds _).bind fun _ =>
    (retraces_produceIf ..).bind fun _ => .pure _

theorem retraces_record (line : LineId) (kind : ConstantKind) (value : Octets) (raw : String) (fuzzy : Int) :
    Retraces f x whole (record x c line kind value raw fuzzy)
      (record (x.onto whole) c (line.rename f) kind value raw fuzzy) :=
  retraces_keepConstant embeds _

theorem retraces_fork (register : Register) (block : BlockId) (index fuzzy : Int) :
    Retraces f x whole (fork r c register block index fuzzy)
      (fork (r.moved place) c register (block.rename f) index fuzzy) :=
  retraces_admitRegister embeds _

theorem retraces_argumentsOf :
    Retraces f x whole (argumentsOf x s) (argumentsOf (x.onto whole) (s.rename f)) := by
  unfold argumentsOf
  rw [show (s.rename f).instruction = s.instruction from rfl]
  cases s.instruction.arguments with
  | ok arguments => exact .pure _
  | error e => exact retraces_misshapen embeds ..

theorem retraces_argumentOf (index : Int) :
    Retraces f x whole (argumentOf x s index) (argumentOf (x.onto whole) (s.rename f) index) := by
  unfold argumentOf
  rw [show (s.rename f).instruction = s.instruction from rfl]
  cases s.instruction.argument index with
  | ok register => exact .pure _
  | error e => exact retraces_misshapen embeds ..

/-! ### Where values come from -/

theorem hasLocal_onto (register : Register) :
    hasLocal (x.onto whole) (s.rename f) register = hasLocal x s register := by
  unfold hasLocal
  rw [show (s.rename f).method = s.method.rename f from rfl, method?_onto embeds]
  rfl

theorem retraces_literalLoad (raw : String) :
    Retraces f x whole (literalLoad x r c s raw) (literalLoad (x.onto whole) (r.moved place) c (s.rename f) raw) := by
  unfold literalLoad
  cases Literal.value raw with
  | error e => exact retraces_misshapen embeds ..
  | ok value =>
    dsimp only
    rw [hasLocal_onto embeds]
    exact (retraces_terminal embeds ..).bind fun _ => .pure _

theorem retraces_opcodeValue (value : String) :
    Retraces f x whole (opcodeValue x r c s value)
      (opcodeValue (x.onto whole) (r.moved place) c (s.rename f) value) :=
  (retraces_terminal embeds ..).bind fun _ => .pure _

theorem payload_onto (m : MethodId) (label : String) :
    payload (x.onto whole) (m.rename f) label = payload x m label := by
  have labels : ∀ i, (x.onto whole).label (.body (m.rename f) i) = x.label (.body m i) :=
    fun i => label_onto embeds (.body m i)
  have entries : ∀ (lines : List (CodeLine × Nat)) (inside : Bool),
      payloadEntries (x.onto whole) (m.rename f) label inside lines = payloadEntries x m label inside lines := by
    intro lines
    induction lines with
    | nil =>
      intro inside
      rw [payloadEntries, payloadEntries, methodText_onto embeds]
    | cons line lines ih =>
      intro inside
      unfold payloadEntries
      simp only [ih, labels]
  unfold payload
  simp only [entries, method?_onto embeds, methodText_onto embeds]

theorem retraces_payloadLoad (label : String) :
    Retraces f x whole (payloadLoad x r c s label)
      (payloadLoad (x.onto whole) (r.moved place) c (s.rename f) label) := by
  unfold payloadLoad
  rw [show (s.rename f).method = s.method.rename f from rfl, payload_onto embeds]
  cases payload x s.method label with
  | error e => exact retraces_misshapen embeds ..
  | ok raws =>
    refine Retraces.bind (.mapM fun raw => ?_) fun _ => (retraces_terminal embeds ..).bind fun _ => .pure _
    cases Literal.value raw with
    | ok value => exact .pure _
    | error e => exact retraces_misshapen embeds ..

theorem retraces_enterCaller (m : MethodId) (index : Int) :
    Retraces f x whole (enterCaller x r c m index s)
      (enterCaller (x.onto whole) (r.moved place) c (m.rename f) index (s.rename f)) := by
  unfold enterCaller
  rw [show (s.rename f).instruction = s.instruction from rfl, methodText_onto embeds]
  cases s.instruction.argument index with
  | error e => exact retraces_illogical embeds ..
  | ok register =>
    exact (retraces_addNode embeds ..).bind fun _ => (retraces_produceIf ..).bind fun _ =>
      retraces_admitRegister embeds _

theorem retraces_callers (m : MethodId) (index : Int) :
    Retraces f x whole (callers x r c m index)
      (callers (x.onto whole) (r.moved place) c (m.rename f) index) := by
  unfold callers
  rw [Context.index_onto, embeds.callSitesOf, embeds.sitesOf, methodText_onto embeds,
    show (⟨m.rename f, 0⟩ : BlockId) = BlockId.rename f ⟨m, 0⟩ from rfl, embeds.sites]
  cases x.index.sitesOf (x.index.callSitesOf m) with
  | nil =>
    cases x.index.sites ⟨m, 0⟩ with
    | nil => exact .pure _
    | cons entry _ => exact (retraces_terminal embeds entry.id ..).bind fun _ => .pure _
  | cons first rest =>
    exact .forM_map (l := first :: rest) (k := Site.rename f) fun _ _ => retraces_enterCaller embeds m index

theorem retraces_callersAtEntry (b : BlockId) :
    Retraces f x whole (callersAtEntry x r c b)
      (callersAtEntry (x.onto whole) (r.moved place) c (b.rename f)) := by
  unfold callersAtEntry
  rw [show (b.rename f).method = b.method.rename f from rfl, method?_onto embeds,
    show (b.rename f).index = b.index from rfl]
  split
  · exact .pure _
  · cases (x.program.method? b.method).bind fun m => m.paramIndex? c.register with
    | none => exact .pure _
    | some index => exact retraces_callers embeds b.method index

theorem carriesData_onto (signature : String) (skip : Option Register) :
    carriesData (x.onto whole) (s.rename f) signature skip = carriesData x s signature skip := by
  funext a
  unfold carriesData
  rw [show (s.rename f).method = s.method.rename f from rfl, method?_onto embeds]
  rfl

theorem retraces_libraryArguments (method : MethodRef) (skip : Option Register) :
    Retraces f x whole (libraryArguments x r c s method skip)
      (libraryArguments (x.onto whole) (r.moved place) c (s.rename f) method skip) := by
  unfold libraryArguments
  rw [carriesData_onto embeds]
  exact (retraces_argumentsOf embeds).bind fun _ => .forM fun _ _ => retraces_fork embeds ..

/-- What a call resolves to is the same method, at its other position. -/
theorem resolved_onto (holds : x.program.Holds s) {method : MethodRef} (calls : s.operation.method? = some method) :
    ((x.onto whole).index.resolve? method).bind (fun id => ((x.onto whole).program.method? id).map (id, ·)) =
      ((x.index.resolve? method).bind fun id => (x.program.method? id).map (id, ·)).map
        (Prod.map (MethodId.rename f) id) := by
  rw [Context.index_onto, embeds.resolve? holds calls]
  cases x.index.resolve? method with
  | none => rfl
  | some id =>
    simp only [Option.map_some, Option.bind_some, method?_onto embeds, Option.map_map]
    rfl

/-- A search for the results of a method of the part is about that method. -/
theorem agrees_result {m : MethodId} {callee : Method} (isMethod : x.program.method? m = some callee)
    {q : ContentSearch} (owner : q.owner = callee.owner) : Item.Agrees f x whole (.content .result q) := by
  have isClass := embeds.owned isMethod
  rw [← owner] at isClass
  exact embeds.declared? isClass _ _

theorem retraces_callResult (holds : x.program.Holds s) {method : MethodRef}
    (calls : s.operation.method? = some method) :
    Retraces f x whole (callResult x r c s method)
      (callResult (x.onto whole) (r.moved place) c (s.rename f) method) := by
  unfold callResult
  rw [resolved_onto embeds holds calls]
  cases resolved : (x.index.resolve? method).bind fun id => (x.program.method? id).map (id, ·) with
  | none => exact (retraces_terminal embeds ..).bind fun _ => retraces_libraryArguments embeds ..
  | some found =>
    obtain ⟨m, callee⟩ := found
    obtain ⟨m', _, made⟩ := Option.bind_eq_some_iff.mp resolved
    obtain ⟨callee', isMethod, same⟩ := Option.map_eq_some_iff.mp made
    cases same
    dsimp only [Option.map_some, Prod.map, id]
    split
    · exact (retraces_terminal embeds ..).bind fun _ => .pure _
    · exact (retraces_step embeds ..).bind fun _ =>
        retraces_admitContent embeds (by exact agrees_result embeds isMethod rfl)

theorem setByLiteral_onto (register : Register) :
    setByLiteral (x.onto whole) (s.rename f) register = setByLiteral x s register := by
  unfold setByLiteral
  rw [Context.index_onto, embeds.definition?]
  cases x.index.definition? s register <;> rfl

theorem retraces_builtArray (elements : List Register) (type : String) :
    Retraces f x whole (builtArray x r c s elements type)
      (builtArray (x.onto whole) (r.moved place) c (s.rename f) elements type) := by
  unfold builtArray
  refine (retraces_step embeds ..).bind fun _ => (Retraces.forM fun _ _ => retraces_fork embeds ..).bind fun _ => ?_
  rw [show setByLiteral (x.onto whole) (s.rename f) = setByLiteral x s from funext (setByLiteral_onto embeds)]
  split
  · exact .pure _
  · exact retraces_record embeds ..

theorem retraces_pickedResult :
    Retraces f x whole (pickedResult x r c s) (pickedResult (x.onto whole) (r.moved place) c (s.rename f)) := by
  unfold pickedResult
  rw [Context.index_onto, embeds.previousExecutable?]
  cases found : x.index.previousExecutable? s with
  | none => exact retraces_illogical embeds ..
  | some p =>
    dsimp only [Option.map_some]
    rw [show (p.rename f).operation = p.operation from rfl]
    cases does : p.operation with
    | filledNewArray elements type => exact retraces_builtArray embeds ..
    | invoke _ method =>
      exact retraces_callResult embeds (Index.holds_of_previousExecutable? found) (by simp [does, Operation.method?])
    | _ => exact retraces_illogical embeds ..

end Actions

end SmaliTrace.Slice
