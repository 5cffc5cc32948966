import SmaliTrace.Proofs.Index.Scan
import SmaliTrace.Proofs.Slice.Climb
import SmaliTrace.Proofs.Slice.GroundedActions

/-!
What an item records and asks for, by its fuzzy level. Every constant says which line of the program it comes
from; it has the level of the item in progress, but for one that stands for an array filled by a library call,
which is one level above. What an item asks for is at its own level or one above, under its own offset or the one
for results.
-/
namespace SmaliTrace.Slice
open SmaliTrace.Smali SmaliTrace.ClassFile
open SmaliTrace.Text (Octets)

variable {α β : Type} {x : Context} {r : RegisterSearch} {c : Cursor} {s : Site} {σ τ : State} {level offset : Int}
  {tops : BlockId → Register → Prop}

/-! ### Constants and where they come from -/

/-- The line is a call of the method. -/
def IsCall (x : Context) (line : LineId) (method : MethodRef) : Prop :=
  ∃ arguments, x.program.operation? line = some (.invoke arguments method)

/-- The line reads the field. -/
def IsFieldRead (p : Program) (line : LineId) (field : FieldRef) : Prop :=
  ∃ op, p.operation? line = some op ∧ (op.kind = .instanceGet ∨ op.kind = .staticGet) ∧ op.field? = some field

/-- The content search is for the field that its line reads. -/
def ContentSearch.Reads (x : Context) (search : ContentSearch) : Prop :=
  ∃ field, IsFieldRead x.program search.line field ∧
    x.program.fieldTarget field = (search.owner, search.identifier)

/-- A backward search for what a field holds was asked for where the field is read. -/
def Item.Proper (x : Context) : Item → Prop
  | .register _ | .content .result _ => True
  | .content .field search | .content .array search => x.forward = false → search.Reads x

/-- The constants that a search may record while an item of the level is in progress that comes to the tops. -/
inductive Recorded (x : Context) (tops : BlockId → Register → Prop) (level : Int) : Constant → Prop
  | literal {line : LineId} {d : Register} {raw : String} {value : Octets} {kind : ConstantKind} {node : NodeId}
      (loads : x.program.operation? line = some (.constLiteral d raw)) (isValue : Literal.value raw = .ok value)
      (isLocal : kind = .localVariable ∨ kind = .localAnonymous) :
      Recorded x tops level ⟨kind, value, raw, level, x.search, line, node⟩
  | operand {line : LineId} {d source : Register} {raw : String} {value : Octets} {node : NodeId}
      (computes : x.program.operation? line = some (.literalMath d source raw))
      (isValue : Literal.value raw = .ok value) :
      Recorded x tops level ⟨.mathConstant, value, raw, level, x.search, line, node⟩
  | payload {m : MethodId} {i : Nat} {array : Register} {label : String} {raws : List String}
      {values : List Octets} {node : NodeId}
      (fills : x.program.operation? (.body m i) = some (.fillArrayData array label))
      (entries : Slice.payload x m label = .ok raws) (areValues : raws.mapM Literal.value = .ok values) :
      Recorded x tops level ⟨.array,
        ⟨(Octets.ofString "[").bytes ++ joinOctets ", " values ++ (Octets.ofString "]").bytes⟩,
        Text.join " " raws, level, x.search, .body m i, node⟩
  | made {line : LineId} {value : String} {node : NodeId} (inside : (x.program.operation? line).isSome) :
      Recorded x tops level ⟨.internalOpcode, value, (x.label line).text, level, x.search, line, node⟩
  | uncalled {m : MethodId} {method : Method} {register : Register} {position : Int} {entry : Site}
      {rest : List Site} {node : NodeId} (alone : x.index.sitesOf (x.index.callSitesOf m) = [])
      (first : x.index.sites ⟨m, 0⟩ = entry :: rest) (isMethod : x.program.method? m = some method)
      (parameter : method.paramIndex? register = some position) (top : tops ⟨m, 0⟩ register) :
      Recorded x tops level ⟨.uncalledMethod, x.program.methodText m ++ " param " ++ toString position,
        x.program.methodText m, level, x.search, entry.id, node⟩
  | native {line : LineId} {method : MethodRef} {id : MethodId} {m : Method} {value : String} {node : NodeId}
      (calls : IsCall x line method) (resolves : x.index.resolve? method = some id)
      (isMethod : x.program.method? id = some m) (isNative : m.isNative = true) :
      Recorded x tops level ⟨.nativeMethod, value, (x.label line).text, level, x.search, line, node⟩
  | external {line : LineId} {method : MethodRef} {node : NodeId} (calls : IsCall x line method)
      (unresolved : x.index.resolve? method = none) :
      Recorded x tops level ⟨.externalMethod, method.text, (x.label line).text, level, x.search, line, node⟩
  | filled {line : LineId} {method : MethodRef} {node : NodeId} (backward : x.forward = false)
      (calls : IsCall x line method) (unresolved : x.index.resolve? method = none) :
      Recorded x tops level ⟨.externalMethod, method.text, (x.label line).text, level + 1, x.search, line, node⟩
  | unanswered {line : LineId} {value : String} {node : NodeId} :
      Recorded x tops level ⟨.externalMethod, value, (x.label line).text, level, x.search, line, node⟩
  | foreign {search : ContentSearch} {node : NodeId} (reads : search.Reads x)
      (undeclared : trackedField? x search = none) (unwritten : fieldStores x search.name = []) :
      Recorded x tops level ⟨.fieldConstant, search.name, (x.label search.line).text, level, x.search, search.line,
        node⟩
  | initial {cls f : Nat} {field : FieldDecl} {value : Octets} {node : NodeId}
      (isField : x.program.field? cls f = some field) (isValue : Literal.value field.value = .ok value) :
      Recorded x tops level ⟨.fieldConstant, value, field.value, level, x.search, .declaration cls f, node⟩

/-- A constant has the level of its item, unless it is a library call that may fill an array. -/
theorem Recorded.fuzzy_cases {k : Constant} (recorded : Recorded x tops level k) :
    k.fuzzy = level ∨ k.fuzzy = level + 1 ∧ x.forward = false ∧ k.kind = .externalMethod ∧
      ∃ method, IsCall x k.line method ∧ x.index.resolve? method = none := by
  cases recorded with
  | filled backward calls unresolved => exact .inr ⟨rfl, backward, rfl, _, calls, unresolved⟩
  | _ => exact .inl rfl

/-! ### Lines of the program -/

theorem operation?_of_mem_sites (faithful : x.index.Faithful) (inside : s ∈ x.index.allSites) :
    x.program.operation? s.id = some s.operation := by
  obtain ⟨b, _, inside⟩ := List.mem_flatMap.mp inside
  obtain ⟨n, atN⟩ := List.mem_iff_getElem?.mp inside
  obtain ⟨_, _, sameMethod, isLine, _⟩ := faithful.site_of_getElem? atN
  rw [← sameMethod] at isLine
  simp [Program.operation?, Site.id, Context.program, isLine, Site.operation]

theorem text_of_mem_sites (faithful : x.index.Faithful) (inside : s ∈ x.index.allSites) :
    s.text = (x.label s.id).text := by
  obtain ⟨b, _, inside⟩ := List.mem_flatMap.mp inside
  obtain ⟨n, atN⟩ := List.mem_iff_getElem?.mp inside
  obtain ⟨_, _, sameMethod, isLine, _⟩ := faithful.site_of_getElem? atN
  rw [← sameMethod, Program.line?] at isLine
  obtain ⟨m, isMethod, isLine⟩ := Option.bind_eq_some_iff.mp isLine
  simp [Context.label, Program.label, Site.id, Context.program, isMethod, Method.lineLabel?, isLine, Site.text]

theorem isFieldRead_of_mem_sites (faithful : x.index.Faithful) (inside : s ∈ x.index.allSites)
    (reads : s.operation.kind = .instanceGet ∨ s.operation.kind = .staticGet) {field : FieldRef}
    (named : s.operation.field? = some field) : IsFieldRead x.program s.id field :=
  ⟨s.operation, operation?_of_mem_sites faithful inside, reads, named⟩

/-! ### Edits of a level -/

/-- One change that an item of the level and offset makes to the state. -/
inductive RecordEdit (x : Context) (tops : BlockId → Register → Prop) (level offset : Int) : State → State → Prop
  | request (σ : State) (item : Item) (proper : item.Proper x) (atLevel : item.level = level ∨ item.level = level + 1)
      (atOffset : item.offset = offset ∨
        item.offset = max offset (Number.wrap (x.options.maxFuzzy - 3))) : RecordEdit x tops level offset σ (σ.ask item)
  | node (σ : State) (line : LineId) (pred : Option NodeId) (key : EdgeKey) :
      RecordEdit x tops level offset σ { σ with work := (σ.work.addNode line pred key).1 }
  | constant (σ : State) (line : LineId) (pred : Option NodeId) (register target : Register) :
      RecordEdit x tops level offset σ { σ with work := (σ.work.addConstant line pred register target).1 }
  | produced (σ : State) (id : NodeId) (key : EdgeKey) :
      RecordEdit x tops level offset σ { σ with work := σ.work.produce id key }
  | kept (σ : State) (k : Constant) (recorded : Recorded x tops level k) : RecordEdit x tops level offset σ (σ.keep k)

/-- The action makes edits of the level and offset only. -/
structure RecordsAt (x : Context) (tops : BlockId → Register → Prop) (level offset : Int) (a : SearchM α) : Prop where
  run : ∀ σ, Relation.ReflTransGen (RecordEdit x tops level offset) σ (exec a σ).2

namespace RecordsAt

theorem pure {v : α} : RecordsAt x tops level offset (pure v) := ⟨fun _ => .refl⟩

theorem misshapen {line : LineId} {shape : Misshape} :
    RecordsAt x tops level offset (misshapen x line shape : SearchM α) := ⟨fun _ => .refl⟩

theorem illogical {line : LineId} {surprise : Surprise} :
    RecordsAt x tops level offset (illogical x line surprise : SearchM α) := ⟨fun _ => .refl⟩

/-- What follows an action may rely on how the action ran. -/
theorem bind_of_ran {a : SearchM α} {f : α → SearchM β} (first : RecordsAt x tops level offset a)
    (rest : ∀ v σ τ, exec a σ = (.ok v, τ) → RecordsAt x tops level offset (f v)) :
    RecordsAt x tops level offset (a >>= f) := by
  refine ⟨fun σ => ?_⟩
  have start := first.run σ
  rw [exec_bind]
  rcases ran : exec a σ with ⟨_ | v, ρ⟩ <;> rw [ran] at start
  · exact start
  · exact start.trans ((rest v σ ρ ran).run ρ)

theorem bind {a : SearchM α} {f : α → SearchM β} (first : RecordsAt x tops level offset a)
    (rest : ∀ v, RecordsAt x tops level offset (f v)) : RecordsAt x tops level offset (a >>= f) :=
  first.bind_of_ran fun v _ _ _ => rest v

theorem map {a : SearchM α} {f : α → β} (recordsAt : RecordsAt x tops level offset a) :
    RecordsAt x tops level offset (f <$> a) := by
  rw [← bind_pure_comp]
  exact recordsAt.bind fun _ => .pure

theorem forM {items : List β} {f : β → SearchM PUnit} (each : ∀ item ∈ items, RecordsAt x tops level offset (f item)) :
    RecordsAt x tops level offset (items.forM f) := by
  induction items with
  | nil => exact .pure
  | cons item items ih =>
    exact (each item (by simp)).bind fun _ => ih fun other inside => each other (by simp [inside])

/-- An action that the result of does not matter. -/
theorem unit {a : SearchM α} {v : β} (recordsAt : RecordsAt x tops level offset a) :
    RecordsAt x tops level offset (do let _ ← a; Pure.pure v) :=
  recordsAt.bind fun _ => .pure

/-- An action that leaves the state alone, and what is known of its result. -/
theorem reading {a : SearchM α} {f : α → SearchM β} {post : α → Prop}
    (reads : ∀ σ, (∃ fault, exec a σ = (.error fault, σ)) ∨ ∃ v, exec a σ = (.ok v, σ) ∧ post v)
    (rest : ∀ v, post v → RecordsAt x tops level offset (f v)) : RecordsAt x tops level offset (a >>= f) := by
  refine ⟨fun σ => ?_⟩
  rw [exec_bind]
  rcases reads σ with ⟨fault, ran⟩ | ⟨v, ran, holds⟩
  · rw [ran]
  · rw [ran]
    exact (rest v holds).run σ

end RecordsAt

/-! ### The steps that all searches are made of -/

theorem recordsAt_admitRegister {search : RegisterSearch}
    (atLevel : search.fuzzy = level ∨ search.fuzzy = level + 1) (atOffset : search.offset = offset) :
    RecordsAt x tops level offset (admitRegister search) :=
  ⟨fun σ => .single (.request σ (.register search) trivial atLevel (.inl atOffset))⟩

theorem recordsAt_admitContent {kind : Content} {search : ContentSearch}
    (proper : (Item.content kind search).Proper x) (atLevel : search.fuzzy = level)
    (atOffset : search.offset = offset ∨ search.offset = max offset (Number.wrap (x.options.maxFuzzy - 3))) :
    RecordsAt x tops level offset (admitContent kind search) :=
  ⟨fun σ => .single (.request σ (.content kind search) proper (.inl atLevel) atOffset)⟩

theorem recordsAt_produceIf {direct : Bool} {id : Nat} {key : EdgeKey} :
    RecordsAt x tops level offset (produceIf direct id key) := by
  unfold produceIf
  split
  · exact ⟨fun σ => .single (.produced σ id key)⟩
  · exact .pure

theorem recordsAt_addNode {line : LineId} {pred : Option NodeId} {key : EdgeKey} :
    RecordsAt x tops level offset (onWork (·.addNode line pred key)) :=
  ⟨fun σ => .single (.node σ line pred key)⟩

theorem recordsAt_keepConstant {k : Constant} (recorded : Recorded x tops level k) :
    RecordsAt x tops level offset (keepConstant k) :=
  ⟨fun σ => .single (.kept σ k recorded)⟩

theorem recordsAt_step {line : LineId} {source register : Register} :
    RecordsAt x tops level offset (step c line source register) :=
  recordsAt_addNode.bind fun _ => recordsAt_produceIf.bind fun _ => .pure

theorem recordsAt_terminal {line : LineId} {kind : ConstantKind} {value : Octets} {raw : String} {fuzzy : Int}
    (recorded : ∀ node, Recorded x tops level ⟨kind, value, raw, fuzzy, x.search, line, node⟩) :
    RecordsAt x tops level offset (terminal x c line kind value raw fuzzy) := by
  refine RecordsAt.bind ⟨fun σ => .single (.constant σ line c.origin c.register c.originRegister)⟩ fun id => ?_
  exact (recordsAt_keepConstant (recorded id)).bind fun _ => recordsAt_produceIf.bind fun _ => .pure

theorem recordsAt_record {line : LineId} {kind : ConstantKind} {value : Octets} {raw : String} {fuzzy : Int}
    (recorded : ∀ node, Recorded x tops level ⟨kind, value, raw, fuzzy, x.search, line, node⟩) :
    RecordsAt x tops level offset (record x c line kind value raw fuzzy) :=
  recordsAt_keepConstant (recorded _)

theorem recordsAt_fork {register : Register} {block : BlockId} {position fuzzy : Int}
    (atLevel : fuzzy = r.fuzzy ∨ fuzzy = r.fuzzy + 1) :
    RecordsAt x tops r.fuzzy r.offset (fork r c register block position fuzzy) :=
  recordsAt_admitRegister atLevel rfl

theorem recordsAt_argumentsOf : RecordsAt x tops level offset (argumentsOf x s) := by
  unfold argumentsOf
  split
  · exact .pure
  · exact .misshapen

theorem recordsAt_argumentOf {position : Int} : RecordsAt x tops level offset (argumentOf x s position) := by
  unfold argumentOf
  split
  · exact .pure
  · exact .misshapen

section Index

variable (faithful : x.index.Faithful)
include faithful

/-- A line that makes a value by itself. -/
theorem recorded_made (inside : s ∈ x.index.allSites) (value : String) (node : NodeId) :
    Recorded x tops level ⟨.internalOpcode, value, s.text, level, x.search, s.id, node⟩ := by
  rw [text_of_mem_sites faithful inside]
  exact .made (by simp [operation?_of_mem_sites faithful inside])

/-- A call of a method that is neither analyzed nor native nor abstract. -/
theorem recorded_external (inside : s ∈ x.index.allSites) {arguments : List Register} {method : MethodRef}
    (calls : s.operation = .invoke arguments method) (unresolved : x.index.resolve? method = none) (node : NodeId) :
    Recorded x tops level ⟨.externalMethod, method.text, s.text, level, x.search, s.id, node⟩ := by
  rw [text_of_mem_sites faithful inside]
  exact .external ⟨arguments, by rw [operation?_of_mem_sites faithful inside, calls]⟩ unresolved

theorem recorded_native (inside : s ∈ x.index.allSites) {arguments : List Register} {method : MethodRef}
    (calls : s.operation = .invoke arguments method) {id : MethodId} {m : Method}
    (resolves : x.index.resolve? method = some id) (isMethod : x.program.method? id = some m)
    (isNative : m.isNative = true) (value : String) (node : NodeId) :
    Recorded x tops level ⟨.nativeMethod, value, s.text, level, x.search, s.id, node⟩ := by
  rw [text_of_mem_sites faithful inside]
  exact .native ⟨arguments, by rw [operation?_of_mem_sites faithful inside, calls]⟩ resolves isMethod isNative

omit faithful in
theorem exists_method_of_resolve? {index : Index} {method : MethodRef} {id : MethodId}
    (resolves : index.resolve? method = some id) : ∃ m, index.program.method? id = some m := by
  obtain ⟨found, _, rest⟩ := Option.bind_eq_some_iff.mp resolves
  obtain ⟨m, isMethod, guarded⟩ := Option.bind_eq_some_iff.mp rest
  split at guarded
  · cases guarded
    exact ⟨m, isMethod⟩
  · simp at guarded

/-! ### Where values come from -/

theorem recordsAt_literalLoad (inside : s ∈ x.index.allSites) {d : Register} {raw : String}
    (loads : s.operation = .constLiteral d raw) : RecordsAt x tops r.fuzzy r.offset (literalLoad x r c s raw) := by
  have loads' : x.program.operation? s.id = some (.constLiteral d raw) := by
    rw [operation?_of_mem_sites faithful inside, loads]
  unfold literalLoad
  split
  · exact .misshapen
  · next value isValue =>
    refine .unit (recordsAt_terminal fun node => .literal loads' isValue ?_)
    split
    · exact .inl rfl
    · exact .inr rfl

theorem recordsAt_opcodeValue (inside : s ∈ x.index.allSites) (value : String) :
    RecordsAt x tops r.fuzzy r.offset (opcodeValue x r c s value) :=
  .unit (recordsAt_terminal (recorded_made faithful inside value))

omit faithful in
/-- Reading the entries of a payload leaves the state alone and gives their values. -/
theorem exec_mapM_value (raws : List String) (σ : State) :
    (∃ fault, exec (raws.mapM fun raw =>
      match Literal.value raw with
      | .ok v => (pure v : SearchM Octets)
      | .error e => misshapen x s.id (.element raw e)) σ = (.error fault, σ)) ∨
    ∃ values, exec (raws.mapM fun raw =>
      match Literal.value raw with
      | .ok v => (pure v : SearchM Octets)
      | .error e => misshapen x s.id (.element raw e)) σ = (.ok values, σ) ∧
      raws.mapM Literal.value = .ok values := by
  induction raws with
  | nil => exact .inr ⟨[], rfl, rfl⟩
  | cons raw raws ih =>
    simp only [List.mapM_cons, exec_bind]
    cases isValue : Literal.value raw with
    | error e => exact .inl ⟨_, rfl⟩
    | ok value =>
      rcases ih with ⟨fault, ran⟩ | ⟨values, ran, areValues⟩
      · refine .inl ⟨fault, ?_⟩
        simp only [exec_pure, ran]
      · refine .inr ⟨value :: values, ?_, ?_⟩
        · simp only [exec_pure, ran]
        · rw [areValues]
          rfl

theorem recordsAt_payloadLoad (inside : s ∈ x.index.allSites) {array : Register} {label : String}
    (fills : s.operation = .fillArrayData array label) :
    RecordsAt x tops r.fuzzy r.offset (payloadLoad x r c s label) := by
  have fills' : x.program.operation? (.body s.method s.index) = some (.fillArrayData array label) := by
    rw [← fills]
    exact operation?_of_mem_sites faithful inside
  unfold payloadLoad
  split
  · exact .misshapen
  · next raws entries =>
    refine .reading (exec_mapM_value raws) fun values areValues => ?_
    exact .unit (recordsAt_terminal fun node => .payload fills' entries areValues)

omit faithful in
theorem recordsAt_enterCaller {m : MethodId} {position : Int} :
    RecordsAt x tops r.fuzzy r.offset (enterCaller x r c m position s) := by
  unfold enterCaller
  split
  · exact .illogical
  · exact recordsAt_addNode.bind fun _ => recordsAt_produceIf.bind fun _ => recordsAt_admitRegister (.inl rfl) rfl

omit faithful in
theorem recordsAt_callers {m : MethodId} {method : Method} {position : Int}
    (isMethod : x.program.method? m = some method) (parameter : method.paramIndex? c.register = some position)
    (top : tops ⟨m, 0⟩ c.register) : RecordsAt x tops r.fuzzy r.offset (callers x r c m position) := by
  unfold callers
  split
  · next alone =>
    split
    · exact .pure
    · next entry rest first =>
      exact .unit (recordsAt_terminal fun node => .uncalled alone first isMethod parameter top)
  · exact .forM fun _ _ => recordsAt_enterCaller

omit faithful in
theorem recordsAt_callersAtEntry {b : BlockId} (top : tops b c.register) :
    RecordsAt x tops r.fuzzy r.offset (callersAtEntry x r c b) := by
  unfold callersAtEntry
  split
  · exact .pure
  · next isEntry =>
    split
    · exact .pure
    · next index found =>
      obtain ⟨method, isMethod, parameter⟩ := Option.bind_eq_some_iff.mp found
      have same : b = ⟨b.method, 0⟩ := by
        cases b
        simpa using isEntry
      exact recordsAt_callers isMethod parameter (same ▸ top)

omit faithful in
theorem recordsAt_libraryArguments {method : MethodRef} {skip : Option Register} :
    RecordsAt x tops r.fuzzy r.offset (libraryArguments x r c s method skip) :=
  recordsAt_argumentsOf.bind fun _ => .forM fun _ _ => recordsAt_fork (.inr rfl)

theorem recordsAt_callResult (inside : s ∈ x.index.allSites) {arguments : List Register} {method : MethodRef}
    (calls : s.operation = .invoke arguments method) :
    RecordsAt x tops r.fuzzy r.offset (callResult x r c s method) := by
  unfold callResult
  split
  · next callee found =>
    obtain ⟨id, resolves, isMethod⟩ := Option.bind_eq_some_iff.mp found
    obtain ⟨m, isMethod, same⟩ := Option.map_eq_some_iff.mp isMethod
    cases same
    split
    · next isNative =>
      exact .unit (recordsAt_terminal (recorded_native faithful inside calls resolves isMethod isNative _))
    · exact recordsAt_step.bind fun _ => recordsAt_admitContent trivial rfl (.inr rfl)
  · next unresolved =>
    have unresolved : x.index.resolve? method = none := by
      cases resolves : x.index.resolve? method with
      | none => rfl
      | some id =>
        obtain ⟨m, isMethod⟩ := exists_method_of_resolve? resolves
        simp [resolves, Context.program, isMethod] at unresolved
    exact (recordsAt_terminal (recorded_external faithful inside calls unresolved)).bind fun _ =>
      recordsAt_libraryArguments

theorem recordsAt_builtArray (inside : s ∈ x.index.allSites) {elements : List Register} {type : String} :
    RecordsAt x tops r.fuzzy r.offset (builtArray x r c s elements type) := by
  refine recordsAt_step.bind fun _ => (RecordsAt.forM fun _ _ => recordsAt_fork (.inl rfl)).bind fun _ => ?_
  split
  · exact .pure
  · exact recordsAt_record (recorded_made faithful inside type)

theorem recordsAt_pickedResult : RecordsAt x tops r.fuzzy r.offset (pickedResult x r c s) := by
  unfold pickedResult
  split
  · exact .illogical
  · next p previous =>
    have inside := faithful.mem_allSites_of_previousExecutable? previous
    split
    · exact recordsAt_builtArray faithful inside
    · next calls => exact recordsAt_callResult faithful inside calls
    · exact .illogical

/-! ### Arrays -/

omit faithful in
theorem recordsAt_elementStore {call : Option Site} {array value : Register} :
    RecordsAt x tops r.fuzzy r.offset (elementStore r c call s array value) := by
  have stored : ∀ c, RecordsAt x tops r.fuzzy r.offset (do
      let c ← step c s.id array array
      fork r c value s.blockId ((s.position : Int) - 1) r.fuzzy) :=
    fun c => recordsAt_step.bind fun _ => recordsAt_fork (.inl rfl)
  unfold elementStore
  split
  · exact recordsAt_step.bind stored
  · exact RecordsAt.pure.bind stored

omit faithful in
theorem recordsAt_storesInBlock {array : Register} {call : Option Site} (sites : List Site) :
    RecordsAt x tops r.fuzzy r.offset (storesInBlock x r c array call sites) := by
  induction sites with
  | nil => exact .pure
  | cons s sites ih =>
    unfold storesInBlock
    split
    · split
      · exact recordsAt_elementStore.bind fun _ => ih
      · exact ih
    · split
      · exact recordsAt_argumentOf.bind fun _ => recordsAt_elementStore.bind fun _ => ih
      · exact ih
    · split
      · exact .pure
      · exact ih

omit faithful in
theorem recordsAt_walkStores {array : Register} {call : Option Site} (f : Frontier)
    (queue : List (BlockId × Int)) : RecordsAt x tops r.fuzzy r.offset (walkStores x r c array call f queue) := by
  induction f, queue using walkStores.induct x with
  | case1 f => rw [walkStores]; exact .pure
  | case2 f b position rest onward stay =>
    rw [walkStores]
    refine (recordsAt_storesInBlock _).bind fun holds => ?_
    split
    · exact onward
    · exact stay

omit faithful in
theorem recordsAt_argumentStores {callee : MethodId} {position : Int} :
    RecordsAt x tops r.fuzzy r.offset (argumentStores x r c s callee position) := by
  refine .forM fun body _ => ?_
  split
  · exact .pure
  · exact .illogical
  · exact recordsAt_walkStores ..

section Backward

variable (backward : x.forward = false)
include backward

/-- A library call that is handed the array may fill it, and is one level above. -/
theorem recordsAt_filledByCall (inside : s ∈ x.index.allSites) {registers : List Register} {method : MethodRef}
    (calls : s.operation = .invoke registers method) (arguments : List Argument) :
    RecordsAt x tops r.fuzzy r.offset (filledByCall x r c s method arguments) := by
  unfold filledByCall
  split
  · exact .pure
  · split
    · exact recordsAt_argumentStores.bind fun _ => .pure
    · next unresolved =>
      refine recordsAt_terminal fun node => ?_
      rw [text_of_mem_sites faithful inside]
      exact .filled backward ⟨registers, by rw [operation?_of_mem_sites faithful inside, calls]⟩ unresolved

omit faithful backward in
theorem recordsAt_copiedFrom {redirect : Redirect} : RecordsAt x tops r.fuzzy r.offset (copiedFrom x r c s redirect) :=
  recordsAt_argumentOf.bind fun _ => recordsAt_step.bind fun _ => (recordsAt_fork (.inl rfl)).bind fun _ => .pure

theorem recordsAt_arrayCall (inside : s ∈ x.index.allSites) {registers : List Register} {method : MethodRef}
    (calls : s.operation = .invoke registers method) :
    RecordsAt x tops r.fuzzy r.offset (arrayCall x r c s method) := by
  unfold arrayCall
  split
  · exact .pure
  · split
    · exact recordsAt_copiedFrom
    · exact recordsAt_argumentsOf.bind fun _ => recordsAt_filledByCall faithful backward inside calls _

theorem recordsAt_arrayLine (inside : s ∈ x.index.allSites) : RecordsAt x tops r.fuzzy r.offset (arrayLine x r c s) := by
  unfold arrayLine
  split
  · split
    · exact .unit (recordsAt_opcodeValue faithful inside _)
    · exact .pure
  · next fills =>
    split
    · exact .unit (recordsAt_payloadLoad faithful inside fills)
    · exact .pure
  · split
    · exact recordsAt_step.bind fun _ => .unit (recordsAt_fork (.inl rfl))
    · exact .pure
  · next loads =>
    split
    · exact .pure
    · split
      · exact .pure
      · exact .unit (recordsAt_literalLoad faithful inside loads)
  · split
    · exact .unit (recordsAt_opcodeValue faithful inside _)
    · exact .pure
  iterate 2
    split
    · exact recordsAt_step.map
    · exact .pure
  iterate 2
    next reads =>
    split
    · have isRead := isFieldRead_of_mem_sites faithful inside (by simp [reads, Operation.kind])
        (by rw [reads, Operation.field?])
      exact recordsAt_step.bind fun _ => .unit (recordsAt_admitContent (fun _ => ⟨_, isRead, rfl⟩) rfl (.inl rfl))
    · exact .pure
  · split
    · exact .unit (recordsAt_fork (.inl rfl))
    · exact .pure
  · next calls => exact (recordsAt_arrayCall faithful backward inside calls).map
  · split
    · exact .unit (recordsAt_opcodeValue faithful inside _)
    · exact .pure

theorem recordsAt_arrayLines (sites : List Site) (inside : ∀ s ∈ sites, s ∈ x.index.allSites) :
    RecordsAt x tops r.fuzzy r.offset (arrayLines x r c sites) := by
  induction sites generalizing c with
  | nil => exact .pure
  | cons s sites ih =>
    refine (recordsAt_arrayLine faithful backward (inside s (by simp))).bind fun left => ?_
    split
    · exact ih fun t isRest => inside t (by simp [isRest])
    · exact .pure

theorem recordsAt_walkArray (f : Frontier) (queue : List ArrayFrame)
    (rises : ∀ b register, Rises x f (queue.map ArrayFrame.place) b register → tops b register) :
    RecordsAt x tops r.fuzzy r.offset (walkArray x r f queue) := by
  induction f, queue using walkArray.induct x with
  | case1 f => rw [walkArray]; exact .pure
  | case2 f frame rest stay onward =>
    rw [walkArray]
    refine (recordsAt_arrayLines faithful backward _ (inside_linesBack faithful _ _)).bind_of_ran fun left σ τ ran => ?_
    have risen := risen?_of_arrayLines ran
    split
    · exact stay fun b register later => rises b register (.stuck risen later)
    · next c =>
      have top : tops frame.block c.register := rises _ _ (.here risen)
      refine (recordsAt_callersAtEntry top).bind fun _ => onward c fun b register later => ?_
      rw [map_place_append] at later
      exact rises b register (.onward risen later)

/-- Array mode that starts right above a line. -/
theorem recordsAt_arrayOrigin (b : BlockId) (n : Nat)
    (rises : ∀ b' register, Rises x (.start x.options.arrayDepth b.index) [⟨c.register, b, n⟩] b' register →
      tops b' register) : RecordsAt x tops r.fuzzy r.offset (arrayOrigin x r c b ((n : Int) - 1)) := by
  refine recordsAt_walkArray faithful backward _ _ fun b' register rise => rises b' register ?_
  rwa [place_start] at rise

/-! ### Backward searches -/

theorem recordsAt_backwardCall (inside : s ∈ x.index.allSites) {registers : List Register} {method : MethodRef}
    (calls : s.operation = .invoke registers method) :
    RecordsAt x tops r.fuzzy r.offset (backwardCall x r c s method) := by
  unfold backwardCall
  split
  · exact .pure
  · refine recordsAt_argumentsOf.bind fun arguments => ?_
    split
    · exact recordsAt_copiedFrom
    · dsimp only
      split
      · exact recordsAt_step.bind fun _ => recordsAt_libraryArguments.bind fun _ => .pure
      · exact recordsAt_filledByCall faithful backward inside calls _

omit faithful backward in
theorem recordsAt_backwardMath {left right : Register} :
    RecordsAt x tops r.fuzzy r.offset (backwardMath r c s left right) := by
  refine recordsAt_step.bind fun c => ?_
  dsimp only
  split
  · exact .unit (recordsAt_fork (.inl rfl))
  · exact .pure

omit faithful backward in
theorem recordsAt_backwardFieldRead {field : FieldRef} (isRead : IsFieldRead x.program s.id field) :
    RecordsAt x tops r.fuzzy r.offset (backwardFieldRead x r c s field) := by
  rw [backwardFieldRead]
  cases target : x.program.fieldTarget field with
  | mk owner name =>
    refine recordsAt_step.bind fun c => ?_
    split
    · exact .pure
    · exact recordsAt_admitContent (fun _ => ⟨field, isRead, target⟩) rfl (.inl rfl)

theorem recordsAt_backwardDefinition (inside : s ∈ x.index.allSites)
    (rows : ∀ element array position, s.operation = .arrayGet element array position → ∀ b register,
      Rises x (.start x.options.arrayDepth s.block) [⟨array, s.blockId, s.position⟩] b register → tops b register) :
    RecordsAt x tops r.fuzzy r.offset (backwardDefinition x r c s) := by
  have isLine := operation?_of_mem_sites faithful inside
  unfold backwardDefinition
  split
  iterate 2 exact recordsAt_step.map
  · next d source raw computes =>
    refine recordsAt_step.bind fun c => ?_
    split
    · exact .misshapen
    · next value isValue =>
      exact .unit (recordsAt_record fun node => .operand (by rw [isLine, computes]) isValue)
  iterate 2 exact recordsAt_backwardMath
  · next element array position reads =>
    refine recordsAt_step.bind_of_ran fun c' σ τ stepped => .unit (recordsAt_arrayOrigin faithful backward _ _ ?_)
    rw [register_of_step stepped]
    exact rows element array position reads
  · exact .unit (recordsAt_pickedResult faithful)
  · next loads => exact .unit (recordsAt_literalLoad faithful inside loads)
  iterate 3 exact .unit (recordsAt_opcodeValue faithful inside _)
  iterate 2
    next reads =>
    refine .unit (recordsAt_backwardFieldRead (isFieldRead_of_mem_sites faithful inside ?_ ?_))
    · simp [reads, Operation.kind]
    · rw [reads, Operation.field?]
  · exact .unit (recordsAt_opcodeValue faithful inside _)

theorem recordsAt_backwardLine (inside : s ∈ x.index.allSites)
    (rows : ∀ array position, s.operation = .arrayGet c.register array position → ∀ b register,
      Rises x (.start x.options.arrayDepth s.block) [⟨array, s.blockId, s.position⟩] b register → tops b register) :
    RecordsAt x tops r.fuzzy r.offset (backwardLine x r c s) := by
  unfold backwardLine
  split
  · next defines =>
    refine recordsAt_backwardDefinition faithful backward inside fun element array position reads => ?_
    have same : element = c.register := by simpa [reads, Operation.defines, Operation.result?] using defines
    exact rows array position (same ▸ reads)
  · split
    iterate 2
      split
      · exact .pure
      · exact .illogical
    · next fills =>
      split
      · exact .unit (recordsAt_payloadLoad faithful inside fills)
      · exact .pure
    · split
      · exact recordsAt_step.bind fun _ => .unit (recordsAt_fork (.inl rfl))
      · exact .pure
    · next calls => exact (recordsAt_backwardCall faithful backward inside calls).map
    · exact .pure

theorem recordsAt_backwardLines (sites : List Site) (inside : ∀ s ∈ sites, s ∈ x.index.allSites)
    (rows : ∀ before (read : Site) rest element array position, sites = before ++ read :: rest →
      before.foldlM followed? c.register = some element → read.operation = .arrayGet element array position →
      ∀ b register, Rises x (.start x.options.arrayDepth read.block) [⟨array, read.blockId, read.position⟩] b register →
        tops b register) :
    RecordsAt x tops r.fuzzy r.offset (backwardLines x r c sites) := by
  induction sites generalizing c with
  | nil => exact .pure
  | cons s sites ih =>
    have here := recordsAt_backwardLine (r := r) faithful backward (inside s (by simp))
      fun array position reads => rows [] s sites c.register array position rfl rfl reads
    refine here.bind_of_ran fun left σ τ ran => ?_
    split
    · next c' =>
      refine ih (fun t isRest => inside t (by simp [isRest])) ?_
      intro before read rest element array position split climbed
      refine rows (s :: before) read rest element array position (by rw [split]; rfl) ?_
      rw [List.foldlM_cons, followed?_of_backwardLine ran]
      exact climbed
    · exact .pure

omit faithful backward in
theorem recordsAt_blockTop (top : tops r.block c.register) :
    RecordsAt x tops r.fuzzy r.offset (blockTop x r c) := by
  refine RecordsAt.bind (.forM fun _ _ => ?_) fun _ => recordsAt_callersAtEntry top
  exact recordsAt_admitRegister (.inl rfl) rfl

theorem recordsAt_backwardRegister :
    RecordsAt x (Surfaces x (.register r)) r.fuzzy r.offset (backwardRegister x r) := by
  have lines : RecordsAt x (Surfaces x (.register r)) r.fuzzy r.offset
      (backwardLines x r r.cursor (linesBack x r.block r.index)) :=
    recordsAt_backwardLines faithful backward _ (inside_linesBack faithful _ _)
      fun _ _ _ _ _ _ split climbed reads _ _ => .row split climbed reads
  refine lines.bind_of_ran fun left σ τ ran => ?_
  split
  · next c => exact recordsAt_blockTop (.climbs (followed?_of_backwardLines ran))
  · exact .pure

variable {search : ContentSearch}

omit faithful backward in
theorem recordsAt_foreignField (reads : search.Reads x) (undeclared : trackedField? x search = none)
    (unwritten : fieldStores x search.name = []) :
    RecordsAt x tops search.fuzzy search.offset (foreignField x search) :=
  .unit (recordsAt_terminal fun _ => .foreign reads undeclared unwritten)

omit faithful backward in
theorem recordsAt_backwardField (reads : search.Reads x) :
    RecordsAt x tops search.fuzzy search.offset (backwardField x search) := by
  have asked : ∀ {c : Cursor} {register : Register} {block : BlockId} {position : Int},
      RecordsAt x tops search.fuzzy search.offset
        (fork (search.asRegisterSearch search.name) c register block position search.fuzzy) :=
    recordsAt_admitRegister (.inl rfl) rfl
  refine (RecordsAt.forM fun store _ => recordsAt_step.bind fun _ => asked).bind fun _ => ?_
  split
  · next undeclared =>
    split
    · next unwritten => exact recordsAt_foreignField reads undeclared (List.isEmpty_iff.mp unwritten)
    · exact .pure
  · next line f tracked =>
    obtain ⟨⟨cls, position⟩, _, rest⟩ := Option.bind_eq_some_iff.mp tracked
    obtain ⟨f', isField, same⟩ := Option.bind_eq_some_iff.mp rest
    cases same
    split
    · split
      · exact .misshapen
      · next value isValue => exact .unit (recordsAt_terminal fun node => .initial isField isValue)
    · exact .pure

theorem recordsAt_backwardArrayField (reads : search.Reads x) :
    RecordsAt x (Surfaces x (.content .array search)) search.fuzzy search.offset (backwardArrayField x search) := by
  have stores : ∀ {c : Cursor} {array : Register} {b : BlockId} {position : Int},
      RecordsAt x (Surfaces x (.content .array search)) search.fuzzy search.offset
        (arrayStores x (search.asRegisterSearch search.name) c array none b position) :=
    recordsAt_walkStores (r := search.asRegisterSearch search.name) _ _
  refine (RecordsAt.forM fun store stored => recordsAt_step.bind_of_ran fun c σ τ stepped => ?_).bind fun _ => ?_
  · refine recordsAt_arrayOrigin (r := search.asRegisterSearch search.name) faithful backward _ _ ?_
    rw [register_of_step stepped]
    exact fun _ _ => .stored stored
  refine (RecordsAt.forM fun _ _ => recordsAt_step.bind fun _ => stores).bind fun _ => ?_
  split
  · next nothing =>
    simp only [Bool.and_eq_true, List.isEmpty_iff, Option.isNone_iff_eq_none] at nothing
    exact recordsAt_foreignField reads nothing.2 nothing.1
  · exact .pure

omit faithful backward in
theorem recordsAt_backwardResult : RecordsAt x tops search.fuzzy search.offset (backwardResult x search) := by
  unfold backwardResult
  split
  · exact .unit (recordsAt_terminal fun _ => .unanswered)
  · exact .forM fun _ _ => recordsAt_step.bind fun _ => recordsAt_admitRegister (.inl rfl) rfl

end Backward

/-! ### Forward searches -/

omit faithful in
theorem recordsAt_followPickUp {fuzzy : Int} (atLevel : fuzzy = r.fuzzy ∨ fuzzy = r.fuzzy + 1) :
    RecordsAt x tops r.fuzzy r.offset (followPickUp x r c s fuzzy) := by
  unfold followPickUp
  split
  · exact .pure
  · exact recordsAt_fork atLevel

omit faithful in
theorem recordsAt_enterBody {arguments : List Argument} {body : MethodId} :
    RecordsAt x tops r.fuzzy r.offset (enterBody x r c s arguments body) := by
  refine .forM fun a _ => ?_
  split
  · exact .pure
  · exact .illogical
  · exact recordsAt_admitRegister (.inl rfl) rfl

theorem recordsAt_forwardCall (inside : s ∈ x.index.allSites) {registers : List Register} {method : MethodRef}
    (calls : s.operation = .invoke registers method) :
    RecordsAt x tops r.fuzzy r.offset (forwardCall x r c s method) := by
  unfold forwardCall
  split
  · exact recordsAt_argumentOf.bind fun _ => recordsAt_step.bind fun _ => recordsAt_fork (.inl rfl)
  · refine recordsAt_argumentsOf.bind fun arguments => ?_
    dsimp only
    split
    · exact recordsAt_step.bind fun _ => .forM fun _ _ => recordsAt_enterBody
    · next noBody =>
      refine RecordsAt.bind (recordsAt_terminal fun node => ?_) fun _ => recordsAt_followPickUp (.inr rfl)
      cases resolves : x.index.resolve? method with
      | none => exact recorded_external faithful inside calls resolves node
      | some id =>
        obtain ⟨m, isMethod⟩ := exists_method_of_resolve? resolves
        have isNative : m.isNative = true := by
          simpa [resolves, Context.program, isMethod, Option.filter] using noBody
        simpa [resolves, Context.program, isMethod] using
          recorded_native faithful inside calls resolves isMethod isNative method.text node

omit faithful in
theorem recordsAt_forwardElement (forward : x.forward = true) {array : Register} :
    RecordsAt x tops r.fuzzy r.offset (forwardElement x r c s array) := by
  refine recordsAt_step.bind fun c => ?_
  split
  · exact recordsAt_admitContent (fun backward => by simp [forward] at backward) rfl (.inl rfl)
  · exact recordsAt_fork (.inl rfl)

omit faithful in
theorem recordsAt_forwardStore (forward : x.forward = true) {field : FieldRef} :
    RecordsAt x tops r.fuzzy r.offset (forwardStore x r c s field) :=
  recordsAt_step.bind fun _ => recordsAt_admitContent (fun backward => by simp [forward] at backward) rfl (.inl rfl)

omit faithful in
theorem recordsAt_forwardResult {result : Register} :
    RecordsAt x tops r.fuzzy r.offset (forwardResult r c s result) :=
  recordsAt_step.bind fun _ => recordsAt_fork (.inl rfl)

omit faithful in
theorem recordsAt_forwardReturn : RecordsAt x tops r.fuzzy r.offset (forwardReturn x r c s) := by
  refine recordsAt_step.bind fun c => ?_
  split
  · exact .pure
  · split
    · exact recordsAt_admitContent trivial rfl (.inl rfl)
    · exact .pure

theorem recordsAt_forwardUse (forward : x.forward = true) (inside : s ∈ x.index.allSites) :
    RecordsAt x tops r.fuzzy r.offset (forwardUse x r c s) := by
  unfold forwardUse
  split
  iterate 10 exact .unit recordsAt_forwardResult
  · split
    · exact .unit (recordsAt_forwardElement forward)
    · exact .pure
  iterate 2
    split
    · exact .unit (recordsAt_forwardStore forward)
    · exact .pure
  · exact recordsAt_step.bind fun _ => .unit (recordsAt_followPickUp (.inl rfl))
  · exact .unit recordsAt_forwardReturn
  · next calls => exact .unit (recordsAt_forwardCall faithful inside calls)
  · exact .pure

theorem recordsAt_forwardLines (forward : x.forward = true) (sites : List Site)
    (inside : ∀ s ∈ sites, s ∈ x.index.allSites) : RecordsAt x tops r.fuzzy r.offset (forwardLines x r c sites) := by
  induction sites with
  | nil => exact .pure
  | cons s sites ih =>
    have rest : ∀ goesOn : Bool, RecordsAt x tops r.fuzzy r.offset
        (if goesOn && !s.operation.defines c.register then forwardLines x r c sites else pure false) := by
      intro goesOn
      split
      · exact ih fun t isRest => inside t (by simp [isRest])
      · exact .pure
    unfold forwardLines
    split
    · exact (recordsAt_forwardUse faithful forward (inside s (by simp))).bind rest
    · exact rest true

theorem recordsAt_forwardRegister (forward : x.forward = true) :
    RecordsAt x tops r.fuzzy r.offset (forwardRegister x r) := by
  refine (recordsAt_forwardLines faithful forward _ (inside_linesOn faithful _ _)).bind fun goesOn => ?_
  split
  · exact .forM fun _ _ => recordsAt_admitRegister (.inl rfl) rfl
  · exact .pure

variable {search : ContentSearch}

omit faithful in
theorem recordsAt_forwardField : RecordsAt x tops search.fuzzy search.offset (forwardField x search) :=
  .forM fun _ _ => recordsAt_step.bind fun _ => recordsAt_admitRegister (.inl rfl) rfl

omit faithful in
theorem recordsAt_forwardCallers : RecordsAt x tops search.fuzzy search.offset (forwardCallers x search) := by
  unfold forwardCallers
  split
  · exact .pure
  · refine .forM fun s _ => ?_
    split
    · exact .pure
    · exact recordsAt_step.bind fun _ => recordsAt_step.bind fun _ => recordsAt_admitRegister (.inl rfl) rfl

/-! ### Items -/

/-- Every item makes edits of its own level and offset. -/
theorem Item.recordsAt_perform (item : Item) (proper : item.Proper x) :
    RecordsAt x (Surfaces x item) item.level item.offset (item.perform x) := by
  cases item with
  | register r =>
    rw [Item.perform, searchRegister]
    cases direction : x.forward with
    | true => exact recordsAt_forwardRegister faithful direction
    | false => exact recordsAt_backwardRegister faithful direction
  | content kind search =>
    rw [Item.perform]
    unfold searchContent
    split
    · exact recordsAt_forwardField
    · exact recordsAt_forwardField
    · next direction => exact recordsAt_backwardField (proper direction)
    · next direction => exact recordsAt_backwardArrayField faithful direction (proper direction)
    · exact recordsAt_forwardCallers
    · exact recordsAt_backwardResult

end Index

end SmaliTrace.Slice
