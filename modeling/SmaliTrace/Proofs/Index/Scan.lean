import SmaliTrace.Proofs.Index.CallSites
import SmaliTrace.Slice.Pattern

/-!
The index as a scan of the program. Lines reach the index by way of blocks, of the summary of their method
and of one table for each kind of question, but every question is answered by the lines that a walk over the
analyzed methods picks, each once and in program order. In what order the methods were prepared does not
matter.
-/
namespace SmaliTrace
open SmaliTrace.ClassFile SmaliTrace.Smali
open SmaliTrace.Text (Octets)

/-! ### The scan -/

/-- What a line does. -/
def Program.operation? (p : Program) : LineId → Option Operation
  | .body m i => (p.line? m i).map CodeLine.operation
  | .declaration _ _ => none

/-- The line stands before the other one in its program. -/
def LineId.Before : LineId → LineId → Prop
  | .body m i, .body n j => m.cls < n.cls ∨ m.cls = n.cls ∧ (m.index < n.index ∨ m.index = n.index ∧ i < j)
  | _, _ => False

namespace Index

/-- The body was decoded, its blocks can be built, and some line of it is executed. -/
def analyzable (m : Method) : Bool :=
  m.fault.isNone && (BlockGraph.build m).isOk && m.lines.any CodeLine.executable

/-- The methods that take part in the analysis, in program order. -/
def analyzedMethods (p : Program) (excluded : List String) : List MethodId :=
  p.methods.filter fun id =>
    (p.classes[id.cls]?).any (fun c => !isExcluded excluded c) && (p.method? id).any analyzable

/-- The lines of a method. -/
def bodyLines (p : Program) (id : MethodId) : List LineId :=
  match p.method? id with
  | some m => (List.range m.lines.size).map (.body id)
  | none => []

/-- The lines of the analyzed methods, in program order. -/
def analyzedLines (p : Program) (excluded : List String) : List LineId :=
  (analyzedMethods p excluded).flatMap (bodyLines p)

/-- The analyzed lines that do what is asked for. -/
def scan (p : Program) (excluded : List String) (test : Operation → Bool) : List LineId :=
  (analyzedLines p excluded).filter fun l => (p.operation? l).any test

/-- A call of a method that the test accepts. -/
def isCallOf (test : MethodRef → Bool) (op : Operation) : Bool :=
  op.kind = .invoke && op.method?.any test

/-- A store to the field with the key. -/
def isWriteOf (p : Program) (key : String) (op : Operation) : Bool :=
  (op.kind = .instancePut || op.kind = .staticPut) && op.field?.any fun f => p.fieldKey f = key

/-- A load of the field with the key. -/
def isReadOf (p : Program) (key : String) (op : Operation) : Bool :=
  (op.kind = .instanceGet || op.kind = .staticGet) && op.field?.any fun f => p.fieldKey f = key

/-- A load of a literal with the normal form. -/
def isLoadOf (value : Octets) (op : Operation) : Bool :=
  op.kind = .const && op.literal ≠ "" && (Literal.value op.literal).toOption = some value

/-- An allocation of the type. -/
def isAllocationOf (type : String) (op : Operation) : Bool := op.kind = .newInstance && op.type = type

/-- A return with a register. -/
def isValueReturn (op : Operation) : Bool := op.kind = .ret && op.registers ≠ []

/-! ### Program order -/

theorem pairwise_before_bodyLines (p : Program) (id : MethodId) :
    (bodyLines p id).Pairwise LineId.Before := by
  unfold bodyLines
  split
  · rw [List.pairwise_map]
    exact List.pairwise_lt_range.imp fun less => .inr ⟨rfl, .inr ⟨rfl, less⟩⟩
  · exact .nil

theorem eq_body_of_mem_bodyLines {p : Program} {id : MethodId} {l : LineId} (inside : l ∈ bodyLines p id) :
    ∃ i, l = .body id i := by
  unfold bodyLines at inside
  split at inside
  · obtain ⟨i, _, rfl⟩ := List.mem_map.mp inside
    exact ⟨i, rfl⟩
  · simp at inside

theorem mem_methodsOf {p : Program} {c : Nat} {id : MethodId} :
    id ∈ p.methodsOf c ↔ id.cls = c ∧ (p.method? id).isSome := by
  obtain ⟨cls, index⟩ := id
  unfold Program.methodsOf Program.method?
  constructor
  · intro inside
    split at inside
    · next found =>
      simp only [List.mem_map, List.mem_range, MethodId.mk.injEq] at inside
      obtain ⟨i, bound, rfl, rfl⟩ := inside
      simp [found, bound]
    · simp at inside
  · rintro ⟨rfl, isMethod⟩
    cases found : p.classes[cls]? with
    | none => simp [found] at isMethod
    | some cls => simpa [found] using isMethod

theorem mem_methods {p : Program} {id : MethodId} : id ∈ p.methods ↔ (p.method? id).isSome := by
  simp only [Program.methods, List.mem_flatMap, List.mem_range, mem_methodsOf]
  refine ⟨fun ⟨_, _, _, isMethod⟩ => isMethod, fun isMethod => ⟨id.cls, ?_, rfl, isMethod⟩⟩
  by_contra outside
  have absent : p.classes[id.cls]? = none := Array.getElem?_eq_none (by omega)
  simp [Program.method?, absent] at isMethod

/-- Methods stand in the order of their classes, those of one class in the order they are declared in. -/
theorem pairwise_methods (p : Program) :
    p.methods.Pairwise fun a b => a.cls < b.cls ∨ a.cls = b.cls ∧ a.index < b.index := by
  unfold Program.methods
  rw [List.pairwise_flatMap]
  refine ⟨fun c _ => ?_, ?_⟩
  · unfold Program.methodsOf
    split
    · rw [List.pairwise_map]
      exact List.pairwise_lt_range.imp fun less => .inr ⟨rfl, less⟩
    · exact .nil
  · refine List.pairwise_lt_range.imp fun less a inA b inB => ?_
    rw [(mem_methodsOf.mp inA).1, (mem_methodsOf.mp inB).1]
    exact .inl less

theorem nodup_methods (p : Program) : p.methods.Nodup :=
  (pairwise_methods p).imp fun before same => by
    subst same
    omega

/-- The analyzed lines stand in program order. -/
theorem pairwise_before_analyzedLines (p : Program) (excluded : List String) :
    (analyzedLines p excluded).Pairwise LineId.Before := by
  unfold analyzedLines
  rw [List.pairwise_flatMap]
  refine ⟨fun id _ => pairwise_before_bodyLines p id, ?_⟩
  refine ((pairwise_methods p).filter _).imp fun before a inA b inB => ?_
  obtain ⟨i, rfl⟩ := eq_body_of_mem_bodyLines inA
  obtain ⟨j, rfl⟩ := eq_body_of_mem_bodyLines inB
  rcases before with earlier | ⟨same, earlier⟩
  · exact .inl earlier
  · exact .inr ⟨same, .inl earlier⟩

theorem nodup_of_pairwise_before {lines : List LineId} (sorted : lines.Pairwise LineId.Before) : lines.Nodup := by
  refine sorted.imp fun {a b} before same => ?_
  subst same
  cases a with
  | body m i =>
    have : m.cls < m.cls ∨ m.cls = m.cls ∧ (m.index < m.index ∨ m.index = m.index ∧ i < i) := before
    omega
  | declaration c f => exact before

/-! ### Tables -/

section
variable {κ : Type} [BEq κ] [Hashable κ] [LawfulBEq κ] [LawfulHashable κ]

/-- Appending entries leaves alone what is filed under a key that has none. -/
private theorem lines_foldl_append_of_absent {key : κ} {entries : List (κ × Array LineId)}
    (absent : ∀ e ∈ entries, e.1 ≠ key) (t : LineTable κ) :
    (entries.foldl (fun t e => t.insert e.1 (t.lines e.1 ++ e.2)) t).lines key = t.lines key := by
  induction entries generalizing t with
  | nil => rfl
  | cons e rest ih =>
    rw [List.foldl_cons, ih fun e' later => absent e' (List.mem_cons_of_mem _ later)]
    simp [LineTable.lines, Std.HashMap.getD_insert, absent e]

private theorem lines_foldl_append_of_mem {key : κ} {added : Array LineId} {entries : List (κ × Array LineId)}
    (distinct : entries.Pairwise fun a b => (a.1 == b.1) = false) (listed : (key, added) ∈ entries)
    (t : LineTable κ) :
    (entries.foldl (fun t e => t.insert e.1 (t.lines e.1 ++ e.2)) t).lines key = t.lines key ++ added := by
  induction entries generalizing t with
  | nil => simp at listed
  | cons e rest ih =>
    rw [List.foldl_cons]
    obtain ⟨apart, distinct⟩ := List.pairwise_cons.mp distinct
    rcases List.mem_cons.mp listed with rfl | later
    · rw [lines_foldl_append_of_absent]
      · simp [LineTable.lines]
      · intro e' later same
        have := apart e' later
        simp [same] at this
    · have other : e.1 ≠ key := by simpa using apart _ later
      rw [ih distinct later]
      simp [LineTable.lines, Std.HashMap.getD_insert, other]

/-- Merging appends what is filed under each key, in whatever order the keys are visited. -/
theorem lines_merge (t u : LineTable κ) (key : κ) : (merge t u).lines key = t.lines key ++ u.lines key := by
  rw [merge, Std.HashMap.fold_eq_foldl_toList]
  cases found : u[key]? with
  | none =>
    have absent : ∀ e ∈ u.toList, e.1 ≠ key := by
      rintro ⟨k, lines⟩ listed rfl
      rw [Std.HashMap.mem_toList_iff_getElem?_eq_some, found] at listed
      simp at listed
    rw [lines_foldl_append_of_absent absent]
    simp [LineTable.lines, Std.HashMap.getD_eq_getD_getElem?, found]
  | some lines =>
    rw [lines_foldl_append_of_mem Std.HashMap.distinct_keys_toList
      (Std.HashMap.mem_toList_iff_getElem?_eq_some.mpr found)]
    simp [LineTable.lines, Std.HashMap.getD_eq_getD_getElem?, found]

end

/-! ### What a line adds to a summary -/

/-- The key that a store is filed under. -/
def writeKey? (p : Program) : Operation → Option String
  | .instancePut _ _ f | .staticPut _ f => some (p.fieldKey f)
  | _ => none

/-- The key that a load is filed under. -/
def readKey? (p : Program) : Operation → Option String
  | .instanceGet _ _ f | .staticGet _ f => some (p.fieldKey f)
  | _ => none

/-- The value that the load of a literal is filed under. -/
def literalKey? : Operation → Option Octets
  | .constLiteral _ literal => (Literal.value literal).toOption
  | _ => none

/-- The type that an allocation is filed under. -/
def allocationKey? : Operation → Option String
  | .newInstance _ type => some type
  | _ => none

theorem isWriteOf_iff {p : Program} {key : String} {op : Operation} :
    isWriteOf p key op = true ↔ writeKey? p op = some key := by
  cases op <;> simp [isWriteOf, writeKey?, Operation.kind, Operation.field?]

theorem isReadOf_iff {p : Program} {key : String} {op : Operation} :
    isReadOf p key op = true ↔ readKey? p op = some key := by
  cases op <;> simp [isReadOf, readKey?, Operation.kind, Operation.field?]

theorem isAllocationOf_iff {type : String} {op : Operation} :
    isAllocationOf type op = true ↔ allocationKey? op = some type := by
  rw [isAllocationOf, Bool.and_eq_true, decide_eq_true_iff, decide_eq_true_iff]
  cases op <;> simp [allocationKey?, Operation.kind, Operation.type]

/-- The empty literal has no value, so it need not be left out apart. -/
theorem isLoadOf_iff {value : Octets} {op : Operation} :
    isLoadOf value op = true ↔ literalKey? op = some value := by
  have empty : (Literal.value "").toOption = none := rfl
  simp only [isLoadOf, Bool.and_eq_true, decide_eq_true_iff]
  cases op with
  | constLiteral dst literal =>
    by_cases same : literal = ""
    · simp [literalKey?, Operation.literal, same, empty]
    · simp [literalKey?, Operation.kind, Operation.literal, same]
  | _ => simp [literalKey?, Operation.kind, Operation.literal]

theorem exists_invoke_of_kind {op : Operation} (call : op.kind = .invoke) : ∃ args ref, op = .invoke args ref := by
  cases op <;> simp_all [Operation.kind]

/-- Files a line, if there is a key for it. -/
def fileUnder {κ : Type} [BEq κ] [Hashable κ] (t : LineTable κ) (key : Option κ) (line : LineId) : LineTable κ :=
  match key with
  | some key => t.file key line
  | none => t

/-- A line goes into one column of the summary at most, by what it does. -/
theorem addLine_eq (p : Program) (s : Summary) (i : Nat) :
    s.addLine p i =
      let id := LineId.body s.method i
      let op? := p.operation? id
      { method := s.method
        invokes := if op?.any (·.kind = .invoke) then s.invokes.push id else s.invokes
        puts := fileUnder s.puts (op?.bind (writeKey? p)) id
        gets := fileUnder s.gets (op?.bind (readKey? p)) id
        returns := if op?.any isValueReturn then s.returns.push id else s.returns
        literals := fileUnder s.literals (op?.bind literalKey?) id
        allocations := fileUnder s.allocations (op?.bind allocationKey?) id } := by
  cases isLine : p.line? s.method i with
  | none => simp [Summary.addLine, Program.operation?, isLine, fileUnder]
  | some line =>
    cases does : line.operation <;>
      simp only [Summary.addLine, Program.operation?, isLine, does, Option.map_some] <;> try rfl
    next dst literal =>
      cases value : Literal.value literal <;>
        simp [fileUnder, writeKey?, readKey?, literalKey?, allocationKey?, value, Except.toOption, isValueReturn,
          Operation.kind]

/-! ### Queries -/

/-- A question whose answer is put together from the summaries, in the order these were added: what each
summary contributes are the lines of its method that pass a test. -/
structure Query (p : Program) where
  ask : Index → List LineId
  part : Summary → List LineId
  test : LineId → Bool
  ask_bare : ∀ prepared, ask { program := p, prepared := prepared } = []
  ask_add : ∀ (x : Index) (s : Summary), x.program = p → (∀ t ∈ x.summaries, t.method ≠ s.method) →
    ask (x.add s) = ask x ++ part s
  part_bare : ∀ id, part { method := id } = []
  part_addLine : ∀ (s : Summary) (i : Nat),
    part (s.addLine p i) = part s ++ [.body s.method i].filter test

namespace Query

variable {p : Program}

/-- The calls of a name. -/
def calls (p : Program) (name : String) : Query p where
  ask x := (x.callSites.lines name).toList
  part s := s.invokes.toList.filter fun l => calleeName p l == name
  test l := (p.operation? l).any (isCallOf fun ref => ref.name = name)
  ask_bare _ := by simp [LineTable.lines]
  ask_add x s program _ := by
    subst program
    simp only [add, ← Array.foldl_toList]
    exact toList_lines_foldl_file (calleeName x.program) s.invokes.toList x.callSites name
  part_bare _ := rfl
  part_addLine s i := by
    rw [addLine_eq]
    cases isLine : p.line? s.method i with
    | none => simp [Program.operation?, isLine]
    | some line =>
      by_cases call : line.operation.kind = .invoke
      · obtain ⟨args, ref, does⟩ := exists_invoke_of_kind call
        simp [Program.operation?, isLine, does, calleeName, isCallOf, List.filter_cons, Operation.kind,
          Operation.method?, beq_eq_decide]
      · simp [Program.operation?, isLine, call, isCallOf]

section
variable {κ : Type} [BEq κ] [Hashable κ] [LawfulBEq κ] [LawfulHashable κ]

/-- What is filed under a key of a table. -/
def ofTable (column : Index → LineTable κ) (part : Summary → LineTable κ) (key? : Operation → Option κ)
    (k : κ) (bare : ∀ prepared, column { program := p, prepared := prepared } = {})
    (merged : ∀ x s, column (x.add s) = merge (column x) (part s)) (part_bare : ∀ id, part { method := id } = {})
    (filed : ∀ (s : Summary) (i : Nat), part (s.addLine p i) =
      fileUnder (part s) ((p.operation? (.body s.method i)).bind key?) (.body s.method i)) : Query p where
  ask x := ((column x).lines k).toList
  part s := ((part s).lines k).toList
  test l := (p.operation? l).any fun op => key? op == some k
  ask_bare prepared := by simp [bare, LineTable.lines]
  ask_add x s _ _ := by simp [merged, lines_merge]
  part_bare id := by simp [part_bare, LineTable.lines]
  part_addLine s i := by
    rw [filed]
    cases does : p.operation? (.body s.method i) with
    | none => simp [does, fileUnder]
    | some op =>
      cases key : key? op with
      | none => simp [does, key, fileUnder]
      | some other =>
        simp only [Option.bind_some, key, fileUnder, toList_lines_file]
        by_cases same : other = k <;> simp [same, does, key]

end

/-- The stores to a field. -/
def writes (p : Program) (key : String) : Query p :=
  ofTable Index.puts Summary.puts (writeKey? p) key (fun _ => rfl) (fun _ _ => rfl) (fun _ => rfl) fun s i => by
    rw [addLine_eq]

/-- The loads of a field. -/
def reads (p : Program) (key : String) : Query p :=
  ofTable Index.gets Summary.gets (readKey? p) key (fun _ => rfl) (fun _ _ => rfl) (fun _ => rfl) fun s i => by
    rw [addLine_eq]

/-- The loads of a literal. -/
def literals (p : Program) (value : Octets) : Query p :=
  ofTable Index.literals Summary.literals literalKey? value (fun _ => rfl) (fun _ _ => rfl) (fun _ => rfl) fun s i => by
    rw [addLine_eq]

/-- The allocations of a type. -/
def allocations (p : Program) (type : String) : Query p :=
  ofTable Index.allocations Summary.allocations allocationKey? type (fun _ => rfl) (fun _ _ => rfl) (fun _ => rfl)
    fun s i => by rw [addLine_eq]

/-- The value returns of a method. A method is summarized once, so what is added later is of other methods. -/
def returns (p : Program) (id : MethodId) : Query p where
  ask x := x.returns id
  part s := if s.method = id then s.returns.toList else []
  test l := l.method? = some id && (p.operation? l).any isValueReturn
  ask_bare _ := rfl
  ask_add x s _ fresh := by
    simp only [Index.returns, summary?, add, Array.find?_push]
    by_cases same : s.method = id
    · have absent : x.summaries.find? (fun t => decide (t.method = id)) = none := by
        rw [Array.find?_eq_none]
        intro t inside
        simpa [same] using fresh t inside
      simp [same, absent]
    · simp [same]
  part_bare _ := by simp
  part_addLine s i := by
    rw [addLine_eq]
    by_cases same : s.method = id
    · by_cases returned : (p.operation? (.body id i)).any isValueReturn <;> simp [same, returned, LineId.method?]
    · simp [same, LineId.method?]

/-! ### Answers -/

/-- The summary of a graph contributes the lines of the blocks. -/
theorem part_ofGraph (q : Query p) (id : MethodId) (g : BlockGraph.Graph) :
    q.part (Summary.ofGraph p id g) =
      ((g.blocks.toList.flatMap (·.lines)).map (LineId.body id)).filter q.test := by
  suffices lists : ∀ (lines : List Nat) (s : Summary), s.method = id →
      q.part (lines.foldl (Summary.addLine p) s) =
        q.part s ++ (lines.map (LineId.body id)).filter q.test by
    rw [Summary.ofGraph, lists _ _ rfl, q.part_bare, List.nil_append]
  intro lines
  induction lines with
  | nil => simp
  | cons i lines ih =>
    intro s same
    rw [List.foldl_cons, ih _ (by rw [Summary.method_addLine, same]), q.part_addLine, same, List.map_cons,
      List.filter_cons, List.append_assoc]
    split <;> simp_all

end Query

/-- The blocks of a body with executable lines list all its lines in order. -/
theorem lines_of_hasFlow {m : Method} {g : BlockGraph.Graph} {flow : BlockGraph.Flow}
    (has : BlockGraph.HasFlow m g flow) :
    g.blocks.toList.flatMap (·.lines) = List.range m.lines.size := by
  rw [← BlockGraph.flatten_partition flow.links has.live, List.flatMap_def]
  congr 1
  apply List.ext_getElem?
  intro b
  cases found : g.blocks[b]? with
  | none =>
    have outside : (BlockGraph.partition m flow.links)[b]? = none := by
      rw [Array.getElem?_eq_none_iff, has.size_blocks] at found
      exact List.getElem?_eq_none found
    simp [found, outside]
  | some block => simp [found, has.part_of_block found]

theorem any_executable_eq (m : Method) :
    m.lines.any CodeLine.executable = true ↔ ∃ l, BlockGraph.executable m l = true := by
  rw [Array.any_eq_true]
  constructor
  · rintro ⟨i, bound, runs⟩
    exact ⟨i, by simpa [BlockGraph.executable, bound] using runs⟩
  · rintro ⟨l, runs⟩
    have bound := BlockGraph.lt_size_of_executable runs
    exact ⟨l, bound, by simpa [BlockGraph.executable, bound] using runs⟩

/-- A method takes part in the analysis exactly if its graph is built and has blocks. -/
theorem analyzable_iff {m : Method} :
    analyzable m = true ↔ ∃ g, BlockGraph.ofMethod m = .ok g ∧ g.blocks.isEmpty = false := by
  simp only [analyzable, Bool.and_eq_true, any_executable_eq]
  constructor
  · rintro ⟨⟨sound, built⟩, live⟩
    obtain ⟨g, built⟩ : ∃ g, BlockGraph.ofMethod m = .ok g := by
      cases made : BlockGraph.build m with
      | error e => simp [made, Except.isOk, Except.toBool] at built
      | ok g => exact ⟨g, by simp [BlockGraph.ofMethod, Option.isNone_iff_eq_none.mp sound, made]⟩
    obtain ⟨flow, has⟩ := BlockGraph.exists_hasFlow built live
    have some := List.length_pos_iff.mpr (BlockGraph.partition_ne_nil flow.links live)
    refine ⟨g, built, ?_⟩
    rw [Array.isEmpty_eq_false_iff, ← Array.size_pos_iff, has.size_blocks]
    exact some
  · rintro ⟨g, built, blocks⟩
    rcases BlockGraph.blocks_eq_empty_or_hasFlow built with rfl | ⟨flow, has⟩
    · simp at blocks
    · refine ⟨?_, has.live⟩
      unfold BlockGraph.ofMethod at built
      split at built
      · simp at built
      · next sound =>
        split at built
        · next made => simp [sound, made, Except.isOk, Except.toBool]
        · simp at built

theorem live_of_analyzable {m : Method} (takes : analyzable m = true) :
    ∃ l, BlockGraph.executable m l = true := by
  simp only [analyzable, Bool.and_eq_true, any_executable_eq] at takes
  exact takes.2

/-! ### Preparation -/

/-- The method was prepared, and its graph is kept if it can be built. -/
def Settled (p : Program) (s : Preparation) (id : MethodId) : Prop :=
  ∀ g, s.prepared[id]? = some (.built g) ↔ ∃ m, p.method? id = some m ∧ BlockGraph.ofMethod m = .ok g

theorem prepared_visit_of_ne {p : Program} {s : Preparation} {id other : MethodId} (apart : id ≠ other) :
    (s.visit p id).prepared[other]? = s.prepared[other]? := by
  unfold Preparation.visit
  split
  · rfl
  · split
    · simp [Std.HashMap.getElem?_insert, apart]
    · split <;> simp [Std.HashMap.getElem?_insert, apart]

/-- What becomes of a method: its blocks, or its fault. -/
def outcome (m : Method) : Prepared :=
  match BlockGraph.ofMethod m with
  | .ok g => .built g
  | .error e => .broken e

/-- The early exit for a method that kept no line comes to the same as building its blocks. -/
theorem prepared_visit {p : Program} {id : MethodId} {m : Method} (isMethod : p.method? id = some m)
    (s : Preparation) : (s.visit p id).prepared[id]? = some (outcome m) := by
  unfold Preparation.visit
  simp only [isMethod]
  split
  · next empty =>
    cases decoded : m.fault with
    | some fault =>
      have broken : BlockGraph.ofMethod m = .error (.body fault) := by simp [BlockGraph.ofMethod, decoded]
      simp [outcome, broken]
    | none => simp [outcome, ofMethod_of_isEmpty empty decoded]
  · cases made : BlockGraph.ofMethod m <;> simp [outcome, made]

/-- A method that is visited has its outcome when all are done, whatever is prepared before and later. -/
theorem prepared_foldl_visit {p : Program} {s : Preparation} {id : MethodId} {m : Method}
    (isMethod : p.method? id = some m) (order : List MethodId)
    (visited : id ∈ order ∨ s.prepared[id]? = some (outcome m)) :
    (order.foldl (Preparation.visit p) s).prepared[id]? = some (outcome m) := by
  induction order generalizing s with
  | nil => simpa using visited
  | cons next order ih =>
    apply ih
    by_cases same : next = id
    · subst same
      exact .inr (prepared_visit isMethod s)
    · refine visited.imp (fun listed => (List.mem_cons.mp listed).resolve_left (Ne.symm same)) fun known => ?_
      rw [prepared_visit_of_ne same, known]

theorem settled_foldl {p : Program} {id : MethodId} {m : Method} (isMethod : p.method? id = some m)
    (order : List MethodId) (s : Preparation) (listed : id ∈ order) :
    Settled p (order.foldl (Preparation.visit p) s) id := by
  intro g
  rw [prepared_foldl_visit isMethod order (.inl listed)]
  cases made : BlockGraph.ofMethod m <;> simp [outcome, made, isMethod]

theorem Settled.graph?_eq_some_iff {p : Program} {s : Preparation} {id : MethodId} (settled : Settled p s id) {x : Index}
    (prepared : x.prepared = s.prepared) {g : BlockGraph.Graph} :
    x.graph? id = some g ↔ ∃ m, p.method? id = some m ∧ BlockGraph.ofMethod m = .ok g := by
  rw [← settled g, graph?, prepared]
  split
  · next found => simp [found]
  · next other => simpa using fun found => other g found

/-- The index of a program whose methods were prepared one after the other in the given order. Preparing a
method reads and writes what is its own alone, so any order in which methods that are prepared side by side
are done with is one of these. -/
def finishedIn (p : Program) (excluded : List String) (order : List MethodId) : Index :=
  let included := p.classes.toList.countP fun c => !isExcluded excluded c
  let s := order.foldl (Preparation.visit p) { tally := ({} : Tally).add .classes included }
  let base : Index := { program := p, prepared := s.prepared }
  (candidates p excluded).foldl (fun x id =>
    match base.graph? id with
    | some g => if g.blocks.isEmpty then x else x.add (Summary.ofGraph p id g)
    | none => x) base

theorem index_ofProgram (p : Program) (excluded : List String) :
    (ofProgram p excluded).index = finishedIn p excluded (candidates p excluded) := rfl

theorem candidates_eq_filter (p : Program) (excluded : List String) :
    candidates p excluded =
      p.methods.filter fun id => (p.classes[id.cls]?).any fun c => !isExcluded excluded c := by
  rw [candidates, Program.methods, List.filter_flatMap]
  congr 1
  funext c
  have sameClass : (p.methodsOf c).filter (fun id => (p.classes[id.cls]?).any fun c => !isExcluded excluded c) =
      (p.methodsOf c).filter fun _ => (p.classes[c]?).any fun c => !isExcluded excluded c :=
    List.filter_congr fun id inside => by rw [(mem_methodsOf.mp inside).1]
  rw [sameClass]
  cases found : p.classes[c]? with
  | none => simp
  | some cls => cases excludes : isExcluded excluded cls <;> simp [excludes]

theorem analyzedMethods_eq_filter (p : Program) (excluded : List String) :
    analyzedMethods p excluded = (candidates p excluded).filter fun id => (p.method? id).any analyzable := by
  rw [candidates_eq_filter, List.filter_filter, analyzedMethods]
  exact List.filter_congr fun id _ => Bool.and_comm _ _

theorem settled_of_mem_candidates {p : Program} {excluded : List String} {order : List MethodId}
    (finished : order.Perm (candidates p excluded)) {id : MethodId} (inside : id ∈ candidates p excluded)
    (tally : Tally) : Settled p (order.foldl (Preparation.visit p) { tally := tally }) id := by
  have isCandidate := inside
  rw [candidates_eq_filter] at isCandidate
  obtain ⟨m, isMethod⟩ := Option.isSome_iff_exists.mp (mem_methods.mp (List.mem_filter.mp isCandidate).1)
  exact settled_foldl isMethod order _ (finished.mem_iff.mpr inside)

namespace Query

variable {p : Program}

/-- Adding the summaries of the analyzed methods one by one appends the lines of each that pass the test. -/
theorem ask_foldl (q : Query p) {base : Index} (methods : List MethodId) (distinct : methods.Nodup)
    (graphs : ∀ id ∈ methods, ∀ g, base.graph? id = some g ↔
      ∃ m, p.method? id = some m ∧ BlockGraph.ofMethod m = .ok g)
    (x : Index) (program : x.program = p) (fresh : ∀ t ∈ x.summaries, t.method ∉ methods) :
    q.ask (methods.foldl (fun x id =>
      match base.graph? id with
      | some g => if g.blocks.isEmpty then x else x.add (Summary.ofGraph p id g)
      | none => x) x) =
      q.ask x ++ ((methods.filter fun id => (p.method? id).any analyzable).flatMap (bodyLines p)).filter q.test := by
  induction methods generalizing x with
  | nil => simp
  | cons id methods ih =>
    obtain ⟨apart, distinct⟩ := List.nodup_cons.mp distinct
    have rest := ih distinct fun id later => graphs id (List.mem_cons_of_mem _ later)
    have fresh' : ∀ t ∈ x.summaries, t.method ∉ methods := fun t inside later =>
      fresh t inside (List.mem_cons_of_mem _ later)
    rw [List.foldl_cons, List.filter_cons]
    cases takesPart : (p.method? id).any analyzable with
    | true =>
      obtain ⟨m, isMethod, takes⟩ := Option.any_eq_true _ _ |>.mp takesPart
      obtain ⟨g, built, blocks⟩ := analyzable_iff.mp takes
      have graph := (graphs id List.mem_cons_self g).mpr ⟨m, isMethod, built⟩
      have new : ∀ t ∈ x.summaries, t.method ≠ (Summary.ofGraph p id g).method := by
        intro t inside same
        rw [Summary.method_ofGraph] at same
        exact fresh t inside (by simp [same])
      have fresh'' : ∀ t ∈ (x.add (Summary.ofGraph p id g)).summaries, t.method ∉ methods := by
        intro t inside
        rcases Array.mem_push.mp inside with before | rfl
        · exact fresh' t before
        · rwa [Summary.method_ofGraph]
      obtain ⟨flow, has⟩ := BlockGraph.exists_hasFlow built (live_of_analyzable takes)
      simp only [graph, blocks, Bool.false_eq_true, if_false]
      rw [rest (x.add (Summary.ofGraph p id g)) program fresh'', q.ask_add x _ program new, q.part_ofGraph, lines_of_hasFlow has]
      simp [bodyLines, isMethod]
    | false =>
      have skipped : ∀ g, base.graph? id = some g → g.blocks.isEmpty = true := by
        intro g graph
        obtain ⟨m, isMethod, built⟩ := (graphs id List.mem_cons_self g).mp graph
        by_contra blocks
        have := analyzable_iff.mpr ⟨g, built, by simpa using blocks⟩
        simp [isMethod, this] at takesPart
      split
      · next g graph =>
        rw [if_pos (skipped g graph)]
        exact rest x program fresh'
      · exact rest x program fresh'

/-- In whatever order the methods were prepared, the answer lists the analyzed lines that pass the test. -/
theorem ask_finishedIn (q : Query p) {excluded : List String} {order : List MethodId}
    (finished : order.Perm (candidates p excluded)) :
    q.ask (finishedIn p excluded order) = (analyzedLines p excluded).filter q.test := by
  have distinct : (candidates p excluded).Nodup := by
    rw [candidates_eq_filter]
    exact (nodup_methods p).filter _
  simp only [finishedIn]
  rw [q.ask_foldl _ distinct ?_ _ rfl (by simp), q.ask_bare, List.nil_append, analyzedLines,
    analyzedMethods_eq_filter]
  exact fun id inside g => (settled_of_mem_candidates finished inside _).graph?_eq_some_iff rfl

end Query

@[simp] theorem program_finishedIn (p : Program) (excluded : List String) (order : List MethodId) :
    (finishedIn p excluded order).program = p :=
  (foldl_add_frame ..).1

/-- Every analyzed line is in a block. -/
theorem exists_site_of_mem_analyzedLines {p : Program} {excluded : List String} {l : LineId}
    (inside : l ∈ analyzedLines p excluded) : ∃ s, (ofProgram p excluded).index.site? l = some s := by
  obtain ⟨id, analyzed, listed⟩ := List.mem_flatMap.mp inside
  rw [analyzedMethods_eq_filter, List.mem_filter] at analyzed
  obtain ⟨m, isMethod, takes⟩ := (Option.any_eq_true _ _).mp analyzed.2
  obtain ⟨g, built, -⟩ := analyzable_iff.mp takes
  obtain ⟨flow, has⟩ := BlockGraph.exists_hasFlow built (live_of_analyzable takes)
  have graph : (ofProgram p excluded).index.graph? id = some g :=
    ((settled_of_mem_candidates (.refl _) analyzed.1 _).graph?_eq_some_iff (foldl_add_frame ..).2).mpr
      ⟨m, isMethod, built⟩
  simp only [bodyLines, isMethod] at listed
  obtain ⟨i, bound, rfl⟩ := List.mem_map.mp listed
  have isLine := List.mem_range.mp bound
  obtain ⟨b, block, found, here, -⟩ := has.exists_block isLine
  exact ⟨_, by simp [site?, locate?, graph, has.locate?_eq found here, Program.line?, isMethod, isLine]; rfl⟩

/-- The reference at a line is that of its operation. -/
theorem callee?_eq (x : Index) (l : LineId) : x.callee? l = (x.program.operation? l).bind Operation.method? := by
  cases l with
  | declaration c f => rfl
  | body m i => simp [callee?, Program.operation?, Option.bind_map]

/-- The answer from a table is a scan for the lines that have the key. -/
private theorem scan_eq_of_key? {p : Program} {excluded : List String} {κ : Type} [BEq κ] [LawfulBEq κ] {key? : Operation → Option κ} {k : κ}
    {test : Operation → Bool} (keyed : ∀ {op}, test op = true ↔ key? op = some k) :
    (analyzedLines p excluded).filter (fun l => (p.operation? l).any fun op => key? op == some k) =
      scan p excluded test := by
  refine List.filter_congr fun l _ => ?_
  congr 1
  funext op
  rw [Bool.eq_iff_iff, beq_iff_eq, keyed]

section
variable {p : Program} {excluded : List String} {order : List MethodId}
  (finished : order.Perm (candidates p excluded))
include finished

theorem callSitesMatching_finishedIn (owner name params : String) :
    (finishedIn p excluded order).callSitesMatching owner name params =
      scan p excluded (isCallOf fun ref => ref.name = name && refMatches owner params ref) := by
  rw [callSitesMatching, show ((finishedIn p excluded order).callSites.lines name).toList = _ from
    (Query.calls p name).ask_finishedIn finished, List.filter_filter]
  refine List.filter_congr fun l _ => ?_
  rw [callee?_eq, program_finishedIn]
  cases does : p.operation? l with
  | none => simp [Query.calls, does]
  | some op =>
    cases named : op.method? with
    | none => simp [Query.calls, does, isCallOf, named]
    | some ref => simp [Query.calls, does, isCallOf, named, Bool.and_comm, Bool.and_left_comm, Bool.and_assoc]

theorem fieldWrites_finishedIn (key : String) :
    (finishedIn p excluded order).fieldWrites key = scan p excluded (isWriteOf p key) :=
  ((Query.writes p key).ask_finishedIn finished).trans (scan_eq_of_key? isWriteOf_iff)

theorem fieldReads_finishedIn (key : String) :
    (finishedIn p excluded order).fieldReads key = scan p excluded (isReadOf p key) :=
  ((Query.reads p key).ask_finishedIn finished).trans (scan_eq_of_key? isReadOf_iff)

theorem literalSites_finishedIn (value : Octets) :
    (finishedIn p excluded order).literalSites value = scan p excluded (isLoadOf value) :=
  ((Query.literals p value).ask_finishedIn finished).trans (scan_eq_of_key? isLoadOf_iff)

theorem allocationSites_finishedIn (type : String) :
    (finishedIn p excluded order).allocationSites type = scan p excluded (isAllocationOf type) :=
  ((Query.allocations p type).ask_finishedIn finished).trans (scan_eq_of_key? isAllocationOf_iff)

theorem returns_finishedIn (id : MethodId) :
    (finishedIn p excluded order).returns id =
      (scan p excluded isValueReturn).filter fun l => l.method? = some id := by
  rw [scan, List.filter_filter]
  exact (Query.returns p id).ask_finishedIn finished

/-- The index answers what a scan of the analyzed lines answers: the lines stand in program order, each once,
and every query picks from them the lines that it is about, in whatever order the methods were prepared. -/
theorem index_answers_scan :
    (ofProgram p excluded).index = finishedIn p excluded (candidates p excluded) ∧
    (analyzedLines p excluded).Pairwise LineId.Before ∧ (analyzedLines p excluded).Nodup ∧
    (∀ pattern : Slice.BackwardPattern,
      (finishedIn p excluded order).callSitesMatching pattern.owner pattern.method pattern.params =
        scan p excluded (isCallOf pattern.accepts)) ∧
    (∀ key, (finishedIn p excluded order).fieldWrites key = scan p excluded (isWriteOf p key)) ∧
    (∀ key, (finishedIn p excluded order).fieldReads key = scan p excluded (isReadOf p key)) ∧
    (∀ value, (finishedIn p excluded order).literalSites value = scan p excluded (isLoadOf value)) ∧
    (∀ type, (finishedIn p excluded order).allocationSites type = scan p excluded (isAllocationOf type)) ∧
    ∀ id, (finishedIn p excluded order).returns id =
      (scan p excluded isValueReturn).filter fun l => l.method? = some id := by
  have sorted := pairwise_before_analyzedLines p excluded
  refine ⟨index_ofProgram p excluded, sorted, nodup_of_pairwise_before sorted, ?_, ?_, ?_, ?_, ?_, ?_⟩
  · intro pattern
    exact callSitesMatching_finishedIn finished pattern.owner pattern.method pattern.params
  · exact fieldWrites_finishedIn finished
  · exact fieldReads_finishedIn finished
  · exact literalSites_finishedIn finished
  · exact allocationSites_finishedIn finished
  · exact returns_finishedIn finished

end

/-- The one call is found when its method was prepared before the method of the class above. -/
theorem callsAbove_answers_scan :
    [(⟨1, 0⟩ : MethodId), ⟨0, 0⟩].Perm (candidates callsAbove []) ∧
      (finishedIn callsAbove [] [⟨1, 0⟩, ⟨0, 0⟩]).callSitesMatching "LBase;" "f" "" = [.body ⟨1, 0⟩ 0] := by
  have finished : [(⟨1, 0⟩ : MethodId), ⟨0, 0⟩].Perm (candidates callsAbove []) := by decide
  obtain ⟨-, -, -, calls, -⟩ := index_answers_scan finished
  refine ⟨finished, ?_⟩
  rw [calls { owner := "LBase;", method := "f" }]
  cbv

end Index

end SmaliTrace
