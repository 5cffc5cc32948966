import SmaliTrace.Proofs.Slice.FuzzyCeiling
import SmaliTrace.Proofs.Text.Cut

/-!
What the constants of a literal kind hold. A constant of such a kind is the normal form of a literal at its line, with
one exception: a field that is declared outside the program, and that nothing stores to, is recorded under a literal
kind by its key.
-/
namespace SmaliTrace

open Smali ClassFile

/-- The halves of a field's key, joined again. -/
theorem Program.join_fieldTarget (p : Program) (field : FieldRef) :
    (p.fieldTarget field).1 ++ "->" ++ (p.fieldTarget field).2 = p.fieldKey field := by
  have arrow : ∃ owner name : String, p.fieldKey field = owner ++ "->" ++ name := by
    unfold Program.fieldKey
    split
    iterate 2 exact ⟨_, _, rfl⟩
  unfold Program.fieldTarget
  split
  · next owner name cut =>
    have whole := Text.eq_of_cut? cut
    apply String.toList_injective
    simp [whole]
  · next uncut =>
    obtain ⟨owner, name, isKey⟩ := arrow
    have same : owner.toList ++ "->".toList ++ name.toList = (p.fieldKey field).toList := by simp [isKey]
    obtain ⟨parts, cut⟩ := Text.exists_cut?_of_append owner.toList name.toList
    rw [same, uncut] at cut
    cases cut

end SmaliTrace

namespace SmaliTrace.Slice
open SmaliTrace.Smali SmaliTrace.ClassFile
open SmaliTrace.Text (Octets)

variable {x : Context} {p : Program} {excluded : List String} {options : Options} {pattern : Pattern} {i : Nat}
  {result : SearchResult} {k : Constant} {m : MethodId} {label : String} {raws : List String}

/-! ### Payloads -/

/-- The literal of a data line. -/
def dataLiteral? (l : CodeLine) : Option String :=
  match l.operation with
  | .data literal _ => some literal
  | _ => none

/-- The literals of the data lines; unless the data has started, they count from where it does. -/
def dataEntries (inside : Bool) (lines : List CodeLine) : List String :=
  (if inside then lines else lines.dropWhile fun l => l.operation.kind ≠ .dataStart).filterMap dataLiteral?

/-- The lines behind the first one with the label hold the entries as data, up to the first end of data. -/
def HasPayload (m : Method) (label : String) (raws : List String) : Prop :=
  ∃ before named between stop after, m.lines.toList = before ++ named :: (between ++ stop :: after) ∧
    (∀ l ∈ before, l.operation ≠ .label label) ∧ named.operation = .label label ∧
    (∀ l ∈ between, l.operation ≠ .dataEnd) ∧ stop.operation = .dataEnd ∧ raws = dataEntries false between

theorem dataEntries_cons_start {l : CodeLine} {argument : String} (starts : l.operation = .dataStart argument)
    (inside : Bool) (lines : List CodeLine) : dataEntries inside (l :: lines) = dataEntries true lines := by
  cases inside <;> simp [dataEntries, starts, dataLiteral?, Operation.kind]

theorem dataEntries_cons {l : CodeLine} (starts : l.operation.kind ≠ .dataStart) (inside : Bool)
    (lines : List CodeLine) :
    dataEntries inside (l :: lines) =
      (if inside then (dataLiteral? l).toList else []) ++ dataEntries inside lines := by
  cases inside with
  | false => simp [dataEntries, starts]
  | true => cases isData : dataLiteral? l <;> simp [dataEntries, isData]

/-- Reading entries passes over what is no data and stops at the first end of data. -/
theorem exists_of_payloadEntries {lines : List (CodeLine × Nat)} {inside : Bool}
    (read : payloadEntries x m label inside lines = .ok raws) :
    ∃ (between : List CodeLine) (stop : CodeLine) (after : List CodeLine),
      lines.map Prod.fst = between ++ stop :: after ∧ (∀ l ∈ between, l.operation ≠ .dataEnd) ∧
        stop.operation = .dataEnd ∧ raws = dataEntries inside between := by
  induction lines generalizing inside raws with
  | nil => cases read
  | cons entry rest ih =>
    obtain ⟨l, n⟩ := entry
    -- whatever the line is, what follows it ends at the same place; only its own entry differs
    have later : ∀ {inside' raws'}, payloadEntries x m label inside' rest = .ok raws' → l.operation ≠ .dataEnd →
        (∀ between, dataEntries inside' between = raws' → dataEntries inside (l :: between) = raws) →
        ∃ (between : List CodeLine) (stop : CodeLine) (after : List CodeLine),
          ((l, n) :: rest).map Prod.fst = between ++ stop :: after ∧ (∀ l ∈ between, l.operation ≠ .dataEnd) ∧
            stop.operation = .dataEnd ∧ raws = dataEntries inside between := by
      intro inside' raws' read' differs grows
      obtain ⟨between, stop, after, split, none, isStop, same⟩ := ih read'
      exact ⟨l :: between, stop, after, by simp [split], by simpa [differs] using none, isStop,
        (grows between same.symm).symm⟩
    unfold payloadEntries at read
    split at read
    iterate 3
      next does =>
      refine later read (by simp [does]) fun between same => ?_
      rw [dataEntries_cons (by simp [does, Operation.kind])]
      simpa [dataLiteral?, does] using same
    · next starts =>
      refine later read (by simp [starts]) fun between same => ?_
      rw [dataEntries_cons_start starts, same]
    · next literal name does =>
      cases read' : payloadEntries x m label inside rest with
      | error e => simp [read', Except.map] at read
      | ok raws' =>
        simp only [read', Except.map, Except.ok.injEq] at read
        refine later read' (by simp [does]) fun between same => ?_
        rw [dataEntries_cons (by simp [does, Operation.kind])]
        cases inside <;> simpa [dataLiteral?, does, same] using read
    · next stops =>
      cases read
      exact ⟨[], l, rest.map Prod.fst, rfl, by simp, stops, by cases inside <;> rfl⟩
    · cases read

/-- What is left after dropping starts at the first element that is not dropped. -/
theorem exists_of_dropWhile_eq_cons {α : Type} {q : α → Bool} {l rest : List α} {a : α}
    (behind : l.dropWhile q = a :: rest) :
    ∃ before, l = before ++ a :: rest ∧ (∀ b ∈ before, q b = true) ∧ q a = false := by
  have first := List.head?_dropWhile_not q l
  rw [behind] at first
  exact ⟨l.takeWhile q, by rw [← behind, List.takeWhile_append_dropWhile], fun _ => List.mem_takeWhile_imp, first⟩

/-- The entries that are read for a label are those of its payload. -/
theorem hasPayload_of_payload (read : Slice.payload x m label = .ok raws) :
    ∃ method, x.program.method? m = some method ∧ HasPayload method label raws := by
  unfold Slice.payload at read
  cases isMethod : x.program.method? m with
  | none => simp [isMethod] at read
  | some method =>
    simp only [isMethod, Option.map_some, Option.getD_some] at read
    split at read
    · cases read
    · next entry rest behind =>
      obtain ⟨before, whole, differ, isLabel⟩ := exists_of_dropWhile_eq_cons behind
      obtain ⟨between, stop, after, split, none, isStop, same⟩ := exists_of_payloadEntries read
      refine ⟨method, rfl, before.map Prod.fst, entry.1, between, stop, after, ?_, ?_, by simpa using isLabel, none,
        isStop, same⟩
      · have lines := congrArg (List.map Prod.fst) whole
        simpa [split] using lines
      · intro l inside
        obtain ⟨entry', isBefore, rfl⟩ := List.mem_map.mp inside
        simpa using differ entry' isBefore

/-! ### Fields that are declared elsewhere -/

theorem scan_eq_nil_of_fieldStores {key : String} (isIndex : x.index = (Index.ofProgram p excluded).index)
    (unwritten : fieldStores x key = []) : Index.scan p excluded (Index.isWriteOf p key) = [] := by
  have isProgram : x.index.program = p := by rw [isIndex, Index.program_ofProgram]
  have faithful : x.index.Faithful := isIndex ▸ Index.faithful_ofProgram p excluded
  have writes : x.index.fieldWrites key = Index.scan p excluded (Index.isWriteOf p key) := by
    rw [isIndex, Index.index_ofProgram, Index.fieldWrites_finishedIn (.refl _)]
  rw [List.eq_nil_iff_forall_not_mem]
  intro line listed
  obtain ⟨analyzed, stores⟩ := List.mem_filter.mp listed
  obtain ⟨op, does, isWrite⟩ := (Option.any_eq_true _ _).mp stores
  obtain ⟨s, isSite⟩ := Index.exists_site_of_mem_analyzedLines analyzed
  rw [← isIndex] at isSite
  have inside : s ∈ x.index.sitesOf (x.index.fieldWrites key) :=
    List.mem_filterMap.mpr ⟨line, writes ▸ listed, isSite⟩
  have does' := operation?_of_mem_sites faithful (faithful.mem_allSites_of_site? isSite)
  rw [(Index.mem_sites_of_site? isSite).2, Context.program, isProgram, does] at does'
  cases does'
  rw [fieldStores, List.filterMap_eq_nil_iff] at unwritten
  have noStore := unwritten s inside
  rw [Index.isWriteOf_iff] at isWrite
  cases stored : s.operation <;> simp [stored, Index.writeKey?] at isWrite noStore

/-- A field that is resolved is declared. -/
theorem resolveField?_eq_none {search : ContentSearch} (undeclared : trackedField? x search = none) :
    x.program.resolveField? search.owner search.identifier = none := by
  rw [Option.eq_none_iff_forall_ne_some]
  rintro ⟨cls, f⟩ resolves
  obtain ⟨c, _, found⟩ := List.exists_of_findSome?_eq_some resolves
  obtain ⟨f', named, same⟩ := Option.map_eq_some_iff.mp found
  cases same
  obtain ⟨decl, isClass, named⟩ := Option.bind_eq_some_iff.mp named
  obtain ⟨bound, -⟩ := Array.findIdx?_eq_some_iff_getElem.mp named
  have isField : x.program.field? cls f = some decl.fields[f] := by simp [Program.field?, isClass, bound]
  simp [trackedField?, resolves, isField] at undeclared

/-! ### Constants of a literal kind -/

/-- The constant is the normal form of a literal at its line: of one that the line loads or computes with, of the
entries of the payload that the line puts into an array, or of the initial value of the field that the line declares. -/
inductive Written (p : Program) (k : Constant) : Prop
  | load {d : Register} (isLocal : k.kind = .localVariable ∨ k.kind = .localAnonymous)
      (loads : p.operation? k.line = some (.constLiteral d k.raw)) (isValue : Literal.value k.raw = .ok k.value)
  | operand {d source : Register} (isMath : k.kind = .mathConstant)
      (computes : p.operation? k.line = some (.literalMath d source k.raw))
      (isValue : Literal.value k.raw = .ok k.value)
  | payload {m : MethodId} {method : Method} {array : Register} {label : String} {raws : List String}
      {values : List Octets} (isArray : k.kind = .array) (inside : k.line.method? = some m)
      (fills : p.operation? k.line = some (.fillArrayData array label)) (isMethod : p.method? m = some method)
      (entries : HasPayload method label raws) (isRaw : k.raw = Text.join " " raws)
      (areValues : raws.mapM Literal.value = .ok values)
      (isValue : k.value =
        ⟨(Octets.ofString "[").bytes ++ joinOctets ", " values ++ (Octets.ofString "]").bytes⟩)
  | initial {cls f : Nat} {field : FieldDecl} (isConstant : k.kind = .fieldConstant)
      (declares : k.line = .declaration cls f) (isField : p.field? cls f = some field) (isRaw : k.raw = field.value)
      (isValue : Literal.value k.raw = .ok k.value)

/-- The constant stands for a field that no class of the program declares and no analyzed line stores to: it is the
key of the field, kept on a line that reads it, with the text of that line as raw text. -/
inductive Foreign (p : Program) (excluded : List String) (k : Constant) : Prop
  | intro {field : FieldRef} (isConstant : k.kind = .fieldConstant) (reads : IsFieldRead p k.line field)
      (undeclared : p.resolveField? (p.fieldTarget field).1 (p.fieldTarget field).2 = none)
      (unwritten : Index.scan p excluded (Index.isWriteOf p (p.fieldKey field)) = [])
      (isKey : k.value = Octets.ofString (p.fieldKey field)) (isText : k.raw = (p.label k.line).text)

/-- A field that is declared elsewhere is not written in the program: nothing is declared, loaded or computed on the
line that reads it. -/
theorem Foreign.not_written (foreign : Foreign p excluded k) : ¬ Written p k := by
  obtain ⟨isConstant, ⟨op, does, isRead, -⟩, -⟩ := foreign
  intro written
  cases written with
  | load _ loads => simp [← Option.some.inj (loads.symm.trans does), Operation.kind] at isRead
  | operand _ computes => simp [← Option.some.inj (computes.symm.trans does), Operation.kind] at isRead
  | payload _ _ fills => simp [← Option.some.inj (fills.symm.trans does), Operation.kind] at isRead
  | initial _ declares => simp [declares, Program.operation?] at does

/-- What is recorded under a literal kind. -/
theorem Recorded.written_or_foreign {tops : BlockId → Register → Prop} {level : Int}
    (isIndex : x.index = (Index.ofProgram p excluded).index) (recorded : Recorded x tops level k)
    (isLiteral : k.kind.isLiteral = true) : Written p k ∨ Foreign p excluded k := by
  have isProgram : x.program = p := by rw [Context.program, isIndex, Index.program_ofProgram]
  subst isProgram
  cases recorded with
  | literal loads isValue isLocal => exact .inl (.load isLocal loads isValue)
  | operand computes isValue => exact .inl (.operand rfl computes isValue)
  | payload fills entries areValues =>
    obtain ⟨method, isMethod, holds⟩ := hasPayload_of_payload entries
    exact .inl (.payload rfl rfl fills isMethod holds rfl areValues rfl)
  | initial isField isValue => exact .inl (.initial rfl rfl isField rfl isValue)
  | foreign reads undeclared unwritten =>
    obtain ⟨field, isRead, target⟩ := reads
    have isKey := x.program.join_fieldTarget field
    rw [target] at isKey
    refine .inr (.intro rfl isRead ?_ ?_ (congrArg Octets.ofString isKey) rfl)
    · rw [target]
      exact resolveField?_eq_none undeclared
    · rw [← isKey]
      exact scan_eq_nil_of_fieldStores isIndex unwritten
  | _ => cases isLiteral

/-- What a constant stands for does not depend on its level. -/
theorem Written.lowered {k' : Constant} (written : Written p k) (lowered : k.Lowered k') : Written p k' := by
  rw [lowered.1]
  cases written with
  | load isLocal loads isValue => exact .load isLocal loads isValue
  | operand isMath computes isValue => exact .operand isMath computes isValue
  | payload isArray inside fills isMethod entries isRaw areValues isValue =>
    exact .payload isArray inside fills isMethod entries isRaw areValues isValue
  | initial isConstant declares isField isRaw isValue => exact .initial isConstant declares isField isRaw isValue

theorem Foreign.lowered {k' : Constant} (foreign : Foreign p excluded k) (lowered : k.Lowered k') :
    Foreign p excluded k' := by
  rw [lowered.1]
  obtain ⟨isConstant, reads, undeclared, unwritten, isKey, isText⟩ := foreign
  exact .intro isConstant reads undeclared unwritten isKey isText

/-- A constant of a literal kind is written in the program, unless it stands for a field that is declared elsewhere. -/
theorem Pattern.written_iff (pattern : Pattern)
    (found : (pattern.slice (Index.ofProgram p excluded).index options).searches[i]? = some result)
    (kept : k ∈ result.constants) (isLiteral : k.kind.isLiteral = true) : Written p k ↔ ¬ Foreign p excluded k := by
  have closed : Closed options.maxFuzzy fun _ _ => True := fun _ _ _ _ _ _ _ _ => trivial
  obtain ⟨s, level, _, tops, k₀, isSearch, -, recorded, lowered⟩ := exists_recorded closed trivial found kept
  obtain ⟨isIndex, -⟩ := context_of_search? isSearch
  have sameKind : k.kind = k₀.kind := by rw [lowered.1]
  refine ⟨fun written foreign => foreign.not_written written, fun declared => ?_⟩
  rcases recorded.written_or_foreign isIndex (sameKind ▸ isLiteral) with written | foreign
  · exact written.lowered lowered
  · exact absurd (foreign.lowered lowered) declared

end SmaliTrace.Slice
