import SmaliTrace.Proofs.Slice.Performed

/-!
Two searches of one program under two fuzzy ceilings. Where they perform items of one key, they walk over the
same lines and ask for the same keys, each at the levels of its own item: what the one does, the other does
too, except that a read of the field that its own item started from is passed over.
-/
namespace SmaliTrace.Slice
open SmaliTrace.Smali SmaliTrace.ClassFile

/-- The same surroundings under another fuzzy ceiling. -/
def Context.withCeiling (x : Context) (n : Int) : Context :=
  { x with options := { x.options with maxFuzzy := n } }

/-- One change that a search makes in an item at the levels of `r`, and the change that the other search makes
in the item at the levels of `r'` with it. -/
inductive Twin (x : Context) (n : Int) (r r' : RegisterSearch) : State × State → State × State → Prop
  | register (σ σ' : State) {q q' : RegisterSearch} (key : q'.key = q.key)
      (level : (q.fuzzy = r.fuzzy ∧ q'.fuzzy = r'.fuzzy) ∨ (q.fuzzy = r.fuzzy + 1 ∧ q'.fuzzy = r'.fuzzy + 1))
      (offset : q.offset = r.offset ∧ q'.offset = r'.offset) :
      Twin x n r r' (σ, σ') ({ σ with work := (σ.work.admitRegister q).1 },
        { σ' with work := (σ'.work.admitRegister q').1 })
  | content (σ σ' : State) (kind : Content) {q q' : ContentSearch} (key : q'.key kind = q.key kind)
      (level : q.fuzzy = r.fuzzy ∧ q'.fuzzy = r'.fuzzy)
      (offset : (q.offset = r.offset ∧ q'.offset = r'.offset) ∨
        (q.offset = resultOffset x r ∧ q'.offset = resultOffset (x.withCeiling n) r')) :
      Twin x n r r' (σ, σ') ({ σ with work := (σ.work.admitContent kind q).1 },
        { σ' with work := (σ'.work.admitContent kind q').1 })
  | skipped (σ σ' : State) {q : ContentSearch} (level : q.fuzzy = r.fuzzy) (own : q.name = r'.field)
      (other : q.name ≠ r.field) :
      Twin x n r r' (σ, σ') ({ σ with work := (σ.work.admitContent .field q).1 }, σ')
  | kept (σ σ' : State) {k k' : Constant} (line : k'.line = k.line) (level : r.fuzzy ≤ k.fuzzy) :
      Twin x n r r' (σ, σ') (σ.keep k, σ'.keep k')
  | quiet {σ τ : State} (σ' : State) (quiet : Quiet σ τ) : Twin x n r r' (σ, σ') (τ, σ')
  | alone (σ : State) {σ' τ' : State} (edit : Edit σ' τ') : Twin x n r r' (σ, σ') (σ, τ')

/-- Changes of two searches, one after the other. -/
abbrev Twins (x : Context) (n : Int) (r r' : RegisterSearch) : State × State → State × State → Prop :=
  Relation.ReflTransGen (Twin x n r r')

/-- If both actions succeed, they change their states together, and their results are related. -/
structure Mirrors (x : Context) (n : Int) (r r' : RegisterSearch) {α β : Type} (R : α → β → Prop)
    (a : SearchM α) (b : SearchM β) : Prop where
  run : ∀ {σ σ' τ τ' : State} {v : α} {v' : β}, exec a σ = (.ok v, τ) → exec b σ' = (.ok v', τ') →
    R v v' ∧ Twins x n r r' (σ, σ') (τ, τ')

/-- Two actions without a result of interest. -/
abbrev MirrorsUnit (x : Context) (n : Int) (r r' : RegisterSearch) (a b : SearchM Unit) : Prop :=
  Mirrors x n r r' (fun _ _ => True) a b

variable {x : Context} {n : Int} {r r' : RegisterSearch} {c c' : Cursor} {s : Site} {α β γ δ : Type}

theorem twins_of_edits {σ σ' τ' : State} (edits : Edits σ' τ') : Twins x n r r' (σ, σ') (σ, τ') := by
  induction edits with
  | refl => exact .refl
  | tail _ edit ih => exact ih.tail (.alone σ edit)

namespace Mirrors

variable {R : α → β → Prop}

theorem pure {v : α} {v' : β} (related : R v v') : Mirrors x n r r' R (pure v) (pure v') := by
  refine ⟨fun ran ran' => ?_⟩
  cases ran
  cases ran'
  exact ⟨related, .refl⟩

theorem misshapen (y : Context) (line : LineId) (shape : Misshape) (b : SearchM β) :
    Mirrors x n r r' R (misshapen y line shape) b :=
  ⟨fun ran _ => by simp at ran⟩

theorem illogical (y : Context) (line : LineId) (surprise : Surprise) (b : SearchM β) :
    Mirrors x n r r' R (illogical y line surprise) b :=
  ⟨fun ran _ => by simp at ran⟩

theorem bind {S : γ → δ → Prop} {a : SearchM α} {b : SearchM β} {f : α → SearchM γ} {g : β → SearchM δ}
    (first : Mirrors x n r r' R a b) (rest : ∀ v v', R v v' → Mirrors x n r r' S (f v) (g v')) :
    Mirrors x n r r' S (a >>= f) (b >>= g) := by
  refine ⟨fun ran ran' => ?_⟩
  obtain ⟨v, ρ, ran₁, ran₂⟩ := exec_bind_eq_ok_iff.mp ran
  obtain ⟨v', ρ', ran₁', ran₂'⟩ := exec_bind_eq_ok_iff.mp ran'
  obtain ⟨related, twins₁⟩ := first.run ran₁ ran₁'
  obtain ⟨result, twins₂⟩ := (rest v v' related).run ran₂ ran₂'
  exact ⟨result, twins₁.trans twins₂⟩

theorem map {S : γ → δ → Prop} {a : SearchM α} {b : SearchM β} {f : α → γ} {g : β → δ}
    (mirrors : Mirrors x n r r' R a b) (related : ∀ v v', R v v' → S (f v) (g v')) :
    Mirrors x n r r' S (f <$> a) (g <$> b) := by
  rw [← bind_pure_comp, ← bind_pure_comp]
  exact mirrors.bind fun v v' same => .pure (related v v' same)

theorem forM {items : List γ} {f g : γ → SearchM PUnit} (each : ∀ item, MirrorsUnit x n r r' (f item) (g item)) :
    MirrorsUnit x n r r' (items.forM f) (items.forM g) := by
  induction items with
  | nil => exact .pure trivial
  | cons item items ih => exact (each item).bind fun _ _ _ => ih

theorem mapM {items : List γ} {f : γ → SearchM α} {g : γ → SearchM β}
    (each : ∀ item, Mirrors x n r r' (fun _ _ => True) (f item) (g item)) :
    Mirrors x n r r' (fun _ _ => True) (items.mapM f) (items.mapM g) := by
  induction items with
  | nil => exact .pure trivial
  | cons item items ih =>
    rw [List.mapM_cons, List.mapM_cons]
    exact (each item).bind fun _ _ _ => ih.bind fun _ _ _ => .pure trivial

/-- The first search changes its graph only, whatever the other does. -/
theorem of_quiet {a : SearchM α} {b : SearchM β} (quiet : ∀ σ τ v, exec a σ = (.ok v, τ) → Quiet σ τ)
    (develops : Develops b) : Mirrors x n r r' (fun _ _ => True) a b :=
  ⟨fun ran ran' => ⟨trivial, .head (.quiet _ (quiet _ _ _ ran)) (twins_of_edits (develops.edits ran'))⟩⟩

end Mirrors

/-! ### The steps that all searches are made of -/

theorem mirrors_admitRegister {q q' : RegisterSearch} (key : q'.key = q.key)
    (level : (q.fuzzy = r.fuzzy ∧ q'.fuzzy = r'.fuzzy) ∨ (q.fuzzy = r.fuzzy + 1 ∧ q'.fuzzy = r'.fuzzy + 1))
    (offset : q.offset = r.offset ∧ q'.offset = r'.offset) :
    MirrorsUnit x n r r' (admitRegister q) (admitRegister q') := by
  refine ⟨fun ran ran' => ⟨trivial, ?_⟩⟩
  cases ran
  cases ran'
  exact .single (.register _ _ key level offset)

theorem mirrors_admitContent (kind : Content) {q q' : ContentSearch} (key : q'.key kind = q.key kind)
    (level : q.fuzzy = r.fuzzy ∧ q'.fuzzy = r'.fuzzy)
    (offset : (q.offset = r.offset ∧ q'.offset = r'.offset) ∨
      (q.offset = resultOffset x r ∧ q'.offset = resultOffset (x.withCeiling n) r')) :
    MirrorsUnit x n r r' (admitContent kind q) (admitContent kind q') := by
  refine ⟨fun ran ran' => ⟨trivial, ?_⟩⟩
  cases ran
  cases ran'
  exact .single (.content _ _ kind key level offset)

theorem mirrors_addNode (line line' : LineId) (pred pred' : Option NodeId) (key key' : EdgeKey) :
    Mirrors x n r r' (fun _ _ => True) (onWork (·.addNode line pred key)) (onWork (·.addNode line' pred' key')) := by
  refine .of_quiet (fun σ τ v ran => ?_) (develops_addNode ..)
  cases ran
  exact ⟨fun item => by cases item <;> rfl, rfl, rfl, (SliceGraph.lines_addNode ..).1, rfl⟩

theorem mirrors_addConstant (line line' : LineId) (pred pred' : Option NodeId)
    (register register' target target' : Register) :
    Mirrors x n r r' (fun _ _ => True) (onWork (·.addConstant line pred register target))
      (onWork (·.addConstant line' pred' register' target')) := by
  refine .of_quiet (fun σ τ v ran => ?_) (develops_addConstant ..)
  cases ran
  exact ⟨fun item => by cases item <;> rfl, rfl, rfl, (SliceGraph.lines_addConstant ..).1, rfl⟩

theorem mirrors_produceIf (direct direct' : Bool) (id id' : Nat) (key key' : EdgeKey) :
    MirrorsUnit x n r r' (produceIf direct id key) (produceIf direct' id' key') := by
  refine .of_quiet (fun σ τ v ran => ?_) (develops_produceIf ..)
  unfold produceIf at ran
  split at ran
  · cases ran
    have relinked := Worklist.relinked_produce σ.work id key
    exact ⟨fun _ => relinked.waits, relinked.maxFuzzy, relinked.done, by rw [relinked.lines], rfl⟩
  · cases ran
    exact ⟨fun _ => Iff.rfl, rfl, rfl, List.prefix_rfl, rfl⟩

theorem mirrors_keepConstant {k k' : Constant} (line : k'.line = k.line) (level : r.fuzzy ≤ k.fuzzy) :
    MirrorsUnit x n r r' (keepConstant k) (keepConstant k') := by
  refine ⟨fun ran ran' => ⟨trivial, ?_⟩⟩
  cases ran
  cases ran'
  exact .single (.kept _ _ line level)

/-- The cursors track one register. -/
def Alike (c c' : Cursor) : Prop := c'.register = c.register

theorem mirrors_step (line : LineId) (source source' register : Register) :
    Mirrors x n r r' Alike (step c line source register) (step c' line source' register) :=
  (mirrors_addNode ..).bind fun _ _ _ => (mirrors_produceIf ..).bind fun _ _ _ => .pure rfl

theorem mirrors_terminal (alike : Alike c c') (y y' : Context) (line : LineId) (kind kind' : ConstantKind)
    (value value' : Text.Octets) (raw raw' : String) {fuzzy fuzzy' : Int} (level : r.fuzzy ≤ fuzzy) :
    Mirrors x n r r' Alike (terminal y c line kind value raw fuzzy) (terminal y' c' line kind' value' raw' fuzzy') :=
  (mirrors_addConstant ..).bind fun _ _ _ => (mirrors_keepConstant (by rfl) level).bind fun _ _ _ =>
    (mirrors_produceIf ..).bind fun _ _ _ => .pure alike

theorem mirrors_record (y y' : Context) (line : LineId) (kind kind' : ConstantKind) (value value' : Text.Octets)
    (raw raw' : String) {fuzzy fuzzy' : Int} (level : r.fuzzy ≤ fuzzy) :
    MirrorsUnit x n r r' (record y c line kind value raw fuzzy) (record y' c' line kind' value' raw' fuzzy') :=
  mirrors_keepConstant (by rfl) level

theorem mirrors_fork (register : Register) (block : BlockId) (index : Int) :
    MirrorsUnit x n r r' (fork r c register block index r.fuzzy) (fork r' c' register block index r'.fuzzy) :=
  mirrors_admitRegister rfl (.inl ⟨rfl, rfl⟩) ⟨rfl, rfl⟩

theorem mirrors_forkDeeper (register : Register) (block : BlockId) (index : Int) :
    MirrorsUnit x n r r' (fork r c register block index (r.fuzzy + 1))
      (fork r' c' register block index (r'.fuzzy + 1)) :=
  mirrors_admitRegister rfl (.inr ⟨rfl, rfl⟩) ⟨rfl, rfl⟩

theorem mirrors_argumentsOf : Mirrors x n r r' Eq (argumentsOf x s) (argumentsOf (x.withCeiling n) s) := by
  unfold argumentsOf
  cases s.instruction.arguments with
  | ok arguments => exact .pure rfl
  | error e => exact .misshapen ..

theorem mirrors_argumentOf (index : Int) :
    Mirrors x n r r' Eq (argumentOf x s index) (argumentOf (x.withCeiling n) s index) := by
  unfold argumentOf
  cases s.instruction.argument index with
  | ok register => exact .pure rfl
  | error e => exact .misshapen ..

/-! ### Where values come from -/

theorem mirrors_literalLoad (alike : Alike c c') (raw : String) :
    MirrorsUnit x n r r' (literalLoad x r c s raw) (literalLoad (x.withCeiling n) r' c' s raw) := by
  unfold literalLoad
  cases Literal.value raw with
  | error e => exact .misshapen ..
  | ok value => exact (mirrors_terminal alike _ _ _ _ _ _ _ _ _ (le_refl _)).bind fun _ _ _ => .pure trivial

theorem mirrors_opcodeValue (alike : Alike c c') (value : String) :
    MirrorsUnit x n r r' (opcodeValue x r c s value) (opcodeValue (x.withCeiling n) r' c' s value) :=
  (mirrors_terminal alike _ _ _ _ _ _ _ _ _ (le_refl _)).bind fun _ _ _ => .pure trivial

theorem payload_withCeiling (m : MethodId) (label : String) :
    payload (x.withCeiling n) m label = payload x m label := by
  have entries : ∀ (lines : List (CodeLine × Nat)) (inside : Bool),
      payloadEntries (x.withCeiling n) m label inside lines = payloadEntries x m label inside lines := by
    intro lines
    induction lines with
    | nil => exact fun _ => rfl
    | cons line lines ih =>
      intro inside
      unfold payloadEntries
      simp only [ih]
      rfl
  unfold payload
  simp only [entries]
  rfl

theorem mirrors_payloadLoad (alike : Alike c c') (label : String) :
    MirrorsUnit x n r r' (payloadLoad x r c s label) (payloadLoad (x.withCeiling n) r' c' s label) := by
  unfold payloadLoad
  rw [payload_withCeiling]
  cases payload x s.method label with
  | error e => exact .misshapen ..
  | ok raws =>
    refine Mirrors.bind (.mapM fun raw => ?_) fun _ _ _ =>
      (mirrors_terminal alike _ _ _ _ _ _ _ _ _ (le_refl _)).bind fun _ _ _ => .pure trivial
    cases Literal.value raw with
    | ok value => exact .pure trivial
    | error e => exact .misshapen ..

theorem mirrors_enterCaller (m : MethodId) (index : Int) :
    MirrorsUnit x n r r' (enterCaller x r c m index s) (enterCaller (x.withCeiling n) r' c' m index s) := by
  unfold enterCaller
  cases s.instruction.argument index with
  | error e => exact .illogical ..
  | ok register =>
    exact (mirrors_addNode ..).bind fun _ _ _ => (mirrors_produceIf ..).bind fun _ _ _ =>
      mirrors_admitRegister rfl (.inl ⟨rfl, rfl⟩) ⟨rfl, rfl⟩

theorem mirrors_callers (alike : Alike c c') (m : MethodId) (index : Int) :
    MirrorsUnit x n r r' (callers x r c m index) (callers (x.withCeiling n) r' c' m index) := by
  unfold callers
  rw [show (x.withCeiling n).index = x.index from rfl]
  cases x.index.sitesOf (x.index.callSitesOf m) with
  | nil =>
    cases x.index.sites ⟨m, 0⟩ with
    | nil => exact .pure trivial
    | cons entry _ =>
      exact (mirrors_terminal alike _ _ _ _ _ _ _ _ _ (le_refl _)).bind fun _ _ _ => .pure trivial
  | cons first rest => exact .forM fun s => mirrors_enterCaller m index

theorem mirrors_callersAtEntry (alike : Alike c c') (b : BlockId) :
    MirrorsUnit x n r r' (callersAtEntry x r c b) (callersAtEntry (x.withCeiling n) r' c' b) := by
  unfold callersAtEntry
  rw [show (x.withCeiling n).program = x.program from rfl, alike]
  split
  · exact .pure trivial
  · cases (x.program.method? b.method).bind fun m => m.paramIndex? c.register with
    | none => exact .pure trivial
    | some index => exact mirrors_callers alike b.method index

theorem mirrors_libraryArguments (method : MethodRef) (skip : Option Register) :
    MirrorsUnit x n r r' (libraryArguments x r c s method skip)
      (libraryArguments (x.withCeiling n) r' c' s method skip) := by
  refine mirrors_argumentsOf.bind fun arguments _ same => ?_
  subst same
  exact .forM fun a => mirrors_forkDeeper ..

theorem mirrors_callResult (alike : Alike c c') (method : MethodRef) :
    MirrorsUnit x n r r' (callResult x r c s method) (callResult (x.withCeiling n) r' c' s method) := by
  unfold callResult
  rw [show (x.withCeiling n).index = x.index from rfl, show (x.withCeiling n).program = x.program from rfl]
  cases (x.index.resolve? method).bind fun id => (x.program.method? id).map (id, ·) with
  | none =>
    exact (mirrors_terminal alike _ _ _ _ _ _ _ _ _ (le_refl _)).bind fun _ _ _ => mirrors_libraryArguments ..
  | some found =>
    obtain ⟨id, callee⟩ := found
    dsimp only
    split
    · exact (mirrors_terminal alike _ _ _ _ _ _ _ _ _ (le_refl _)).bind fun _ _ _ => .pure trivial
    · rw [alike]
      exact (mirrors_step ..).bind fun _ _ _ =>
        mirrors_admitContent .result rfl ⟨rfl, rfl⟩ (.inr ⟨rfl, rfl⟩)

theorem mirrors_builtArray (alike : Alike c c') (elements : List Register) (type : String) :
    MirrorsUnit x n r r' (builtArray x r c s elements type)
      (builtArray (x.withCeiling n) r' c' s elements type) := by
  unfold builtArray
  rw [alike]
  refine (mirrors_step ..).bind fun _ _ _ => ?_
  refine (Mirrors.forM fun _ => mirrors_fork ..).bind fun _ _ _ => ?_
  rw [show setByLiteral (x.withCeiling n) s = setByLiteral x s from rfl]
  split
  · exact .pure trivial
  · exact mirrors_record _ _ _ _ _ _ _ _ _ (le_refl _)

theorem mirrors_pickedResult (alike : Alike c c') :
    MirrorsUnit x n r r' (pickedResult x r c s) (pickedResult (x.withCeiling n) r' c' s) := by
  unfold pickedResult
  rw [show (x.withCeiling n).index = x.index from rfl]
  cases x.index.previousExecutable? s with
  | none => exact .illogical ..
  | some p =>
    dsimp only
    cases p.operation with
    | filledNewArray elements type => exact mirrors_builtArray alike ..
    | invoke _ method => exact mirrors_callResult alike method
    | _ => exact .illogical ..

/-! ### Arrays -/

theorem mirrors_elementStore (alike : Alike c c') (call : Option Site) (array value : Register) :
    MirrorsUnit x n r r' (elementStore r c call s array value) (elementStore r' c' call s array value) := by
  unfold elementStore
  cases call with
  | none => exact (Mirrors.pure alike).bind fun _ _ _ => (mirrors_step ..).bind fun _ _ _ => mirrors_fork ..
  | some call =>
    dsimp only
    rw [alike]
    exact (mirrors_step ..).bind fun _ _ _ => (mirrors_step ..).bind fun _ _ _ => mirrors_fork ..

theorem mirrors_storesInBlock (alike : Alike c c') (array : Register) (call : Option Site) (sites : List Site) :
    Mirrors x n r r' Eq (storesInBlock x r c array call sites)
      (storesInBlock (x.withCeiling n) r' c' array call sites) := by
  induction sites with
  | nil => exact .pure rfl
  | cons s sites ih =>
    unfold storesInBlock
    rw [show redirectInto? (x.withCeiling n) s array = redirectInto? x s array from rfl]
    cases s.operation with
    | arrayPut value target _ =>
      dsimp only
      split
      · exact (mirrors_elementStore alike call array value).bind fun _ _ _ => ih
      · exact ih
    | invoke _ _ =>
      cases redirectInto? x s array with
      | none => exact ih
      | some redirect =>
        refine (mirrors_argumentOf redirect.src).bind fun value _ same => ?_
        subst same
        exact (mirrors_elementStore alike call array value).bind fun _ _ _ => ih
    | _ =>
      dsimp only
      split
      · exact .pure rfl
      · exact ih

theorem mirrors_walkStores (alike : Alike c c') (array : Register) (call : Option Site) (f : Frontier)
    (queue : List (BlockId × Int)) :
    MirrorsUnit x n r r' (walkStores x r c array call f queue)
      (walkStores (x.withCeiling n) r' c' array call f queue) := by
  induction f, queue using walkStores.induct x with
  | case1 f =>
    rw [walkStores, walkStores]
    exact .pure trivial
  | case2 f b index rest onward stay =>
    rw [walkStores, walkStores]
    refine (mirrors_storesInBlock alike array call (linesOn x b index)).bind fun holds _ same => ?_
    subst same
    split
    · exact onward
    · exact stay

theorem mirrors_arrayStores (alike : Alike c c') (array : Register) (call : Option Site) (b : BlockId)
    (index : Int) :
    MirrorsUnit x n r r' (arrayStores x r c array call b index)
      (arrayStores (x.withCeiling n) r' c' array call b index) :=
  mirrors_walkStores alike array call _ _

theorem mirrors_argumentStores (alike : Alike c c') (callee : MethodId) (index : Int) :
    MirrorsUnit x n r r' (argumentStores x r c s callee index)
      (argumentStores (x.withCeiling n) r' c' s callee index) := by
  refine .forM fun body => ?_
  rw [show (x.withCeiling n).program = x.program from rfl]
  rcases (x.program.method? body).map (Method.paramRegister · index) with _ | (e | register)
  · exact .pure trivial
  · exact .illogical ..
  · exact mirrors_arrayStores alike ..

theorem mirrors_filledByCall (alike : Alike c c') (method : MethodRef) (arguments : List Argument) :
    Mirrors x n r r' Alike (filledByCall x r c s method arguments)
      (filledByCall (x.withCeiling n) r' c' s method arguments) := by
  unfold filledByCall
  rw [show (x.withCeiling n).index = x.index from rfl]
  cases arguments with
  | nil => exact .pure alike
  | cons a _ =>
    dsimp only
    cases x.index.resolve? method with
    | none => exact mirrors_terminal alike _ _ _ _ _ _ _ _ _ (by omega)
    | some callee => exact (mirrors_argumentStores alike callee a.index).bind fun _ _ _ => .pure alike

theorem mirrors_copiedFrom (alike : Alike c c') (redirect : Redirect) :
    Mirrors x n r r' Alike (copiedFrom x r c s redirect) (copiedFrom (x.withCeiling n) r' c' s redirect) := by
  refine (mirrors_argumentOf redirect.src).bind fun source _ same => ?_
  subst same
  rw [alike]
  exact (mirrors_step ..).bind fun _ _ alike => (mirrors_fork ..).bind fun _ _ _ => .pure alike

theorem mirrors_arrayCall (alike : Alike c c') (method : MethodRef) :
    Mirrors x n r r' Alike (arrayCall x r c s method) (arrayCall (x.withCeiling n) r' c' s method) := by
  unfold arrayCall
  rw [alike, show isAskedFor (x.withCeiling n) s = isAskedFor x s from rfl,
    show redirectInto? (x.withCeiling n) s c.register = redirectInto? x s c.register from rfl]
  split
  · exact .pure alike
  · cases redirectInto? x s c.register with
    | some redirect => exact mirrors_copiedFrom alike redirect
    | none =>
      refine mirrors_argumentsOf.bind fun arguments _ same => ?_
      subst same
      exact mirrors_filledByCall alike ..

theorem mirrors_arrayLine (alike : Alike c c') :
    Mirrors x n r r' (Option.Rel Alike) (arrayLine x r c s) (arrayLine (x.withCeiling n) r' c' s) := by
  have passed : Mirrors x n r r' (Option.Rel Alike) (pure (some c)) (pure (some c')) := .pure (.some alike)
  have ended : ∀ {a b : SearchM Unit}, MirrorsUnit x n r r' a b →
      Mirrors x n r r' (Option.Rel Alike) (do a; pure none) (do b; pure none) :=
    fun mirrors => mirrors.bind fun _ _ _ => .pure .none
  unfold arrayLine
  rw [alike]
  cases s.operation with
  | newArray d _ type | constClass d type =>
    dsimp only
    split
    · exact ended (mirrors_opcodeValue alike type)
    · exact passed
  | fillArrayData array label =>
    dsimp only
    split
    · exact ended (mirrors_payloadLoad alike label)
    · exact passed
  | arrayPut value array _ =>
    dsimp only
    split
    · exact (mirrors_step ..).bind fun _ _ alike => (mirrors_fork ..).bind fun _ _ _ => .pure (.some alike)
    · exact passed
  | constLiteral d literal =>
    dsimp only
    split
    · exact passed
    · split
      · exact .pure .none
      · exact ended (mirrors_literalLoad alike literal)
  | move d source | arrayGet d source _ =>
    dsimp only
    split
    · exact (mirrors_step ..).map fun _ _ alike => .some alike
    · exact passed
  | staticGet d field | instanceGet d _ field =>
    dsimp only
    split
    · refine (mirrors_step ..).bind fun c c' alike => ?_
      rw [show (x.withCeiling n).program = x.program from rfl, alike]
      exact ended (mirrors_admitContent .array rfl ⟨rfl, rfl⟩ (.inl ⟨rfl, rfl⟩))
    · exact passed
  | moveResult d =>
    dsimp only
    split
    · exact ended (mirrors_fork ..)
    · exact passed
  | invoke _ method => exact (mirrors_arrayCall alike method).map fun _ _ alike => .some alike
  | _ =>
    dsimp only
    split
    · exact ended (mirrors_opcodeValue alike _)
    · exact passed

theorem mirrors_arrayLines (alike : Alike c c') (sites : List Site) :
    Mirrors x n r r' (Option.Rel Alike) (arrayLines x r c sites) (arrayLines (x.withCeiling n) r' c' sites) := by
  induction sites generalizing c c' with
  | nil => exact .pure (.some alike)
  | cons s sites ih =>
    refine (mirrors_arrayLine alike).bind fun left left' related => ?_
    cases related with
    | some alike => exact ih alike
    | none => exact .pure .none

/-- Frames of one place, with cursors that track one register. -/
def AlikeFrame (f f' : ArrayFrame) : Prop := f'.block = f.block ∧ f'.index = f.index ∧ Alike f.cursor f'.cursor

theorem mirrors_walkArray (f : Frontier) (queue queue' : List ArrayFrame)
    (alike : List.Forall₂ AlikeFrame queue queue') :
    MirrorsUnit x n r r' (walkArray x r f queue) (walkArray (x.withCeiling n) r' f queue') := by
  induction f, queue using walkArray.induct x generalizing queue' with
  | case1 f =>
    cases alike
    rw [walkArray, walkArray]
    exact .pure trivial
  | case2 f frame rest stay onward =>
    cases alike with
    | @cons _ frame' _ rest' same others =>
      obtain ⟨block, index, alike⟩ := same
      rw [walkArray, walkArray, block, index]
      refine (mirrors_arrayLines alike (linesBack x frame.block frame.index)).bind fun left left' related => ?_
      cases related with
      | none => exact stay rest' others
      | @some c c' alike =>
        refine (mirrors_callersAtEntry alike frame.block).bind fun _ _ _ => onward c _ ?_
        refine List.rel_append others ?_
        rw [List.forall₂_map_left_iff, List.forall₂_map_right_iff]
        exact List.forall₂_same.mpr fun _ _ => ⟨rfl, rfl, alike⟩

theorem mirrors_arrayOrigin (alike : Alike c c') (b : BlockId) (index : Int) :
    MirrorsUnit x n r r' (arrayOrigin x r c b index) (arrayOrigin (x.withCeiling n) r' c' b index) :=
  mirrors_walkArray _ _ _ (.cons ⟨rfl, rfl, alike⟩ .nil)

/-! ### Backward searches -/

theorem mirrors_backwardCall (alike : Alike c c') (method : MethodRef) :
    Mirrors x n r r' Alike (backwardCall x r c s method) (backwardCall (x.withCeiling n) r' c' s method) := by
  unfold backwardCall
  rw [alike, show isAskedFor (x.withCeiling n) s = isAskedFor x s from rfl,
    show redirectInto? (x.withCeiling n) s c.register = redirectInto? x s c.register from rfl]
  split
  · exact .pure alike
  · refine mirrors_argumentsOf.bind fun arguments _ same => ?_
    subst same
    cases redirectInto? x s c.register with
    | some redirect => exact mirrors_copiedFrom alike redirect
    | none =>
      dsimp only
      split
      · exact (mirrors_step ..).bind fun _ _ alike => (mirrors_libraryArguments ..).bind fun _ _ _ => .pure alike
      · exact mirrors_filledByCall alike ..

theorem mirrors_backwardMath (left right : Register) :
    Mirrors x n r r' (Option.Rel Alike) (backwardMath r c s left right) (backwardMath r' c' s left right) := by
  refine (mirrors_step ..).bind fun _ _ alike => ?_
  dsimp only
  split
  · exact (mirrors_fork ..).bind fun _ _ _ => .pure (.some alike)
  · exact .pure (.some alike)

/-- Each search passes over a read of the field that its own item started from. -/
theorem mirrors_backwardFieldRead (alike : Alike c c') (field : FieldRef) :
    MirrorsUnit x n r r' (backwardFieldRead x r c s field) (backwardFieldRead (x.withCeiling n) r' c' s field) := by
  unfold backwardFieldRead
  rw [show (x.withCeiling n).program = x.program from rfl, alike]
  rcases x.program.fieldTarget field with ⟨owner, name⟩
  refine (mirrors_step ..).bind fun c c' alike => ?_
  by_cases own : owner ++ "->" ++ name = r.field
  · rw [if_pos own]
    split
    · exact .pure trivial
    · exact .of_quiet (fun σ τ v ran => by cases ran; exact ⟨fun _ => Iff.rfl, rfl, rfl, List.prefix_rfl, rfl⟩)
        (develops_admitContent ..)
  · rw [if_neg own]
    by_cases own' : owner ++ "->" ++ name = r'.field
    · rw [if_pos own']
      refine ⟨fun ran ran' => ⟨trivial, ?_⟩⟩
      cases ran
      cases ran'
      exact .single (.skipped _ _ rfl own' own)
    · rw [if_neg own', alike]
      exact mirrors_admitContent .field rfl ⟨rfl, rfl⟩ (.inl ⟨rfl, rfl⟩)

theorem mirrors_backwardDefinition (alike : Alike c c') :
    Mirrors x n r r' (Option.Rel Alike) (backwardDefinition x r c s)
      (backwardDefinition (x.withCeiling n) r' c' s) := by
  have ended : ∀ {a b : SearchM Unit}, MirrorsUnit x n r r' a b →
      Mirrors x n r r' (Option.Rel Alike) (do a; pure none) (do b; pure none) :=
    fun mirrors => mirrors.bind fun _ _ _ => .pure .none
  unfold backwardDefinition
  cases s.operation with
  | move _ source | unaryMath _ source => exact (mirrors_step ..).map fun _ _ alike => .some alike
  | literalMath _ source raw =>
    refine (mirrors_step ..).bind fun c c' alike => ?_
    cases Literal.value raw with
    | error e => exact .misshapen ..
    | ok value =>
      exact (mirrors_record _ _ _ _ _ _ _ _ _ (le_refl _)).bind fun _ _ _ => .pure (.some alike)
  | inPlaceMath d source => exact mirrors_backwardMath d source
  | binaryMath _ left right => exact mirrors_backwardMath left right
  | arrayGet _ array _ =>
    exact (mirrors_step ..).bind fun _ _ alike => ended (mirrors_arrayOrigin alike ..)
  | moveResult _ => exact ended (mirrors_pickedResult alike)
  | constLiteral _ raw => exact ended (mirrors_literalLoad alike raw)
  | constClass _ type | newInstance _ type | newArray _ _ type => exact ended (mirrors_opcodeValue alike type)
  | instanceGet _ _ field | staticGet _ field => exact ended (mirrors_backwardFieldRead alike field)
  | _ => exact ended (mirrors_opcodeValue alike _)

theorem mirrors_backwardLine (alike : Alike c c') :
    Mirrors x n r r' (Option.Rel Alike) (backwardLine x r c s) (backwardLine (x.withCeiling n) r' c' s) := by
  have passed : Mirrors x n r r' (Option.Rel Alike) (pure (some c)) (pure (some c')) := .pure (.some alike)
  unfold backwardLine
  rw [alike]
  split
  · exact mirrors_backwardDefinition alike
  · cases s.operation with
    | returnVoid | returnValue _ =>
      dsimp only
      rw [show mayPassReturn (x.withCeiling n) = mayPassReturn x from rfl]
      split
      · exact passed
      · exact .illogical ..
    | fillArrayData array label =>
      dsimp only
      split
      · exact (mirrors_payloadLoad alike label).bind fun _ _ _ => .pure .none
      · exact passed
    | arrayPut value array _ =>
      dsimp only
      split
      · exact (mirrors_step ..).bind fun _ _ alike => (mirrors_fork ..).bind fun _ _ _ => .pure (.some alike)
      · exact passed
    | invoke _ method => exact (mirrors_backwardCall alike method).map fun _ _ alike => .some alike
    | _ => exact passed

theorem mirrors_backwardLines (alike : Alike c c') (sites : List Site) :
    Mirrors x n r r' (Option.Rel Alike) (backwardLines x r c sites)
      (backwardLines (x.withCeiling n) r' c' sites) := by
  induction sites generalizing c c' with
  | nil => exact .pure (.some alike)
  | cons s sites ih =>
    refine (mirrors_backwardLine alike).bind fun left left' related => ?_
    cases related with
    | some alike => exact ih alike
    | none => exact .pure .none

theorem mirrors_blockTop (alike : Alike c c') (block : r'.block = r.block) :
    MirrorsUnit x n r r' (blockTop x r c) (blockTop (x.withCeiling n) r' c') := by
  unfold blockTop
  rw [block, alike]
  refine Mirrors.bind (.forM fun p => ?_) fun _ _ _ => mirrors_callersAtEntry alike r.block
  exact mirrors_admitRegister rfl (.inl ⟨rfl, rfl⟩) ⟨rfl, rfl⟩

theorem mirrors_backwardRegister (key : r'.key = r.key) :
    MirrorsUnit x n r r' (backwardRegister x r) (backwardRegister (x.withCeiling n) r') := by
  obtain ⟨register, block, index⟩ := ItemKey.register.inj key
  have alike : Alike r.cursor r'.cursor := register
  unfold backwardRegister
  rw [block, index]
  refine (mirrors_backwardLines alike (linesBack x r.block r.index)).bind fun left left' related => ?_
  cases related with
  | some alike => exact mirrors_blockTop alike block
  | none => exact .pure trivial

/-! ### Contents -/

/-- The content is not known from the program: its constant stays on the line of the access. -/
def unknown (x : Context) (kind : Content) (c : ContentSearch) : Bool :=
  match kind with
  | .field | .array => (fieldStores x c.name).isEmpty && (trackedField? x c).isNone
  | .result => (((trackedMethod? x c).map (returnedValues x)).getD []).isEmpty

/-- Two searches for one content, from one line if the content is unknown. -/
structure SameContent (x : Context) (kind : Content) (c c' : ContentSearch) : Prop where
  owner : c'.owner = c.owner
  identifier : c'.identifier = c.identifier
  line : unknown x kind c = true → c'.line = c.line

instance (x : Context) (kind : Content) (c c' : ContentSearch) : Decidable (SameContent x kind c c') :=
  decidable_of_iff (c'.owner = c.owner ∧ c'.identifier = c.identifier ∧ (unknown x kind c = true → c'.line = c.line))
    ⟨fun ⟨owner, identifier, line⟩ => ⟨owner, identifier, line⟩, fun same => ⟨same.owner, same.identifier, same.line⟩⟩

variable {kind : Content} {q q' : ContentSearch}

theorem SameContent.name (same : SameContent x kind q q') : q'.name = q.name := by
  rw [ContentSearch.name, ContentSearch.name, same.owner, same.identifier]

theorem SameContent.trackedField? (same : SameContent x kind q q') :
    trackedField? (x.withCeiling n) q' = trackedField? x q := by
  unfold Slice.trackedField?
  rw [same.owner, same.identifier]
  rfl

theorem SameContent.trackedMethod? (same : SameContent x kind q q') :
    trackedMethod? (x.withCeiling n) q' = trackedMethod? x q := by
  unfold Slice.trackedMethod?
  rw [same.owner, same.identifier]
  rfl

/-- The register search that carries the levels of a content search. -/
abbrev ContentSearch.terms (q : ContentSearch) : RegisterSearch := q.asRegisterSearch q.name

theorem mirrors_foreignField (same : SameContent x kind q q') (line : q'.line = q.line) :
    MirrorsUnit x n q.terms q'.terms (foreignField x q) (foreignField (x.withCeiling n) q') := by
  have alike : Alike (q.cursor q.name) (q'.cursor q'.name) := same.name
  unfold foreignField
  rw [line]
  exact (mirrors_terminal alike _ _ _ _ _ _ _ _ _ (le_refl _)).bind fun _ _ _ => .pure trivial

theorem mirrors_backwardField (same : SameContent x .field q q') :
    MirrorsUnit x n q.terms q'.terms (backwardField x q) (backwardField (x.withCeiling n) q') := by
  unfold backwardField
  rw [show fieldStores (x.withCeiling n) = fieldStores x from rfl, same.name, same.trackedField?]
  refine Mirrors.bind (.forM fun store => (mirrors_step ..).bind fun _ _ _ => ?_) fun _ _ _ => ?_
  · exact mirrors_admitRegister rfl (.inl ⟨rfl, rfl⟩) ⟨rfl, rfl⟩
  · cases tracked : trackedField? x q with
    | none =>
      dsimp only
      split
      · next empty => exact mirrors_foreignField same (same.line (by simp [unknown, empty, tracked]))
      · exact .pure trivial
    | some found =>
      obtain ⟨line, f⟩ := found
      dsimp only
      split
      · cases Literal.value f.value with
        | error e => exact .misshapen ..
        | ok value =>
          have alike : Alike (q.cursor q.name) (q'.cursor q.name) := rfl
          exact (mirrors_terminal alike _ _ _ _ _ _ _ _ _ (le_refl _)).bind fun _ _ _ => .pure trivial
      · exact .pure trivial

theorem mirrors_backwardArrayField (same : SameContent x .array q q') :
    MirrorsUnit x n q.terms q'.terms (backwardArrayField x q) (backwardArrayField (x.withCeiling n) q') := by
  have terms : q'.terms = q'.asRegisterSearch q.name := by rw [ContentSearch.terms, same.name]
  unfold backwardArrayField
  rw [show fieldStores (x.withCeiling n) = fieldStores x from rfl,
    show fieldLoads (x.withCeiling n) = fieldLoads x from rfl, same.name, same.trackedField?, terms]
  refine Mirrors.bind (.forM fun store => ?_) fun _ _ _ => Mirrors.bind (.forM fun load => ?_) fun _ _ _ => ?_
  · exact (mirrors_step ..).bind fun _ _ alike => mirrors_arrayOrigin alike ..
  · exact (mirrors_step ..).bind fun _ _ alike => mirrors_arrayStores alike ..
  · rw [← terms]
    split
    · next isUnknown => exact mirrors_foreignField same (same.line (by simpa [unknown] using isUnknown))
    · exact .pure trivial

theorem mirrors_backwardResult (same : SameContent x .result q q') :
    MirrorsUnit x n q.terms q'.terms (backwardResult x q) (backwardResult (x.withCeiling n) q') := by
  unfold backwardResult
  rw [same.trackedMethod?, show returnedValues (x.withCeiling n) = returnedValues x from rfl]
  cases values : ((trackedMethod? x q).map (returnedValues x)).getD [] with
  | nil =>
    have alike : Alike (q.cursor q.name) (q'.cursor q'.name) := same.name
    dsimp only
    rw [same.line (by simp [unknown, values])]
    exact (mirrors_terminal alike _ _ _ _ _ _ _ _ _ (le_refl _)).bind fun _ _ _ => .pure trivial
  | cons first rest =>
    refine .forM fun value => (mirrors_step ..).bind fun _ _ _ => ?_
    exact mirrors_admitRegister rfl (.inl ⟨rfl, rfl⟩) ⟨rfl, rfl⟩

/-! ### Items -/

/-- The register search that carries the levels of an item. -/
def Item.terms : Item → RegisterSearch
  | .register r => r
  | .content _ q => q.terms

/-- Two items of one key, for one content from one line if they look for a content that is unknown. -/
def SameItem (x : Context) (item item' : Item) : Prop :=
  match item, item' with
  | .register r, .register r' => r'.key = r.key
  | .content kind q, .content kind' q' => kind' = kind ∧ SameContent x kind q q'
  | _, _ => False

instance (x : Context) (item item' : Item) : Decidable (SameItem x item item') :=
  match item, item' with
  | .register r, .register r' => inferInstanceAs (Decidable (r'.key = r.key))
  | .content kind q, .content kind' q' => inferInstanceAs (Decidable (kind' = kind ∧ SameContent x kind q q'))
  | .register _, .content _ _ | .content _ _, .register _ => inferInstanceAs (Decidable False)

/-- Two searches perform an item together. -/
theorem mirrors_perform (backward : x.forward = false) {item item' : Item} (same : SameItem x item item') :
    MirrorsUnit x n item.terms item'.terms (item.perform x) (item'.perform (x.withCeiling n)) := by
  have backward' : (x.withCeiling n).forward = false := backward
  cases item with
  | register r =>
    cases item' with
    | content kind' q' => exact same.elim
    | register r' =>
      rw [Item.perform, Item.perform, searchRegister, searchRegister, backward, backward']
      exact mirrors_backwardRegister same
  | content kind q =>
    cases item' with
    | register r' => exact same.elim
    | content kind' q' =>
      obtain ⟨rfl, same⟩ := same
      unfold Item.perform searchContent
      rw [backward, backward']
      cases kind' with
      | field => exact mirrors_backwardField same
      | array => exact mirrors_backwardArrayField same
      | result => exact mirrors_backwardResult same

end SmaliTrace.Slice
