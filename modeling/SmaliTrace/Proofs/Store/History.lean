import SmaliTrace.Proofs.Store.Database
import SmaliTrace.Proofs.Store.Record

/-!
Histories of a store: whatever is asked of it in whatever order, and however often it is closed and opened again, it
answers as a map from rules to records.
-/
namespace SmaliTrace.Store
open SmaliTrace.Analysis SmaliTrace.Text

/-! ### Requests and answers -/

/-- What is asked of a store, and when, where it looks at the clock. To reopen it is to close it and to open the same
file again. -/
inductive Request where
  | save (record : Record) (now : Timestamp)
  | saveResult (result : Result) (now : Timestamp)
  | load (rule : String)
  | rules
  | close
  | reopen

/-- What a store answers. -/
inductive Answer where
  | done
  | failed (error : StoreError)
  | record (record : Record)
  | rules (names : List String)
deriving DecidableEq

/-- The answer to an action, and the state that it leaves. -/
def answerOf {σ : Type} : EStateM.Result StoreError σ Unit → Answer × σ
  | .ok _ s => (.done, s)
  | .error e s => (.failed e, s)

/-- The answer to a question. -/
def answerTo {α : Type} (answer : α → Answer) : Except StoreError α → Answer
  | .ok a => answer a
  | .error e => .failed e

namespace Engine

variable (E : Engine) (C : Codec) (path : String)

/-- The answer of the store in the file at the path, and the world after it. -/
def perform (w : E.World) : Request → Answer × E.World
  | .save r now => answerOf ((E.save C (some now) r).run w)
  | .saveResult r now => answerOf ((E.saveResult C (some now) r).run w)
  | .load rule => (answerTo .record (E.load C rule w), w)
  | .rules => (answerTo .rules (E.rules w), w)
  | .close => (.done, E.close w)
  | .reopen => answerOf ((E.openAt path).run (E.close w))

/-- The requests with their answers, in order. -/
def history (w : E.World) : List Request → List (Request × Answer)
  | [] => []
  | q :: rest => (q, (E.perform C path w q).1) :: history (E.perform C path w q).2 rest

end Engine

/-! ### What a map from rules to records answers -/

/-- The record of every rule that has one, and whether they can be asked for. -/
structure Shelf where
  records : String → Option Record
  isOpen : Bool

namespace Shelf

/-- The records with one more, in place of the one for its rule. -/
def put (records : String → Option Record) (r : Record) : String → Option Record :=
  Function.update records r.rule (some r)

/-- The record has the time at which it is saved, unless it had a time of its own. -/
structure Stamped (now : Timestamp) (r r' : Record) : Prop where
  same : r' = { r with saved := r'.saved }
  own : ∀ t, r.saved = some t → t.isZero = false → r'.saved = some t
  clock : (∀ t, r.saved = some t → t.isZero = true) → r'.saved = some now

/-- The records tell the results of the rules, in order, and can all be stored. -/
structure Tells (p : Program) (now : Timestamp) (rules : List RuleResult) (rs : List Record) : Prop where
  told : List.Forall₂ (fun rule r => r.Describes p rule ∧ r.saved = some now) rules rs
  named : ∀ rule ∈ rules, rule.name ≠ ""
  good : rules ≠ [] → EncodeFault.of? now = none

/-- The record of one of the rules cannot be encoded, since the time cannot. -/
def Untold (now : Timestamp) (rules : List RuleResult) (e : StoreError) : Prop :=
  ∃ rule ∈ rules, ∃ fault, EncodeFault.of? now = some fault ∧ e = .encoding rule.name fault

/-- What a map of records answers, and what it is then. A save that succeeds puts the record; one of a result puts a
record for every rule, each telling the result of its rule. One that fails puts nothing. -/
inductive Step (s : Shelf) : Request → Answer → Shelf → Prop
  | saved {r r' : Record} {now : Timestamp} (isOpen : s.isOpen = true) (stamped : Stamped now r r')
      (named : r.rule ≠ "") (good : r'.encodeFault? = none) :
      Step s (.save r now) .done { s with records := put s.records r' }
  | notSaved {r : Record} {now : Timestamp} {e : StoreError} (why : (∃ fault, e = .engine fault) ∨
      ∃ r' fault, Stamped now r r' ∧ r'.encodeFault? = some fault ∧ e = .encoding r.rule fault) :
      Step s (.save r now) (.failed e) s
  | savedAll {result : Result} {now : Timestamp} {rs : List Record} (isOpen : s.isOpen = true)
      (tells : Tells result.program now result.rules rs) :
      Step s (.saveResult result now) .done { s with records := rs.foldl put s.records }
  | savedNone {result : Result} {now : Timestamp} {e : StoreError} (why : (∃ fault, e = .engine fault) ∨ Untold now result.rules e) :
      Step s (.saveResult result now) (.failed e) s
  | loaded {rule : String} {r r' : Record} (isOpen : s.isOpen = true) (found : s.records rule = some r)
      (alike : r'.Alike r) : Step s (.load rule) (.record r') s
  | missing {rule : String} (isOpen : s.isOpen = true) (absent : s.records rule = none) :
      Step s (.load rule) (.failed (.notFound rule)) s
  | notLoaded {rule : String} (closed : s.isOpen = false) : Step s (.load rule) (.failed (.engine .notOpen)) s
  | listed {names : List String} (isOpen : s.isOpen = true)
      (ordered : names.Pairwise fun a b => utf8 a < utf8 b)
      (exact : ∀ rule, rule ∈ names ↔ (s.records rule).isSome = true) : Step s .rules (.rules names) s
  | notListed (closed : s.isOpen = false) : Step s .rules (.failed (.engine .notOpen)) s
  | closed : Step s .close .done { s with isOpen := false }
  | reopened : Step s .reopen .done { s with isOpen := true }
  | notReopened {e : StoreError} : Step s .reopen (.failed e) { s with isOpen := false }

/-- The answers are those of the map, one after the other. -/
inductive Steps : Shelf → List (Request × Answer) → Shelf → Prop
  | nil (s : Shelf) : Steps s [] s
  | cons {s s₁ s' : Shelf} {q : Request} {a : Answer} {rest : List (Request × Answer)} (step : Step s q a s₁)
      (steps : Steps s₁ rest s') : Steps s ((q, a) :: rest) s'

end Shelf

/-! ### Values that stand for records -/

/-- The values under the keys stand for the records of the rules. -/
structure Represents (C : Codec) (m : Octets → Option Octets) (records : String → Option Record) : Prop where
  absent {rule : String} (none : records rule = none) : m rule = Option.none
  present {rule : String} {r : Record} (some : records rule = Option.some r) :
    ∃ data r', m rule = Option.some data ∧ C.decode data = .ok r' ∧ r'.Alike r
  named {key data : Octets} (stored : m key = some data) : ∃ rule : String, key = rule

theorem represents_empty (C : Codec) : Represents C (fun _ => none) (fun _ => none) where
  absent _ := rfl
  present some := by cases some
  named stored := by cases stored

namespace Represents

variable {C : Codec} {m : Octets → Option Octets} {records : String → Option Record}
  (represents : Represents C m records)
include represents

theorem isSome_iff (rule : String) : (m rule).isSome = true ↔ (records rule).isSome = true := by
  cases found : records rule with
  | none => simp [represents.absent found]
  | some r =>
    obtain ⟨data, r', stored, -, -⟩ := represents.present found
    simp [stored]

/-- Putting the bytes of a record puts the record. -/
theorem put {r r' : Record} {data : Octets} (decoded : C.decode data = .ok r') (alike : r'.Alike r) :
    Represents C (Function.update m r.rule (some data)) (Shelf.put records r) where
  absent {rule} none := by
    by_cases same : rule = r.rule
    · rw [Shelf.put, same, Function.update_self] at none
      cases none
    · rw [Shelf.put, Function.update_of_ne same] at none
      rw [Function.update_of_ne fun same' => same (Octets.ofString_injective same')]
      exact represents.absent none
  present {rule r₁} some := by
    by_cases same : rule = r.rule
    · rw [Shelf.put, same, Function.update_self] at some
      cases some
      exact ⟨data, r', by rw [same, Function.update_self], decoded, alike⟩
    · rw [Shelf.put, Function.update_of_ne same] at some
      rw [Function.update_of_ne fun same' => same (Octets.ofString_injective same')]
      exact represents.present some
  named {key data'} stored := by
    by_cases same : key = r.rule
    · exact ⟨r.rule, same⟩
    · rw [Function.update_of_ne same] at stored
      exact represents.named stored

end Represents

/-! ### One transaction -/

section Transaction

variable {E : Engine} {V : E.View} {path : String} {C : Codec} (engine : E.Lawful V path) (codec : C.Lawful)
  (p : Program) (now : Timestamp) {tx : E.Tx} {m : Octets → Option Octets} {records : String → Option Record}

theorem adaptExcept_of_ok {ε ε' σ α : Type} {x : EStateM ε σ α} {s s' : σ} {a : α} (f : ε → ε')
    (ran : x.run s = .ok a s') : (EStateM.adaptExcept f x).run s = .ok a s' := by
  rw [EStateM.run_adaptExcept, ran]

theorem adaptExcept_of_error {ε ε' σ α : Type} {x : EStateM ε σ α} {s s' : σ} {e : ε} (f : ε → ε')
    (ran : x.run s = .error e s') : (EStateM.adaptExcept f x).run s = .error (f e) s' := by
  rw [EStateM.run_adaptExcept, ran]

include engine in
/-- Bytes are put under the name of a rule, which is not empty then, or the engine refuses them. -/
theorem putData_cases (sees : V.sees tx = some m) (rule : String) (data : Octets) :
    (∃ tx', (E.putData rule data).run tx = .ok () tx' ∧ rule ≠ "" ∧
      V.sees tx' = some (Function.update m rule (some data))) ∨
      ∃ fault tx', (E.putData rule data).run tx = .error (.engine fault) tx' := by
  cases ran : (E.put rule data).run tx with
  | ok a tx' =>
    refine .inl ⟨tx', adaptExcept_of_ok StoreError.engine ran, ?_, engine.puts sees ran⟩
    rintro rfl
    have empty : Octets.ofString "" = ⟨[]⟩ := congrArg Octets.mk (Octets.bytes_ofString "")
    rw [empty] at ran
    exact engine.needsKey data tx tx' ran
  | error fault tx' => exact .inr ⟨fault, tx', adaptExcept_of_error StoreError.engine ran⟩

include codec in
/-- The bytes of a record are those of one alike, or its time is refused. -/
theorem encode_cases {σ : Type} (r : Record) (s : σ) :
    (∃ data r', (Engine.encode C r : EStateM StoreError σ Octets).run s = .ok data s ∧ r.encodeFault? = none ∧
      C.decode data = .ok r' ∧ r'.Alike r) ∨
      ∃ fault, r.encodeFault? = some fault ∧
        (Engine.encode C r : EStateM StoreError σ Octets).run s = .error (.encoding r.rule fault) s := by
  unfold Engine.encode
  cases bad : r.encodeFault? with
  | none =>
    obtain ⟨data, r', encoded, decoded, alike⟩ := codec.restores bad
    rw [encoded]
    exact .inl ⟨data, r', rfl, rfl, decoded, alike⟩
  | some fault =>
    rw [codec.refuses bad]
    exact .inr ⟨fault, rfl, rfl⟩

theorem bind_run_ok {ε σ α β : Type} {x : EStateM ε σ α} {f : α → EStateM ε σ β} {s s' : σ} {a : α}
    (ran : x.run s = .ok a s') : (x >>= f).run s = (f a).run s' := by
  rw [EStateM.run_bind, ran]

theorem bind_run_error {ε σ α β : Type} {x : EStateM ε σ α} {f : α → EStateM ε σ β} {s s' : σ} {e : ε}
    (ran : x.run s = .error e s') : (x >>= f).run s = .error e s' := by
  rw [EStateM.run_bind, ran]

include engine codec in
/-- A transaction in which the result of a rule is saved puts a record that tells it, or fails. -/
theorem saveRule_cases (sees : V.sees tx = some m) (represents : Represents C m records) (rule : RuleResult) :
    (∃ tx' m', (E.saveRule C (some now) p rule).run tx = .ok () tx' ∧ V.sees tx' = some m' ∧
      ∃ r, Shelf.Tells p now [rule] [r] ∧ Represents C m' (Shelf.put records r)) ∨
      ∃ e tx', (E.saveRule C (some now) p rule).run tx = .error e tx' ∧
        ((∃ fault, e = .engine fault) ∨ Shelf.Untold now [rule] e) := by
  have described := Record.describes_ofResult p rule
  set r : Record := { Record.ofResult p rule with saved := some now }
  have told : r.Describes p rule := ⟨described.rule, described.pattern, described.backward, described.seeds,
    described.aborted, described.errors, described.constants, described.findings⟩
  rcases encode_cases codec r tx with ⟨data, r', encoded, good, decoded, alike⟩ | ⟨fault, bad, failed⟩
  · have ran : (E.saveRule C (some now) p rule).run tx = (E.putData r.rule data).run tx := bind_run_ok encoded
    rcases putData_cases engine sees r.rule data with ⟨tx', put, named, sees'⟩ | ⟨fault, tx', failed⟩
    · have tells : Shelf.Tells p now [rule] [r] :=
        ⟨.cons ⟨told, rfl⟩ .nil, List.forall_mem_singleton.mpr named, fun _ => good⟩
      exact .inl ⟨tx', _, ran.trans put, sees', r, tells, represents.put decoded alike⟩
    · exact .inr ⟨_, tx', ran.trans failed, .inl ⟨fault, rfl⟩⟩
  · exact .inr ⟨_, tx, bind_run_error failed, .inr ⟨rule, List.mem_cons_self, fault, bad, rfl⟩⟩

include engine codec in
/-- A transaction in which all rules are saved puts records that tell their results, or fails at one. -/
theorem forM_saveRule_cases (sees : V.sees tx = some m) (represents : Represents C m records)
    (rules : List RuleResult) :
    (∃ tx' m', (rules.forM (E.saveRule C (some now) p)).run tx = .ok () tx' ∧ V.sees tx' = some m' ∧
      ∃ rs, Shelf.Tells p now rules rs ∧ Represents C m' (rs.foldl Shelf.put records)) ∨
      ∃ e tx', (rules.forM (E.saveRule C (some now) p)).run tx = .error e tx' ∧
        ((∃ fault, e = .engine fault) ∨ Shelf.Untold now rules e) := by
  induction rules generalizing tx m records with
  | nil => exact .inl ⟨tx, m, rfl, sees, [], ⟨.nil, by simp, by simp⟩, represents⟩
  | cons rule rest ih =>
    rcases saveRule_cases engine codec p now sees represents rule with
      ⟨tx₁, m₁, ran, sees₁, r, tells, represents₁⟩ | ⟨e, tx', failed, why⟩
    · have goesOn : ((rule :: rest).forM (E.saveRule C (some now) p)).run tx =
          (rest.forM (E.saveRule C (some now) p)).run tx₁ := bind_run_ok ran
      rcases ih sees₁ represents₁ with ⟨tx', m', ran', sees', rs, tells', represents'⟩ | ⟨e, tx', failed, why⟩
      · have all : Shelf.Tells p now (rule :: rest) (r :: rs) :=
          ⟨.cons (List.forall₂_cons.mp tells.told).1 tells'.told,
            List.forall_mem_cons.mpr ⟨tells.named rule List.mem_cons_self, tells'.named⟩,
            fun _ => tells.good (List.cons_ne_nil _ _)⟩
        exact .inl ⟨tx', m', goesOn.trans ran', sees', r :: rs, all, represents'⟩
      · refine .inr ⟨e, tx', goesOn.trans failed, why.imp_right ?_⟩
        rintro ⟨rule', later, bad⟩
        exact ⟨rule', List.mem_cons_of_mem _ later, bad⟩
    · refine .inr ⟨e, tx', bind_run_error failed, why.imp_right ?_⟩
      rintro ⟨rule', here, bad⟩
      exact ⟨rule', List.mem_cons.mpr (.inl (List.mem_singleton.mp here)), bad⟩

end Transaction

/-! ### A store that stands for a shelf -/

/-- The file is open if the shelf is, with a bucket, and its values stand for the records. -/
structure Stands {E : Engine} (V : E.View) (C : Codec) (w : E.World) (s : Shelf) : Prop where
  isOpen (open' : s.isOpen = true) : V.isOpen w ∧ ∃ m, V.holds w = some m
  isClosed (closed : s.isOpen = false) : V.isClosed w
  represents : Represents C ((V.holds w).getD fun _ => none) s.records

/-- The record of a save has its time. -/
theorem stamped_stamped (now : Timestamp) (r : Record) : Shelf.Stamped now r (r.stamped (some now)) where
  same := rfl
  own t has nonzero := by simp [Record.stamped, has, Option.filter, nonzero]
  clock zero := by
    cases has : r.saved with
    | none => simp [Record.stamped, has]
    | some t => simp [Record.stamped, has, Option.filter, zero t has]

/-- Values that stand for records are those of an open store with the records. -/
theorem stands_of_holds {E : Engine} {V : E.View} {C : Codec} {w : E.World} {m : Octets → Option Octets} {s : Shelf}
    (isOpen : V.isOpen w) (open' : s.isOpen = true) (holds : V.holds w = some m) (represents : Represents C m s.records) :
    Stands V C w s :=
  ⟨fun _ => ⟨isOpen, m, holds⟩, fun closed => by simp [open'] at closed, by simpa [holds] using represents⟩

namespace Stands

variable {E : Engine} {V : E.View} {path : String} {C : Codec} {w : E.World} {s : Shelf} {now : Timestamp}
  (stands : Stands V C w s) (engine : E.Lawful V path) (codec : C.Lawful)
include stands engine

/-- An update whose body leads from values to others, or fails, does so to the store; a failed one changes nothing. -/
theorem update_cases {body : EStateM StoreError E.Tx Unit} {P : (Octets → Option Octets) → Prop} {Q : StoreError → Prop}
    (runs : ∀ tx m, V.sees tx = some m → Represents C m s.records →
      (∃ tx' m', body.run tx = .ok () tx' ∧ V.sees tx' = some m' ∧ P m') ∨
        ∃ e tx', body.run tx = .error e tx' ∧ ((∃ fault, e = .engine fault) ∨ Q e)) :
    (∃ w' m', (E.update body).run w = .ok () w' ∧ s.isOpen = true ∧ V.isOpen w' ∧ V.holds w' = some m' ∧ P m') ∨
      ∃ e w', (E.update body).run w = .error e w' ∧ ((∃ fault, e = .engine fault) ∨ Q e) ∧ Stands V C w' s := by
  cases open' : s.isOpen with
  | false => exact .inr ⟨_, w, engine.refuses (stands.isClosed open') body, .inl ⟨_, rfl⟩, stands⟩
  | true =>
    obtain ⟨isOpen, m, holds⟩ := stands.isOpen open'
    have represents : Represents C m s.records := by simpa [holds] using stands.represents
    have kept {w' : E.World} (isOpen' : V.isOpen w') (same : V.holds w' = V.holds w) : Stands V C w' s :=
      ⟨fun _ => ⟨isOpen', m, same.trans holds⟩, fun closed => by simp [open'] at closed, same ▸ stands.represents⟩
    have ends := engine.updates isOpen body
    generalize (E.update body).run w = result at ends
    cases ends with
    | @committed w' tx tx' started done isOpen' changed =>
      rcases runs tx m (started.trans holds) represents with ⟨tx₁, m', ran, sees', holds'⟩ | ⟨e, tx₁, failed, -⟩
      · obtain ⟨⟩ : EStateM.Result.ok () tx' = EStateM.Result.ok () tx₁ := done.symm.trans ran
        exact .inl ⟨w', m', rfl, rfl, isOpen', changed.trans sees', holds'⟩
      · cases done.symm.trans failed
    | @rolledBack w' tx tx' e started failed isOpen' same =>
      rcases runs tx m (started.trans holds) represents with ⟨tx₁, m', ran, -⟩ | ⟨e₁, tx₁, failed', why⟩
      · cases failed.symm.trans ran
      · obtain ⟨⟩ : EStateM.Result.error e tx' = EStateM.Result.error e₁ tx₁ := failed.symm.trans failed'
        exact .inr ⟨e, w', rfl, why, kept isOpen' same⟩
    | @refused w' fault isOpen' same => exact .inr ⟨_, w', rfl, .inl ⟨fault, rfl⟩, kept isOpen' same⟩

include codec

theorem save (r : Record) : ∃ s', s.Step (.save r now) (E.perform C path w (.save r now)).1 s' ∧
    Stands V C (E.perform C path w (.save r now)).2 s' := by
  have stamped := stamped_stamped now r
  rcases encode_cases codec (r.stamped (some now)) w with ⟨data, r', encoded, good, decoded, alike⟩ | ⟨fault, bad, failed⟩
  · have ran : (E.save C (some now) r).run w = (E.update (E.putData r.rule data)).run w := bind_run_ok encoded
    have runs (tx : E.Tx) (m : Octets → Option Octets) (sees : V.sees tx = some m)
        (represents : Represents C m s.records) :
        (∃ tx' m', (E.putData r.rule data).run tx = .ok () tx' ∧ V.sees tx' = some m' ∧
          r.rule ≠ "" ∧ Represents C m' (Shelf.put s.records (r.stamped (some now)))) ∨
          ∃ e tx', (E.putData r.rule data).run tx = .error e tx' ∧ ((∃ fault, e = .engine fault) ∨ False) := by
      rcases putData_cases engine sees r.rule data with ⟨tx', put, named, sees'⟩ | ⟨fault, tx', failed⟩
      · exact .inl ⟨tx', _, put, sees', named, represents.put decoded alike⟩
      · exact .inr ⟨_, tx', failed, .inl ⟨fault, rfl⟩⟩
    rcases stands.update_cases engine runs with
      ⟨w', m, done, isOpen, isOpen', holds, named, represents⟩ | ⟨e, w', failed, why, same⟩
    · rw [Engine.perform, ran, done]
      exact ⟨_, .saved isOpen stamped named good, stands_of_holds isOpen' isOpen holds represents⟩
    · rw [Engine.perform, ran, failed]
      exact ⟨s, .notSaved (.inl (why.resolve_right id)), same⟩
  · have ran : (E.save C (some now) r).run w = .error (.encoding r.rule fault) w := bind_run_error failed
    rw [Engine.perform, ran]
    exact ⟨s, .notSaved (.inr ⟨_, fault, stamped, bad, rfl⟩), stands⟩

theorem saveResult (result : Result) : ∃ s', s.Step (.saveResult result now)
    (E.perform C path w (.saveResult result now)).1 s' ∧
      Stands V C (E.perform C path w (.saveResult result now)).2 s' := by
  have runs (tx : E.Tx) (m : Octets → Option Octets) (sees : V.sees tx = some m)
      (represents : Represents C m s.records) :=
    forM_saveRule_cases engine codec result.program now sees represents result.rules
  rcases stands.update_cases engine runs with
    ⟨w', m, done, isOpen, isOpen', holds, rs, tells, represents⟩ | ⟨e, w', failed, why, same⟩
  · rw [Engine.perform, Engine.saveResult, done]
    exact ⟨_, .savedAll isOpen tells, stands_of_holds isOpen' isOpen holds represents⟩
  · rw [Engine.perform, Engine.saveResult, failed]
    exact ⟨s, .savedNone why, same⟩

omit codec

theorem load (rule : String) : s.Step (.load rule) (answerTo .record (E.load C rule w)) s := by
  cases open' : s.isOpen with
  | false =>
    have hidden : E.load C rule w = .error (.engine .notOpen) := by
      rw [Engine.load, engine.hides (stands.isClosed open')]
      rfl
    rw [hidden]
    exact .notLoaded open'
  | true =>
    obtain ⟨isOpen, m, holds⟩ := stands.isOpen open'
    obtain ⟨tx, viewed, sees⟩ := engine.views isOpen
    have gets := engine.gets (sees.trans holds) rule
    have represents : Represents C m s.records := by simpa [holds] using stands.represents
    cases found : s.records rule with
    | none =>
      have missing : E.load C rule w = .error (.notFound rule) := by
        simp [Engine.load, viewed, Except.mapError, bind, Except.bind, gets, represents.absent found]
      rw [missing]
      exact .missing open' found
    | some r =>
      obtain ⟨data, r', stored, decoded, alike⟩ := represents.present found
      have loaded : E.load C rule w = .ok r' := by
        simp [Engine.load, viewed, Except.mapError, bind, Except.bind, gets, stored, decoded]
      rw [loaded]
      exact .loaded open' found alike

theorem rules : s.Step .rules (answerTo .rules (E.rules w)) s := by
  cases open' : s.isOpen with
  | false =>
    have hidden : E.rules w = .error (.engine .notOpen) := by
      rw [Engine.rules, engine.hides (stands.isClosed open')]
      rfl
    rw [hidden]
    exact .notListed open'
  | true =>
    obtain ⟨isOpen, m, holds⟩ := stands.isOpen open'
    obtain ⟨tx, viewed, sees⟩ := engine.views isOpen
    obtain ⟨ordered, exact'⟩ := engine.lists (sees.trans holds)
    have represents : Represents C m s.records := by simpa [holds] using stands.represents
    have listed : E.rules w = .ok ((E.keys tx).map Octets.toText) := by
      simp [Engine.rules, viewed, Except.mapError, bind, Except.bind, pure, Except.pure]
    rw [listed]
    -- every key is the form of a name, so that the names stand as the keys do
    have names : ∀ key ∈ E.keys tx, ∃ rule : String, key = rule := fun key inside => by
      obtain ⟨data, stored⟩ := Option.isSome_iff_exists.mp ((exact' key).mp inside)
      exact represents.named stored
    refine .listed open' (List.pairwise_map.mpr (ordered.imp_of_mem fun inside inside' less => ?_)) fun rule => ?_
    · obtain ⟨rule, rfl⟩ := names _ inside
      obtain ⟨rule', rfl⟩ := names _ inside'
      simpa [Octets.toText_ofString, utf8_eq_flatMap, Octets.bytes_ofString] using less
    · rw [← represents.isSome_iff, ← exact', List.mem_map]
      constructor
      · rintro ⟨key, inside, rfl⟩
        obtain ⟨rule, rfl⟩ := names _ inside
        rwa [Octets.toText_ofString]
      · exact fun inside => ⟨_, inside, Octets.toText_ofString rule⟩

omit stands engine in
/-- Opening a file that the engine opens makes the bucket; if that fails the file is closed again. -/
theorem run_openAt {w' : E.World} {a : Unit} (opened : (E.openFile path).run w = .ok a w') :
    (∀ w'', (E.update (EStateM.adaptExcept .engine E.createBucket)).run w' = .ok () w'' →
      (E.openAt path).run w = .ok () w'') ∧
      ∀ e w'', (E.update (EStateM.adaptExcept .engine E.createBucket)).run w' = .error e w'' →
        (E.openAt path).run w = .error (.initializing path e) (E.close w'') := by
  have goesOn : (E.openAt path).run w = _ := bind_run_ok (adaptExcept_of_ok (StoreError.opening path) opened)
  constructor
  · intro w'' done
    change E.update _ w' = _ at done
    rw [goesOn]
    simp [tryCatch, tryCatchThe, MonadExceptOf.tryCatch, EStateM.tryCatch, EStateM.run, done]
  · intro e w'' failed
    change E.update _ w' = _ at failed
    rw [goesOn]
    simp [tryCatch, tryCatchThe, MonadExceptOf.tryCatch, EStateM.tryCatch, EStateM.run, failed]
    rfl

theorem reopen : ∃ s', s.Step .reopen (E.perform C path w .reopen).1 s' ∧
    Stands V C (E.perform C path w .reopen).2 s' := by
  obtain ⟨isClosed, held⟩ := engine.closes w
  have represents : Represents C ((V.holds (E.close w)).getD fun _ => none) s.records := held ▸ stands.represents
  have opening := engine.opens isClosed
  cases ran : (E.openFile path).run (E.close w) with
  | error fault w' =>
    rw [ran] at opening
    cases opening with
    | refused isClosed' same =>
      have failed : (E.openAt path).run (E.close w) = .error (.opening path fault) w' :=
        bind_run_error (adaptExcept_of_error _ ran)
      rw [Engine.perform, failed]
      exact ⟨_, .notReopened, fun open' => (by cases open'), fun _ => isClosed', same ▸ represents⟩
  | ok a w' =>
    rw [ran] at opening
    obtain ⟨made, unmade⟩ := run_openAt ran
    cases opening with
    | opened isOpen same =>
      have ends := engine.updates isOpen (EStateM.adaptExcept .engine E.createBucket)
      generalize (E.update (EStateM.adaptExcept .engine E.createBucket)).run w' = result at ends made unmade
      have closedAgain {w'' : E.World} (same' : V.holds w'' = V.holds w') :
          Stands V C (E.close w'') { s with isOpen := false } := by
        obtain ⟨isClosed'', held''⟩ := engine.closes w''
        exact ⟨fun open' => (by cases open'), fun _ => isClosed'', (held''.trans (same'.trans same)) ▸ represents⟩
      cases ends with
      | @committed w'' tx tx' started done isOpen'' changed =>
        have holds : V.holds w'' = some ((V.holds w').getD fun _ => none) := by
          cases bucket : E.createBucket.run tx with
          | ok a tx₁ =>
            obtain ⟨⟩ : EStateM.Result.ok () tx₁ = EStateM.Result.ok () tx' :=
              (adaptExcept_of_ok StoreError.engine bucket).symm.trans done
            rw [changed, engine.creates bucket, started]
          | error fault tx₁ => cases (adaptExcept_of_error StoreError.engine bucket).symm.trans done
        rw [same] at holds
        rw [Engine.perform, made w'' rfl]
        exact ⟨_, .reopened, stands_of_holds isOpen'' rfl holds represents⟩
      | rolledBack started failed isOpen'' same' =>
        rw [Engine.perform, unmade _ _ rfl]
        exact ⟨_, .notReopened, closedAgain same'⟩
      | refused isOpen'' same' =>
        rw [Engine.perform, unmade _ _ rfl]
        exact ⟨_, .notReopened, closedAgain same'⟩

include codec in
/-- A request is answered as the map answers it, and the store stands for what the map is then. -/
theorem perform (q : Request) : ∃ s', s.Step q (E.perform C path w q).1 s' ∧ Stands V C (E.perform C path w q).2 s' := by
  cases q with
  | save r now => exact stands.save engine codec r
  | saveResult result now => exact stands.saveResult engine codec result
  | load rule => exact ⟨s, stands.load engine rule, stands⟩
  | rules => exact ⟨s, stands.rules engine, stands⟩
  | close =>
    obtain ⟨isClosed, held⟩ := engine.closes w
    exact ⟨_, .closed, fun open' => (by cases open'), fun _ => isClosed, held ▸ stands.represents⟩
  | reopen => exact stands.reopen engine

include codec in
theorem history (requests : List Request) :
    ∃ s', s.Steps (E.history C path w requests) s' := by
  induction requests generalizing w s with
  | nil => exact ⟨s, .nil s⟩
  | cons q rest ih =>
    obtain ⟨s₁, step, stands₁⟩ := stands.perform engine codec q
    obtain ⟨s', steps⟩ := ih stands₁
    exact ⟨s', .cons step steps⟩

end Stands

theorem Engine.history_requests (E : Engine) (C : Codec) (path : String) (w : E.World) (requests : List Request) :
    (E.history C path w requests).map Prod.fst = requests := by
  induction requests generalizing w with
  | nil => rfl
  | cons q rest ih => rw [history, List.map_cons, ih]

/-- A point in time at which a store is asked to save. -/
def noon : Timestamp := ⟨2021, 6, 1, 12, 0, 0, 0, 0, by decide, by decide⟩

/-- A result with a rule that has no name. -/
def unnamedResult : Result :=
  let criterion : Slice.Criterion := ⟨"Lcom/a/B;->m()V param 0", [], {}, []⟩
  ⟨(Index.ofProgram {} []).index, [⟨"static-salt", true, criterion, []⟩, ⟨"", true, criterion, []⟩], {}⟩

/-- A record with an empty list of constants. -/
def staticIv : Record := { rule := "static-iv", seeds := 2, constants := some [] }

/-- A save that succeeds, one of two rules that fails on the second, and the file opened again. -/
def reopening : List Request :=
  [.reopen, .save staticIv noon, .saveResult unnamedResult noon, .reopen, .load "static-iv", .load "static-salt", .rules]

end SmaliTrace.Store
