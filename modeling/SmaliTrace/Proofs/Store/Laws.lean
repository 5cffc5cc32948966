import Mathlib.Data.List.Forall2
import Mathlib.Logic.Function.Basic
import SmaliTrace.Store.Engine

/-!
What a store relies on: what an engine does for the database in a file, and what a codec does for records.
-/
namespace SmaliTrace.Store
open SmaliTrace.Text

/-! ### Records that are alike -/

/-- The findings differ at most in whether an empty trace is there. -/
structure FindingRecord.Alike (f g : FindingRecord) : Prop where
  file : f.file = g.file
  line : f.line = g.line
  kind : f.kind = g.kind
  value : f.value = g.value
  trace : f.trace.getD [] = g.trace.getD []

/-- The records differ at most in whether an empty list is there. -/
structure Record.Alike (r s : Record) : Prop where
  rule : r.rule = s.rule
  pattern : r.pattern = s.pattern
  backward : r.backward = s.backward
  seeds : r.seeds = s.seeds
  aborted : r.aborted = s.aborted
  errors : r.errors = s.errors
  constants : r.constants.getD [] = s.constants.getD []
  findings : List.Forall₂ FindingRecord.Alike r.findings s.findings
  saved : r.saved = s.saved

theorem FindingRecord.Alike.refl (f : FindingRecord) : f.Alike f := ⟨rfl, rfl, rfl, rfl, rfl⟩

theorem Record.Alike.refl (r : Record) : r.Alike r :=
  ⟨rfl, rfl, rfl, rfl, rfl, rfl, rfl, List.forall₂_same.mpr fun f _ => .refl f, rfl⟩

/-! ### Engines -/

/-- What the bucket holds under every key; nothing if it has not been made. -/
abbrev Contents := Option (Octets → Option Octets)

namespace Engine

variable {E : Engine}

/-- What can be told of an engine: whether the database in the file is open or none is, what the bucket in the file
holds, and what a transaction sees of it. -/
structure View (E : Engine) where
  isOpen : E.World → Prop
  isClosed : E.World → Prop
  holds : E.World → Contents
  sees : E.Tx → Contents

namespace View

variable (V : E.View) (w : E.World)

/-- How opening the file can end. What it holds stays. -/
inductive Opening : EStateM.Result EngineFault E.World Unit → Prop
  | opened {w' : E.World} (isOpen : V.isOpen w') (same : V.holds w' = V.holds w) : Opening (.ok () w')
  | refused {fault : EngineFault} {w' : E.World} (isClosed : V.isClosed w') (same : V.holds w' = V.holds w) :
      Opening (.error fault w')

/-- How an update can end. Its body runs in a transaction that sees what the file holds; the file holds what the
transaction sees at its end, or what it held before if the body fails or the engine does. -/
inductive Update (body : EStateM StoreError E.Tx Unit) : EStateM.Result StoreError E.World Unit → Prop
  | committed {w' : E.World} {tx tx' : E.Tx} (started : V.sees tx = V.holds w) (done : body.run tx = .ok () tx')
      (isOpen : V.isOpen w') (changed : V.holds w' = V.sees tx') : Update body (.ok () w')
  | rolledBack {w' : E.World} {tx tx' : E.Tx} {e : StoreError} (started : V.sees tx = V.holds w)
      (failed : body.run tx = .error e tx') (isOpen : V.isOpen w') (same : V.holds w' = V.holds w) :
      Update body (.error e w')
  | refused {w' : E.World} {fault : EngineFault} (isOpen : V.isOpen w') (same : V.holds w' = V.holds w) :
      Update body (.error (.engine fault) w')

end View

/-- What is relied on of an engine for the database in the file at a path. -/
structure Lawful (V : E.View) (path : String) : Prop where
  closes (w : E.World) : V.isClosed (E.close w) ∧ V.holds (E.close w) = V.holds w
  opens {w : E.World} (isClosed : V.isClosed w) : V.Opening w ((E.openFile path).run w)
  updates {w : E.World} (isOpen : V.isOpen w) (body : EStateM StoreError E.Tx Unit) :
    V.Update w body ((E.update body).run w)
  refuses {w : E.World} (isClosed : V.isClosed w) (body : EStateM StoreError E.Tx Unit) :
    (E.update body).run w = .error (.engine .notOpen) w
  views {w : E.World} (isOpen : V.isOpen w) : ∃ tx, E.view w = .ok tx ∧ V.sees tx = V.holds w
  hides {w : E.World} (isClosed : V.isClosed w) : E.view w = .error .notOpen
  creates {tx tx' : E.Tx} (done : E.createBucket.run tx = .ok () tx') :
    V.sees tx' = some ((V.sees tx).getD fun _ => none)
  needsKey (value : Octets) (tx tx' : E.Tx) : (E.put ⟨[]⟩ value).run tx ≠ .ok () tx'
  puts {key value : Octets} {tx tx' : E.Tx} {m : Octets → Option Octets} (sees : V.sees tx = some m)
    (done : (E.put key value).run tx = .ok () tx') : V.sees tx' = some (Function.update m key (some value))
  gets {tx : E.Tx} {m : Octets → Option Octets} (sees : V.sees tx = some m) (key : Octets) : E.get tx key = m key
  lists {tx : E.Tx} {m : Octets → Option Octets} (sees : V.sees tx = some m) :
    ((E.keys tx).Pairwise fun a b => a.bytes < b.bytes) ∧ ∀ key, key ∈ E.keys tx ↔ (m key).isSome = true

end Engine

/-! ### Codecs -/

/-- Why a record cannot be encoded, if it cannot. -/
def Record.encodeFault? (r : Record) : Option EncodeFault := r.saved.bind EncodeFault.of?

/-- What is relied on of a codec: a record is refused exactly for its time, and else read back alike. -/
structure Codec.Lawful (C : Codec) : Prop where
  refuses {r : Record} {fault : EncodeFault} (bad : r.encodeFault? = some fault) : C.encode r = .error fault
  restores {r : Record} (good : r.encodeFault? = none) :
    ∃ data r', C.encode r = .ok data ∧ C.decode data = .ok r' ∧ r'.Alike r

end SmaliTrace.Store
