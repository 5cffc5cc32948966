import SmaliTrace.Log
import SmaliTrace.Number.Word

/-!
Counters of the analysis, and their listing.
-/
namespace SmaliTrace

/-- What is counted. -/
inductive Counter where
  | classes
  | methods
  | blocks
  | excludedMethods
  | unlinkedMethods
  | seeds
  | registerSearches
  | fieldSearches
  | arraySearches
  | returnSearches
  | rejectedFuzzy
  | constants
  | abortedSeeds
  | loggedErrors
deriving DecidableEq, Repr, Inhabited

namespace Counter

/-- All counters, in listing order. -/
def all : List Counter :=
  [classes, methods, blocks, excludedMethods, unlinkedMethods, seeds, registerSearches,
    fieldSearches, arraySearches, returnSearches, rejectedFuzzy, constants, abortedSeeds,
    loggedErrors]

/-- The name of a counter. -/
def name : Counter → String
  | classes => "Classes"
  | methods => "Methods"
  | blocks => "Basic blocks"
  | excludedMethods => "Excluded methods"
  | unlinkedMethods => "Methods with unlinked blocks"
  | seeds => "Slicing seeds"
  | registerSearches => "Register searches"
  | fieldSearches => "Field searches"
  | arraySearches => "Array searches"
  | returnSearches => "Return value searches"
  | rejectedFuzzy => "Rejected (fuzzy level)"
  | constants => "Constants"
  | abortedSeeds => "Aborted seeds"
  | loggedErrors => "Logged errors"

/-- The counter with the name. -/
def ofName? (name : String) : Option Counter := all.find? fun c => c.name = name

/-- The position of a counter in the listing. -/
def index : Counter → Fin 14
  | classes => 0
  | methods => 1
  | blocks => 2
  | excludedMethods => 3
  | unlinkedMethods => 4
  | seeds => 5
  | registerSearches => 6
  | fieldSearches => 7
  | arraySearches => 8
  | returnSearches => 9
  | rejectedFuzzy => 10
  | constants => 11
  | abortedSeeds => 12
  | loggedErrors => 13

theorem getElem?_all_index (c : Counter) : all[c.index.val]? = some c := by
  cases c <;> rfl

theorem index_inj {c d : Counter} : c.index = d.index ↔ c = d := by
  refine ⟨fun same => ?_, congrArg index⟩
  have listed := getElem?_all_index c
  rw [same, getElem?_all_index] at listed
  exact (Option.some.inj listed).symm

end Counter

/-- The values of all counters. -/
structure Tally where
  counts : Vector Int 14 := Vector.replicate 14 0
deriving DecidableEq, Repr, Inhabited

namespace Tally

/-- The value of a counter. -/
def get (t : Tally) (c : Counter) : Int := t.counts[c.index]

/-- Adds to a counter, in the arithmetic of 64-bit words. -/
def add (t : Tally) (c : Counter) (n : Int) : Tally :=
  ⟨t.counts.set c.index (Number.wrap (t.get c + n))⟩

@[simp] theorem get_empty (c : Counter) : ({} : Tally).get c = 0 := by
  simp [get]

theorem get_add (t : Tally) (c d : Counter) (n : Int) :
    (t.add c n).get d = if c = d then Number.wrap (t.get c + n) else t.get d := by
  unfold add get
  simp only [Fin.getElem_fin, Vector.getElem_set, Fin.val_inj, Counter.index_inj]

/-- Adds one to a counter. -/
def bump (t : Tally) (c : Counter) : Tally := t.add c 1

/-- The sum of two tallies, counter by counter. -/
def plus (t u : Tally) : Tally := 
  ⟨Vector.zipWith (fun m n => Number.wrap (m + n)) t.counts u.counts⟩

/-- Pads on the right to the width. -/
def padRight (width : Nat) (s : String) : String := s ++ String.ofList (List.replicate (width - s.length) ' ')

/-- Pads on the left to the width. -/
def padLeft (width : Nat) (s : String) : String := String.ofList (List.replicate (width - s.length) ' ') ++ s

/-- The listing of all counters. -/
def listing (t : Tally) : List LogEntry :=
  [⟨.info, "------ STATS ------"⟩] ++
    Counter.all.map (fun c =>
      ⟨.info, "  " ++ padRight 30 c.name ++ ":" ++ padLeft 10 (toString (t.get c))⟩) ++
    [⟨.info, "-------------------"⟩]

end Tally

/-- Counters that count only while collection is on. -/
structure Meter where
  collecting : Bool := false
  tally : Tally := {}
deriving DecidableEq, Repr, Inhabited

/-- Adds to a counter while collection is on. -/
def Meter.add (m : Meter) (c : Counter) (n : Int) : Meter :=
  if m.collecting then { m with tally := m.tally.add c n } else m

/-- Sets all counters to zero. -/
def Meter.reset (m : Meter) : Meter := { m with tally := {} }

end SmaliTrace
