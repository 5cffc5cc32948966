import SmaliTrace.Regex.Fold
import SmaliTrace.Text.Interval

/-!
Regular expressions over texts, and where they match. A match is described by positions: an expression
leads from a position of the text to those where a match that starts there can end.
-/
namespace SmaliTrace.Regex

/-- Code points in a number of intervals, or all others. -/
structure CharItem where
  ranges : Text.Intervals
  negated : Bool := false
deriving DecidableEq, Repr, Inhabited

/-- A class of code points: those of its items, or all others. -/
structure CharSet where
  items : List CharItem
  negated : Bool := false
deriving DecidableEq, Repr, Inhabited

/-- The item holds the code point; with `fold`, a form of it in another case counts too. -/
def CharItem.contains (fold : Bool) (i : CharItem) (c : Nat) : Bool :=
  i.negated ≠ (if fold then (caseForms c).any i.ranges.contains else i.ranges.contains c)

/-- The class holds the code point. -/
def CharSet.contains (fold : Bool) (s : CharSet) (c : Nat) : Bool :=
  s.negated ≠ s.items.any fun i => i.contains fold c

/-- Conditions on a position that take up no text. -/
inductive Anchor where
  | textStart
  | textEnd
  | lineStart
  | lineEnd
  | boundary
  | noBoundary
deriving DecidableEq, Repr, Inhabited

end SmaliTrace.Regex

namespace SmaliTrace

/-- A regular expression. A literal stands for one code point, and a group keeps apart what its
brackets hold. -/
inductive Regex where
  | empty
  | any (newline : Bool)
  | literal (fold : Bool) (c : Nat)
  | chars (fold : Bool) (set : Regex.CharSet)
  | anchor (a : Regex.Anchor)
  | group (a : Regex)
  | seq (a b : Regex)
  | alt (a b : Regex)
  | rep (a : Regex) (min : Nat) (max : Option Nat)
deriving DecidableEq, Repr, Inhabited

end SmaliTrace

namespace SmaliTrace.Regex

/-- Letters, digits and the underscore. -/
def isWordCode (c : Nat) : Bool :=
  Text.Intervals.contains [(0x30, 0x39), (0x41, 0x5a), (0x5f, 0x5f), (0x61, 0x7a)] c

/-- The code point before a position. -/
def before? (text : Array Nat) (i : Nat) : Option Nat := if i = 0 then none else text[i - 1]?

/-- Exactly one side of the position is a word. -/
def atBoundary (text : Array Nat) (i : Nat) : Bool :=
  ((before? text i).map isWordCode).getD false ≠ ((text[i]?).map isWordCode).getD false

/-- The position meets the condition. -/
def Anchor.holds (text : Array Nat) (i : Nat) : Anchor → Bool
  | textStart => i = 0
  | textEnd => i = text.size
  | lineStart => i = 0 || before? text i = some 0x0a
  | lineEnd => i = text.size || text[i]? = some 0x0a
  | boundary => atBoundary text i
  | noBoundary => !atBoundary text i

/-- The union of two ascending lists. -/
def union : List Nat → List Nat → List Nat
  | [], bs => bs
  | as, [] => as
  | a :: as, b :: bs =>
    if a < b then a :: union as (b :: bs)
    else if b < a then b :: union (a :: as) bs
    else a :: union as bs

/-- The positions that one code point accepted by `ok` leads to. -/
def advance (text : Array Nat) (ok : Nat → Bool) (positions : List Nat) : List Nat :=
  positions.filterMap fun i =>
    match text[i]? with
    | some c => if ok c then some (i + 1) else none
    | none => none

/-- The positions reached by at most `bound` steps. -/
def spread (step : List Nat → List Nat) : (bound : Nat) → List Nat → List Nat
  | 0, positions => positions
  | bound + 1, positions =>
    let more := union positions (step positions)
    if more = positions then positions else spread step bound more

/-- The positions where matches that start at the given positions can end. Lists of positions are
ascending. -/
def reach (text : Array Nat) : Regex → List Nat → List Nat
  | empty, positions => positions
  | any newline, positions => advance text (fun c => newline || c ≠ 0x0a) positions
  | literal fold c, positions =>
    advance text (fun d => if fold then (caseForms c).contains d else c = d) positions
  | chars fold set, positions => advance text (set.contains fold) positions
  | anchor a, positions => positions.filter fun i => a.holds text i
  | group a, positions => reach text a positions
  | seq a b, positions => reach text b (reach text a positions)
  | alt a b, positions => union (reach text a positions) (reach text b positions)
  | rep a min max, positions =>
    let start := Nat.repeat (reach text a) min positions
    match max with
    | some max => spread (reach text a) (max - min) start
    | none => spread (reach text a) (text.size + 1) start

/-- The expression matches somewhere in the text. -/
def isIn (r : Regex) (text : String) : Bool :=
  let codes := (text.toList.map Char.toNat).toArray
  !(r.reach codes (List.range (codes.size + 1))).isEmpty

end SmaliTrace.Regex
