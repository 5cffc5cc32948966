import SmaliTrace.Text.Cut
import SmaliTrace.Text.Digit

/-!
Sets of code points as intervals, and the short notation they are written in: `41-5a` is an interval
in hexadecimal digits, `aa` a single code point, and `100-12e/2` every second one from the first to
the last.
-/
namespace SmaliTrace.Text

/-- The largest code point. -/
def lastCodePoint : Nat := 0x10ffff

/-- A set of code points: intervals with both ends included. -/
abbrev Intervals := List (Nat × Nat)

namespace Intervals

/-- The code point lies in one of the intervals. -/
def contains (set : Intervals) (c : Nat) : Bool := set.any fun (low, high) => low ≤ c && c ≤ high

/-- Joins ascending intervals that overlap or touch; `low` and `high` are the ends of the open one. -/
def joinFrom (low high : Nat) : Intervals → Intervals
  | [] => [(low, high)]
  | (a, b) :: rest =>
    if a ≤ high + 1 then joinFrom low (max high b) rest else (low, high) :: joinFrom a b rest

/-- The same set with ascending intervals that do not touch. -/
def normalize (set : Intervals) : Intervals :=
  match set.mergeSort fun a b => a.1 ≤ b.1 with
  | [] => []
  | (low, high) :: rest => joinFrom low high rest

/-- The code points of any of the sets. -/
def union (sets : List Intervals) : Intervals := normalize sets.flatten

/-- The gaps between ascending intervals from `start` on. -/
def gapsFrom (start : Nat) : Intervals → Intervals
  | [] => if start ≤ lastCodePoint then [(start, lastCodePoint)] else []
  | (low, high) :: rest =>
    if start < low then (start, low - 1) :: gapsFrom (high + 1) rest else gapsFrom (high + 1) rest

/-- The code points outside of a normalized set. -/
def complement (set : Intervals) : Intervals := gapsFrom 0 set

end Intervals

/-- The number that hexadecimal digits denote. -/
def hexNumber (digits : List Char) : Nat := (digitsValue? hexValue? 16 digits).getD 0

/-- The code points that one word of the notation stands for. -/
def readInterval (word : List Char) : Intervals :=
  let low := word.takeWhile (· ≠ '-')
  match word.dropWhile (· ≠ '-') with
  | [] => [(hexNumber low, hexNumber low)]
  | _ :: rest =>
    let high := hexNumber (rest.takeWhile (· ≠ '/'))
    if rest.contains '/' then
      (List.range ((high - hexNumber low) / 2 + 1)).map fun i => (hexNumber low + 2 * i, hexNumber low + 2 * i)
    else [(hexNumber low, high)]

/-- The code points that lines of the notation stand for. -/
def readIntervals (lines : List String) : Intervals :=
  lines.flatMap fun line => (words line.toList).flatMap readInterval

end SmaliTrace.Text
