import SmaliTrace.Regex.Basic

/-!
Limits on regular expressions: how deep they nest and how large they become when repetitions are
written out. Neighbouring literals count as one part, and so do neighbouring alternatives that are
single code points.
-/
namespace SmaliTrace.Regex

/-- What the height of an expression depends on: whether it is a text, and with which treatment of
case; whether it is a choice of single code points; and its height alone, among the parts of a
sequence and among alternatives. A sequence in a sequence and a choice in a choice add nothing. -/
structure Shape where
  text : Option Bool := none
  single : Bool := false
  height : Nat := 1
  partHeight : Nat := 1
  choiceHeight : Nat := 1
deriving DecidableEq, Repr, Inhabited

namespace Shape

/-- The shape of an expression around another one. -/
def around (s : Shape) : Shape := ⟨none, false, s.height + 1, s.height + 1, s.height + 1⟩

/-- The shape of a sequence. -/
def append (a b : Shape) : Shape :=
  if a.text.isSome && a.text = b.text then { text := a.text }
  else
    let part := max a.partHeight b.partHeight
    ⟨none, false, part + 1, part, part + 1⟩

/-- The shape of a choice. -/
def choose (a b : Shape) : Shape :=
  if a.single && b.single then { single := true }
  else
    let choice := max a.choiceHeight b.choiceHeight
    ⟨none, false, choice + 1, choice + 1, choice⟩

end Shape

/-- The shape of an expression. -/
def shape : Regex → Shape
  | literal fold _ => { text := some fold, single := true }
  | chars _ _ | any _ => { single := true }
  | group a | rep a _ _ => (shape a).around
  | seq a b => (shape a).append (shape b)
  | alt a b => (shape a).choose (shape b)
  | empty | anchor _ => {}

/-- The number of steps that the expression takes when its repetitions are written out. -/
def size : Regex → Nat
  | group a => size a + 2
  | seq a b => size a + size b
  | alt a b => size a + size b + 1
  | rep a min max =>
    match min, max with
    | 0, none => size a + 2
    | min, none => min * size a + 1
    | min, some max => Nat.max 1 (max * size a + (max - min))
  | _ => 1

/-- The number of parts as written, and the product of the counts of its repetitions. -/
def extent : Regex → Nat × Nat
  | group a => let (n, times) := extent a; (n + 1, times)
  | rep a min max => let (n, times) := extent a; (n + 1, times * Nat.max 1 (max.getD min))
  | seq a b | alt a b =>
    let (n, times) := extent a
    let (m, more) := extent b
    (n + m, times * more)
  | _ => (1, 1)

/-- The number of interval ends that the classes of an expression list. -/
def bounds : Regex → Nat
  | chars _ set => 2 * (set.items.map fun i => i.ranges.length).foldl (· + ·) 0
  | group a | rep a _ _ => bounds a
  | seq a b | alt a b => bounds a + bounds b
  | _ => 1

/-- The greatest height. -/
def maxHeight : Nat := 1000

/-- The greatest size. -/
def maxSize : Nat := 3355443

/-- The greatest number of interval ends. -/
def maxBounds : Nat := 33554432

/-- The expression nests deeper than is allowed. -/
def isTooDeep (r : Regex) : Bool := maxHeight < r.shape.height

/-- The expression is larger than is allowed. The size of an expression with few parts and small
counts is not looked at. -/
def isTooLarge (r : Regex) : Bool :=
  let (parts, times) := r.extent
  maxBounds < r.bounds || (maxSize ≤ parts * times && maxSize < r.size)

end SmaliTrace.Regex
