import SmaliTrace.Yaml.Node
import SmaliTrace.Yaml.Value

/-!
Decoding the nodes of a YAML document into values of given types. Keys come once, and a node that
stands for nothing gives an empty value. Documents that consist almost only of repeated aliases are
refused.
-/
namespace SmaliTrace.Yaml

/-- The number of nodes that were decoded, of those among them that were reached through an alias, and
of the aliases around the next node. -/
structure Visits where
  nodes : Nat := 1
  aliased : Nat := 0
  depth : Nat := 0
deriving DecidableEq, Repr, Inhabited

/-- Too many nodes were reached through aliases: ninety-nine of a hundred in documents up to 400000
nodes, one of ten from ten times as many on, and a number that falls evenly in between. -/
def Visits.isExcessive (v : Visits) : Bool :=
  100 < v.aliased && 1000 < v.nodes &&
    if v.nodes ≤ 400000 then 99 * v.nodes < 100 * v.aliased
    else if 4000000 ≤ v.nodes then v.nodes < 10 * v.aliased
    else v.nodes * (99 * 3600000 - 89 * (v.nodes - 400000)) < 100 * 3600000 * v.aliased

/-- Decodes nodes, or fails. -/
abbrev Decoder := StateT Visits Option

namespace Decoder

/-- Counts a node that is decoded. -/
def visit : Decoder Unit := do
  let v ← get
  let v := { v with nodes := v.nodes + 1, aliased := if 0 < v.depth then v.aliased + 1 else v.aliased }
  set v
  if v.isExcessive then failure else pure ()

/-- Decodes a node, or the one that it is an alias of. -/
def following {α : Type} (read : Node → Decoder α) : Node → Decoder α
  | .reference target => do
    visit
    modify fun v => { v with depth := v.depth + 1 }
    let a ← following read target
    modify fun v => { v with depth := v.depth - 1 }
    pure a
  | .cycle => failure
  | n => do
    visit
    read n

/-- The value of a scalar. -/
def scalar (n : Node) : Decoder Value :=
  match n with
  | .scalar tag implicit text => StateT.lift (scalarValue? tag implicit text)
  | _ => failure

/-- Decodes a text; nothing is the empty text, and numbers stay as they are written. -/
def string : Node → Decoder String := following fun n =>
  match n with
  | .scalar tag implicit text => do
    match ← StateT.lift (scalarValue? tag implicit text) with
    | .null => pure ""
    | .text s => pure s
    | _ => pure text
  | _ => failure

/-- Decodes an integer. A number with a point or an exponent gives the integer next to it on the side of
zero. -/
def int : Node → Decoder Int := following fun n => do
  match ← scalar n with
  | .null => pure 0
  | .int i => if i < 9223372036854775808 then pure i else failure
  | .double d => StateT.lift (wordOfDouble? d)
  | _ => failure

/-- Decodes a truth value. -/
def bool : Node → Decoder Bool := following fun n => do
  match ← scalar n with
  | .null => pure false
  | .bool b => pure b
  | _ => failure

/-- Decodes a list. -/
def list {α : Type} (item : Node → Decoder α) : Node → Decoder (List α) := following fun n =>
  match n with
  | .sequence items => items.mapM item
  | n => do
    match ← scalar n with
    | .null => pure []
    | _ => failure

/-- The key that asks for the pairs of another mapping. -/
def isMergeKey : Node → Bool
  | .scalar tag implicit text => text = "<<" && (implicit || tag = standardTag "merge")
  | _ => false

/-- The node is a mapping, or an alias of one. -/
def isMappingOrAlias : Node → Bool
  | .mapping _ | .reference (.mapping _) | .cycle => true
  | _ => false

mutual

/-- Decodes the pairs of a mapping into `a`, in turn, by what `put` does for a key. Nothing gives
`zero`. -/
def record {α : Type} (put : String → Node → α → Decoder α) (zero a : α) (n : Node) : Decoder α :=
  match n with
  | .reference target => do
    visit
    modify fun v => { v with depth := v.depth + 1 }
    let a ← record put zero a target
    modify fun v => { v with depth := v.depth - 1 }
    pure a
  | .mapping pairs => do
    visit
    recordPairs put zero [] a pairs
  | n => do
    visit
    match ← scalar n with
    | .null => pure zero
    | _ => failure
termination_by (sizeOf n, 0)

/-- Decodes pairs, none of which has a key that came `before`. A merge key stands for the pairs of its
value. -/
def recordPairs {α : Type} (put : String → Node → α → Decoder α) (zero : α) (before : List String)
    (a : α) (pairs : List (Node × Node)) : Decoder α :=
  match pairs with
  | [] => pure a
  | (key, value) :: rest => do
    if isMergeKey key then
      recordPairs put zero before (← merge put zero a value) rest
    else
      let key ← string key
      if before.contains key then failure
      else recordPairs put zero (key :: before) (← put key value a) rest
termination_by (sizeOf pairs, 0)

/-- Decodes the pairs of a mapping, or of the mappings in a sequence, the last one first. -/
def merge {α : Type} (put : String → Node → α → Decoder α) (zero a : α) (n : Node) : Decoder α :=
  match n with
  | .sequence items => mergeAll put zero a items
  | n => if isMappingOrAlias n then record put zero a n else failure
termination_by (sizeOf n, 1)

/-- Decodes the pairs of mappings, the last one first. -/
def mergeAll {α : Type} (put : String → Node → α → Decoder α) (zero a : α) (items : List Node) :
    Decoder α :=
  match items with
  | [] => pure a
  | n :: rest => do
    let a ← mergeAll put zero a rest
    if isMappingOrAlias n then record put zero a n else failure
termination_by (sizeOf items, 0)

end

end Decoder

end SmaliTrace.Yaml
