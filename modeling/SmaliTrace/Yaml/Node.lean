import SmaliTrace.Yaml.Event
import SmaliTrace.Yaml.Token.Lexer

/-!
Nodes of a YAML document: scalars, sequences and mappings. An alias holds the node that it stands for.
-/
namespace SmaliTrace.Yaml

/-- A node of a document. The text of an `implicit` scalar decides what it stands for, unless it has a
tag. `cycle` stands for an alias of a collection that it is in. -/
inductive Node where
  | scalar (tag : String) (implicit : Bool) (text : String)
  | sequence (items : List Node)
  | mapping (pairs : List (Node × Node))
  | reference (target : Node)
  | cycle
deriving Repr, Inhabited

/-- A collection that is not complete: its nodes so far, last first, and its number. -/
structure OpenNode where
  isMapping : Bool
  number : Nat
  nodes : List Node := []
deriving Repr, Inhabited

/-- Nodes in pairs. -/
def pairUp : List Node → List (Node × Node)
  | a :: b :: rest => (a, b) :: pairUp rest
  | _ => []

/-- The complete collection. -/
def OpenNode.close (o : OpenNode) : Node :=
  if o.isMapping then .mapping (pairUp o.nodes.reverse) else .sequence o.nodes.reverse

/-- What an anchor names: a node, or a collection that is not complete, by its number. -/
inductive Anchored where
  | complete (n : Node)
  | started (number : Nat)
deriving Repr, Inhabited

/-- A document under construction: the collections around the next node, the innermost first, the
anchors, the last first, and the root once it is complete. -/
structure Construction where
  root : Option Node := none
  around : List OpenNode := []
  anchors : List (String × Anchored) := []
  started : Nat := 0
deriving Repr, Inhabited

namespace Construction

/-- Names what is anchored. -/
def name (c : Construction) (anchor : Option String) (a : Anchored) : Construction :=
  match anchor with
  | some name => { c with anchors := (name, a) :: c.anchors }
  | none => c

/-- Adds a complete node. -/
def add (c : Construction) (n : Node) : Construction :=
  match c.around with
  | [] => { c with root := some n }
  | o :: around => { c with around := { o with nodes := n :: o.nodes } :: around }

/-- Starts a collection. -/
def start (c : Construction) (isMapping : Bool) (anchor : Option String) : Construction :=
  let c := c.name anchor (.started c.started)
  { c with around := { isMapping := isMapping, number := c.started } :: c.around,
           started := c.started + 1 }

/-- Completes the innermost collection, and the anchors that name it. -/
def finish (c : Construction) : Construction :=
  match c.around with
  | [] => c
  | o :: around =>
    let complete (a : Anchored) : Anchored :=
      match a with
      | .started number => if number = o.number then .complete o.close else a
      | a => a
    { c with around := around, anchors := c.anchors.map fun (name, a) => (name, complete a) }.add
      o.close

/-- Takes an event. An alias has to follow its anchor. -/
def take? (c : Construction) : Event → Option Construction
  | .scalar anchor tag implicit text =>
    let n := Node.scalar tag implicit text
    some ((c.name anchor (.complete n)).add n)
  | .reference name =>
    match c.anchors.lookup name with
    | none => none
    | some (.complete n) => some (c.add (.reference n))
    | some (.started _) => some (c.add .cycle)
  | .sequenceStart anchor => some (c.start false anchor)
  | .mappingStart anchor => some (c.start true anchor)
  | .sequenceEnd | .mappingEnd => some c.finish

end Construction

/-- The node of the events of a document. -/
def Node.ofEvents? (events : List Event) : Option Node := do
  (← events.foldlM Construction.take? {}).root

/-- Reads the first document of a text; a text without one has none. -/
def parse (text : String) : Option (Option Node) := do
  match ← events (tokens (Source.ofString text)) with
  | none => some none
  | some events => some <$> Node.ofEvents? events

end SmaliTrace.Yaml
