import SmaliTrace.Yaml.Source

/-!
Events of a YAML document: its nodes in the order of the text, with the starts and ends of
collections. Only the first document of a text is read.
-/
namespace SmaliTrace.Yaml

/-- An event. A scalar is `implicit` if its text decides what it stands for. -/
inductive Event where
  | scalar (anchor : Option String) (tag : String) (implicit : Bool) (text : String)
  | reference (name : String)
  | sequenceStart (anchor : Option String)
  | sequenceEnd
  | mappingStart (anchor : Option String)
  | mappingEnd
deriving DecidableEq, Repr, Inhabited

/-- What stands where a node is missing. -/
def Event.empty : Event := .scalar none "" true ""

/-- What is to be read next. Collections have one goal for their next entry, or key, and a pair between
the brackets of a flow sequence has goals of its own. -/
inductive Goal where
  | content
  | node (block indentless : Bool)
  | blockSequence
  | indentlessSequence
  | blockKey
  | blockValue
  | flowSequence (first : Bool)
  | flowPairKey
  | flowPairValue
  | flowPairEnd
  | flowKey (first : Bool)
  | flowValue
  | flowNoValue
deriving DecidableEq, Repr, Inhabited

/-- What a step gives: events, goals that come before the others, and the tokens that are left. -/
structure Step where
  events : List Event := []
  goals : List Goal := []
  tokens : List Token

/-- The next token; there is none where the text is broken, and nothing comes behind its end. -/
def peek? (ts : List Token) : Option Token :=
  match ts with
  | .broken :: _ => none
  | t :: _ => some t
  | [] => some .streamEnd

/-- The anchor and the tag before a node. -/
def properties : List Token → Option String × Option (String × String) × List Token
  | .anchor a :: .tag h t :: rest => (some a, some (h, t), rest)
  | .anchor a :: rest => (some a, none, rest)
  | .tag h t :: .anchor a :: rest => (some a, some (h, t), rest)
  | .tag h t :: rest => (none, some (h, t), rest)
  | ts => (none, none, ts)

/-- The tag that a handle and a suffix stand for, by the meanings of the handles. -/
def expandTag? (handles : List (String × String)) : Option (String × String) → Option String
  | none => some ""
  | some (handle, suffix) =>
    if handle = "" then some suffix else (handles.lookup handle).map (· ++ suffix)

/-- Reads a node, or the start of a collection. A block sequence that is not indented against the
mapping around it has no start of its own. -/
def nodeStep (handles : List (String × String)) (block indentless : Bool) (ts : List Token) :
    Option Step := do
  let (anchor, property, ts) := properties ts
  let token ← peek? ts
  let tag ← expandTag? handles property
  let rest := ts.drop 1
  match token with
  | .reference name =>
    if anchor.isNone && tag = "" then some { events := [.reference name], tokens := rest }
    else missing anchor tag ts
  | .blockEntry =>
    if indentless then
      some { events := [.sequenceStart anchor], goals := [.indentlessSequence], tokens := ts }
    else missing anchor tag ts
  | .scalar plain text =>
    some { events := [.scalar anchor tag ((plain && tag = "") || tag = "!") text], tokens := rest }
  | .flowSequenceStart =>
    some { events := [.sequenceStart anchor], goals := [.flowSequence true], tokens := rest }
  | .flowMappingStart =>
    some { events := [.mappingStart anchor], goals := [.flowKey true], tokens := rest }
  | .blockSequenceStart =>
    if block then
      some { events := [.sequenceStart anchor], goals := [.blockSequence], tokens := rest }
    else missing anchor tag ts
  | .blockMappingStart =>
    if block then some { events := [.mappingStart anchor], goals := [.blockKey], tokens := rest }
    else missing anchor tag ts
  | _ => missing anchor tag ts
where
  /-- An anchor or a tag can stand before a node that is missing. -/
  missing (anchor : Option String) (tag : String) (ts : List Token) : Option Step :=
    if anchor.isSome || tag ≠ "" then
      some { events := [.scalar anchor tag (tag = "") ""], tokens := ts }
    else none

/-- Reads a node before `next`, unless one of the tokens says that it is missing. -/
def nodeUnless (absent : List Token) (goal next : Goal) (ts : List Token) : Option Step := do
  if absent.contains (← peek? ts) then
    some { events := [.empty], goals := [next], tokens := ts }
  else some { goals := [goal, next], tokens := ts }

/-- Reads what a goal asks for. -/
def Goal.step (handles : List (String × String)) (g : Goal) (ts : List Token) : Option Step := do
  let token ← peek? ts
  let rest := ts.drop 1
  match g with
  | .content =>
    match token with
    | .version _ _ | .tagHandle _ _ | .documentStart | .documentEnd | .streamEnd =>
      some { events := [.empty], tokens := ts }
    | _ => some { goals := [.node true false], tokens := ts }
  | .node block indentless => nodeStep handles block indentless ts
  | .blockSequence =>
    match token with
    | .blockEntry => nodeUnless [.blockEntry, .blockEnd] (.node true false) .blockSequence rest
    | .blockEnd => some { events := [.sequenceEnd], tokens := rest }
    | _ => none
  | .indentlessSequence =>
    match token with
    | .blockEntry =>
      nodeUnless [.blockEntry, .key, .value, .blockEnd] (.node true false) .indentlessSequence rest
    | _ => some { events := [.sequenceEnd], tokens := ts }
  | .blockKey =>
    match token with
    | .key => nodeUnless [.key, .value, .blockEnd] (.node true true) .blockValue rest
    | .blockEnd => some { events := [.mappingEnd], tokens := rest }
    | _ => none
  | .blockValue =>
    match token with
    | .value => nodeUnless [.key, .value, .blockEnd] (.node true true) .blockKey rest
    | _ => some { events := [.empty], goals := [.blockKey], tokens := ts }
  | .flowSequence first =>
    if token = .flowSequenceEnd then some { events := [.sequenceEnd], tokens := rest }
    else if !first && token ≠ .flowEntry then none
    else
      let ts := if first then ts else rest
      match ← peek? ts with
      | .key =>
        some { events := [.mappingStart none], goals := [.flowPairKey, .flowSequence false],
               tokens := ts.drop 1 }
      | .flowSequenceEnd => some { events := [.sequenceEnd], tokens := ts.drop 1 }
      | _ => some { goals := [.node false false, .flowSequence false], tokens := ts }
  | .flowPairKey =>
    match token with
    | .value | .flowEntry | .flowSequenceEnd =>
      some { events := [.empty], goals := [.flowPairValue], tokens := rest }
    | _ => some { goals := [.node false false, .flowPairValue], tokens := ts }
  | .flowPairValue =>
    match token with
    | .value => nodeUnless [.flowEntry, .flowSequenceEnd] (.node false false) .flowPairEnd rest
    | _ => some { events := [.empty], goals := [.flowPairEnd], tokens := ts }
  | .flowPairEnd => some { events := [.mappingEnd], tokens := ts }
  | .flowKey first =>
    if token = .flowMappingEnd then some { events := [.mappingEnd], tokens := rest }
    else if !first && token ≠ .flowEntry then none
    else
      let ts := if first then ts else rest
      match ← peek? ts with
      | .key =>
        nodeUnless [.value, .flowEntry, .flowMappingEnd] (.node false false) .flowValue (ts.drop 1)
      | .flowMappingEnd => some { events := [.mappingEnd], tokens := ts.drop 1 }
      | _ => some { goals := [.node false false, .flowNoValue], tokens := ts }
  | .flowValue =>
    match token with
    | .value => nodeUnless [.flowEntry, .flowMappingEnd] (.node false false) (.flowKey false) rest
    | _ => some { events := [.empty], goals := [.flowKey false], tokens := ts }
  | .flowNoValue => some { events := [.empty], goals := [.flowKey false], tokens := ts }

/-- Reads what all goals ask for, and looks at the token behind it. The fuel bounds the number of
steps. -/
def eventsFrom (handles : List (String × String)) :
    (fuel : Nat) → List Goal → List Token → Option (List Event)
  | 0, _, _ => none
  | _, [], ts => (peek? ts).map fun _ => []
  | fuel + 1, g :: goals, ts => do
    let step ← g.step handles ts
    let events ← eventsFrom handles fuel (step.goals ++ goals) step.tokens
    some (step.events ++ events)

/-- Reads the directives before a document: the version, which is told at most once, and the meanings
of handles, which differ. -/
def directives (versioned : Bool) (handles : List (String × String)) :
    List Token → Option (List (String × String) × List Token)
  | .version major minor :: rest =>
    if versioned || major ≠ 1 || minor ≠ 1 then none else directives true handles rest
  | .tagHandle handle expansion :: rest =>
    if (handles.lookup handle).isSome then none
    else directives versioned (handles ++ [(handle, expansion)]) rest
  | ts => some (handles, ts)

/-- The meanings of handles that are not told otherwise. -/
def standardHandles : List (String × String) := [("!", "!"), ("!!", "tag:yaml.org,2002:")]

/-- The events of the first document, if there is one. A text without a document has none. -/
def events (ts : List Token) : Option (Option (List Event)) := do
  let fuel := 8 * ts.length + 16
  match ← peek? ts with
  | .streamEnd => some none
  | .version _ _ | .tagHandle _ _ | .documentStart =>
    let (handles, ts) ← directives false [] ts
    match ← peek? ts with
    | .documentStart => some <$> eventsFrom (handles ++ standardHandles) fuel [.content] (ts.drop 1)
    | _ => none
  | _ => some <$> eventsFrom standardHandles fuel [.node true false] ts

end SmaliTrace.Yaml
