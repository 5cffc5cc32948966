import SmaliTrace.Yaml.Scalar
import SmaliTrace.Yaml.Tag
import Std.Data.HashMap

/-!
The tokens of a YAML text, in order. A scalar, flow collection, anchor or tag can turn out to be the
key of a mapping when a colon follows it on its line. The tokens that tell so stand before it, and
therefore tokens wait in a queue as long as the first of them can still become a key.
-/
namespace SmaliTrace.Yaml

/-- What can become a key: the number of its first token and its place. A key is required where the
text would not fit the block mapping around it otherwise. -/
structure KeyCandidate where
  possible : Bool := false
  required : Bool := false
  token : Nat := 0
  mark : Mark := {}
deriving DecidableEq, Repr, Inhabited

/-- The most characters of a key. -/
def maxKeySize : Nat := 1024

/-- How deep flow collections, and block collections, can be nested. -/
def maxDepth : Nat := 10000

/-- The key cannot end at the mark: it stands on one line, and is not too long. -/
def KeyCandidate.isStale (k : KeyCandidate) (m : Mark) : Bool :=
  k.mark.line < m.line || k.mark.index + maxKeySize < m.index

/-- The state of reading tokens. `queue` holds the tokens that wait and `taken` counts those that were
taken. There is a candidate for each flow level, the outermost first, and `candidates` tells the level
of a candidate by its token. `indents` are the columns of the block collections around the one at
`indent`. A key can start where `keyAllowed` holds. -/
structure Lexer where
  mark : Mark := {}
  rest : List Char
  broken : Bool := false
  marked : Bool := false
  queue : List Token := []
  taken : Nat := 1
  flow : Nat := 0
  indent : Int := -1
  indents : List Int := []
  depth : Nat := 0
  keyAllowed : Bool := true
  keys : Array KeyCandidate := #[{}]
  candidates : Std.HashMap Nat Nat := {}

/-- The place of the next token, after blanks, line breaks and comments, and whether a key can start
there. Outside of flow collections tabs do not indent. In a text that is `marked`, the first character
of every line counts as a mark. -/
def nextPlace (flow marked comment keyAllowed : Bool) (m : Mark) :
    List Char → Bool × Mark × List Char
  | [] => (keyAllowed, m, [])
  | c :: rest =>
    if marked && m.column = 0 then nextPlace flow marked false keyAllowed m.right rest
    else if isBreak c then nextPlace flow marked false (keyAllowed || !flow) m.newLine rest
    else if comment || c = ' ' || (c = '\t' && (flow || !keyAllowed)) then
      nextPlace flow marked comment keyAllowed m.right rest
    else if c = '#' then nextPlace flow marked true keyAllowed m.right rest
    else (keyAllowed, m, c :: rest)

/-- Leaves the block collections that are indented deeper than the column: the indentation that is
reached, those around it, and the number of collections that were left. -/
def leaveBlocks (column : Int) (indent : Int) : List Int → Int × List Int × Nat
  | [] => (indent, [], 0)
  | outer :: rest =>
    if column < indent then
      let (indent, indents, count) := leaveBlocks column outer rest
      (indent, indents, count + 1)
    else (indent, outer :: rest, 0)

namespace Lexer

/-- Puts a token behind the others. -/
def push (s : Lexer) (t : Token) : Lexer := { s with queue := s.queue ++ [t] }

/-- Puts a token before the one with the number, or behind all if that was taken. -/
def insert (s : Lexer) (number : Nat) (t : Token) : Lexer :=
  if number < s.taken then s.push t
  else
    let n := number - s.taken
    { s with queue := s.queue.take n ++ t :: s.queue.drop n }

/-- Passes over `n` characters, for which the token stands. -/
def advance (s : Lexer) (n : Nat) (t : Token) : Lexer :=
  { s with mark := s.mark.right n, rest := s.rest.drop n }.push t

/-- Ends the block collections that are indented deeper than the column. -/
def unroll (s : Lexer) (column : Int) : Lexer :=
  if 0 < s.flow then s
  else
    let (indent, indents, count) := leaveBlocks column s.indent s.indents
    { s with indent := indent, indents := indents, depth := s.depth - count,
             queue := s.queue ++ List.replicate count .blockEnd }

/-- Starts a block collection at the column if it is indented deeper than the one around it. Its token
stands before the one with the number, or behind all. -/
def roll (s : Lexer) (column : Nat) (number : Option Nat) (t : Token) : Option Lexer :=
  if 0 < s.flow || column ≤ s.indent then some s
  else if maxDepth ≤ s.depth then none
  else
    let s := { s with indents := s.indent :: s.indents, indent := column, depth := s.depth + 1 }
    match number with
    | some n => some (s.insert n t)
    | none => some (s.push t)

/-- The candidate of the current flow level. -/
def current (s : Lexer) : KeyCandidate := s.keys.back?.getD {}

/-- Replaces the candidate of the current flow level. -/
def setCurrent (s : Lexer) (k : KeyCandidate) : Lexer := { s with keys := s.keys.pop.push k }

/-- Gives up the candidate of the current flow level, unless it is required. -/
def dropKey (s : Lexer) : Option Lexer :=
  let k := s.current
  if !k.possible then some s
  else if k.required then none
  else
    some { s.setCurrent { k with possible := false } with candidates := s.candidates.erase k.token }

/-- Makes what starts here a candidate, where a key can start. -/
def saveKey (s : Lexer) : Option Lexer := do
  if s.keyAllowed then
    let k : KeyCandidate :=
      { possible := true, required := s.flow = 0 && s.indent = s.mark.column,
        token := s.taken + s.queue.length, mark := s.mark }
    let s ← s.dropKey
    some { s.setCurrent k with candidates := s.candidates.insert k.token (s.keys.size - 1) }
  else some s

/-- Tells whether the candidate of a level can still become a key. One that cannot is given up, unless
it is required. -/
def isKey (s : Lexer) (level : Nat) : Option (Bool × Lexer) :=
  match s.keys[level]? with
  | none => some (false, s)
  | some k =>
    if !k.possible then some (false, s)
    else if k.isStale s.mark then
      if k.required then none
      else some (false, { s with keys := s.keys.setIfInBounds level { k with possible := false } })
    else some (true, s)

/-- The end of the text. -/
def fetchEnd (s : Lexer) : Option Lexer := do
  let mark := if s.mark.column = 0 then s.mark else s.mark.newLine
  let s ← ({ s with mark := mark }.unroll (-1)).dropKey
  some ({ s with keyAllowed := false }.push .streamEnd)

/-- A directive. -/
def fetchDirective (s : Lexer) : Option Lexer := do
  let s ← (s.unroll (-1)).dropKey
  let found ← directive? s.mark.right (s.rest.drop 1)
  some ({ s with keyAllowed := false, mark := found.mark, rest := found.rest }.push found.value)

/-- A mark between documents. -/
def fetchDocumentMark (s : Lexer) (t : Token) : Option Lexer := do
  let s ← (s.unroll (-1)).dropKey
  some ({ s with keyAllowed := false }.advance 3 t)

/-- An opening bracket. -/
def fetchOpen (s : Lexer) (t : Token) : Option Lexer := do
  let number := s.taken + s.queue.length
  let s ← s.saveKey
  if maxDepth ≤ s.flow then none
  else
    let s := { s with keys := s.keys.push { token := number, mark := s.mark }, flow := s.flow + 1,
                      keyAllowed := true }
    some (s.advance 1 t)

/-- Leaves a flow level. -/
def leaveFlow (s : Lexer) : Lexer :=
  if s.flow = 0 then s
  else
    { s with flow := s.flow - 1, keys := s.keys.pop,
             candidates := s.candidates.erase s.current.token }

/-- A closing bracket. -/
def fetchClose (s : Lexer) (t : Token) : Option Lexer := do
  let s ← s.dropKey
  some ({ s.leaveFlow with keyAllowed := false }.advance 1 t)

/-- A comma between flow brackets. -/
def fetchFlowEntry (s : Lexer) : Option Lexer := do
  let s ← s.dropKey
  some ({ s with keyAllowed := true }.advance 1 .flowEntry)

/-- A dash, which starts an entry of a block sequence. -/
def fetchBlockEntry (s : Lexer) : Option Lexer := do
  let s ←
    if 0 < s.flow then some s
    else if s.keyAllowed then s.roll s.mark.column none .blockSequenceStart
    else none
  let s ← s.dropKey
  some ({ s with keyAllowed := true }.advance 1 .blockEntry)

/-- A question mark, which starts a key. -/
def fetchKey (s : Lexer) : Option Lexer := do
  let s ←
    if 0 < s.flow then some s
    else if s.keyAllowed then s.roll s.mark.column none .blockMappingStart
    else none
  let s ← s.dropKey
  some ({ s with keyAllowed := s.flow = 0 }.advance 1 .key)

/-- A colon, which starts a value. The candidate before it is its key. -/
def fetchValue (s : Lexer) : Option Lexer := do
  let (found, s) ← s.isKey (s.keys.size - 1)
  let k := s.current
  if found then
    let s ← (s.insert k.token .key).roll k.mark.column (some k.token) .blockMappingStart
    let s := { s.setCurrent { k with possible := false } with
                 candidates := s.candidates.erase k.token, keyAllowed := false }
    some (s.advance 1 .value)
  else
    let s ←
      if 0 < s.flow then some s
      else if s.keyAllowed then s.roll s.mark.column none .blockMappingStart
      else none
    some ({ s with keyAllowed := s.flow = 0 }.advance 1 .value)

/-- The text goes on behind a lexeme. -/
def goOn {α : Type} (s : Lexer) (l : Lexeme α) : Lexer := { s with mark := l.mark, rest := l.rest }

/-- What can be a key but has none behind it on the way: an anchor, an alias, a tag or a quoted
scalar. -/
def fetchLexeme (s : Lexer) (read? : Mark → List Char → Option (Lexeme Token)) : Option Lexer := do
  let s ← s.saveKey
  let found ← read? s.mark s.rest
  some (({ s with keyAllowed := false }.goOn found).push found.value)

/-- A lexeme behind its first character. -/
def behindFirst {α : Type} (toToken : α → Token) (read? : Mark → List Char → Option (Lexeme α))
    (m : Mark) (s : List Char) : Option (Lexeme Token) :=
  (read? m.right (s.drop 1)).map fun l => ⟨toToken l.value, l.mark, l.rest⟩

/-- A block scalar. -/
def fetchBlockScalar (s : Lexer) (literal : Bool) : Option Lexer := do
  let s ← s.dropKey
  let found ← blockScalar literal s.indent s.mark.right (s.rest.drop 1)
  some (({ s with keyAllowed := true }.goOn found).push (.scalar false found.value))

/-- A plain scalar. A key can start behind it if it ended with its line. -/
def fetchPlain (s : Lexer) : Option Lexer := do
  let s ← s.saveKey
  let found ← plain (0 < s.flow) (s.indent + 1) {} s.mark s.rest
  some (({ s with keyAllowed := found.value.broken }.goOn found).push
    (.scalar true found.value.result))

/-- Characters that start something else than a plain scalar. -/
def isIndicator (c : Char) : Bool := "-?:,[]\x7b\x7d#&*!|>\x27\"%@\x60".toList.contains c

/-- A plain scalar can start with the character. -/
def startsPlain (s : Lexer) (c : Char) (rest : List Char) : Bool :=
  (!isBlank c && !isIndicator c) || (c = '-' && !(rest.head?.any isBlank)) ||
    (s.flow = 0 && (c = '?' || c = ':') && !atGap rest)

/-- Reads the token that starts with the character. -/
def fetchFrom (s : Lexer) (c : Char) (rest : List Char) : Option Lexer :=
  let first := s.mark.column = 0
  if first && c = '%' then s.fetchDirective
  else if first && atTriple '-' s.rest then s.fetchDocumentMark .documentStart
  else if first && atTriple '.' s.rest then s.fetchDocumentMark .documentEnd
  else if c = '[' then s.fetchOpen .flowSequenceStart
  else if c = '\x7b' then s.fetchOpen .flowMappingStart
  else if c = ']' then s.fetchClose .flowSequenceEnd
  else if c = '\x7d' then s.fetchClose .flowMappingEnd
  else if c = ',' then s.fetchFlowEntry
  else if c = '-' && atGap rest then s.fetchBlockEntry
  else if c = '?' && (0 < s.flow || atGap rest) then s.fetchKey
  else if c = ':' && (0 < s.flow || atGap rest) then s.fetchValue
  else if c = '*' then s.fetchLexeme (behindFirst .reference name?)
  else if c = '&' then s.fetchLexeme (behindFirst .anchor name?)
  else if c = '!' then s.fetchLexeme tag?
  else if c = '|' && s.flow = 0 then s.fetchBlockScalar true
  else if c = '>' && s.flow = 0 then s.fetchBlockScalar false
  else if c = '\x27' then s.fetchLexeme (behindFirst (.scalar false) (quoted true {}))
  else if c = '"' then s.fetchLexeme (behindFirst (.scalar false) (quoted false {}))
  else if s.startsPlain c rest then s.fetchPlain
  else none

/-- So little is left that reading on would reach what cannot be read. -/
def isExhausted (s : Lexer) : Bool := s.broken && (s.rest.drop 3).isEmpty

/-- Reads the next token, and the tokens that depend on its place. -/
def fetch (s : Lexer) : Option Lexer :=
  let (keyAllowed, mark, rest) := nextPlace (0 < s.flow) s.marked false s.keyAllowed s.mark s.rest
  let s := { s with keyAllowed := keyAllowed, mark := mark, rest := rest }.unroll mark.column
  if s.isExhausted then none
  else
    match rest with
    | [] => s.fetchEnd
    | c :: rest =>
      match s.fetchFrom c rest with
      | some s => if s.isExhausted then none else some s
      | none => none

/-- Tells whether the first token of the queue can be taken: nothing can come before it anymore. -/
def isReady (s : Lexer) : Option (Bool × Lexer) :=
  if s.queue.isEmpty then some (false, s)
  else
    match s.candidates[s.taken]? with
    | none => some (true, s)
    | some level => (s.isKey level).map fun (possible, s) => (!possible, s)

/-- Takes tokens until the text ends or is broken. The fuel bounds the number of tokens. -/
def tokens : (fuel : Nat) → Lexer → List Token
  | 0, _ => [.broken]
  | fuel + 1, s =>
    match s.isReady with
    | none => [.broken]
    | some (true, s) =>
      match s.queue with
      | [] => [.broken]
      | .streamEnd :: _ => [.streamEnd]
      | t :: queue => t :: tokens fuel { s with queue := queue, taken := s.taken + 1 }
    | some (false, s) =>
      match s.fetch with
      | none => [.broken]
      | some s => tokens fuel s

end Lexer

/-- The tokens of a text. -/
def tokens (source : Source) : List Token :=
  Lexer.tokens (8 * source.text.length + 16)
    { rest := source.text, broken := source.broken,
      marked := source.text.head? = some byteOrderMark }

end SmaliTrace.Yaml
