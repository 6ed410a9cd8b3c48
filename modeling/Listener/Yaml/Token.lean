/-
The tokens of a YAML text.

* `Token`: scalars and the marks of collections. Blocks, which a text shows by
  indentation alone, have marks for their start and their end.
* `Scan`: what has been read, with the blocks and flow collections that are not
  closed yet. Whether a key starts at a token is known only when its colon is
  found, so each level remembers the last place where one could have started.
* `tokens?`: the tokens of a text.
-/
import Listener.Yaml.Scalar

namespace Listener

namespace Yaml

/-- A part of a text. -/
inductive Token where
  /-- The marker in front of a document. -/
  | documentStart
  /-- The marker behind a document. -/
  | documentEnd
  /-- The start of a list whose items have dashes. -/
  | listStart
  /-- The start of a mapping by indentation. -/
  | mappingStart
  /-- The end of a list or a mapping by indentation. -/
  | blockEnd
  /-- An opening bracket. -/
  | flowListStart
  /-- A closing bracket. -/
  | flowListEnd
  /-- An opening brace. -/
  | flowMappingStart
  /-- A closing brace. -/
  | flowMappingEnd
  /-- The dash of an item. -/
  | item
  | comma
  /-- The start of a key. -/
  | key
  /-- The colon in front of a value. -/
  | value
  /-- A scalar; `plain` says that it stands without quotes. -/
  | scalar (plain : Bool) (text : List Char)
  deriving DecidableEq

/-! ### Keys that may have started -/

/-- A place where a key may have started. -/
structure KeyPlace where
  /-- The number of tokens in front of it. -/
  index : Nat
  line : Nat
  column : Nat
  /-- Whether the block allows nothing but a key there. -/
  required : Bool

namespace KeyPlace

/-- Whether the colon comes too late: a key ends in its line, and after no more
than 1024 characters. -/
def isPast (k : KeyPlace) (g : Glyph) : Bool :=
  k.line < g.line || k.column + 1024 < g.column

/-- What is left of a place at a glyph; nothing at all where a required key did
not come. -/
def atGlyph? (g : Glyph) : Option KeyPlace → Option (Option KeyPlace)
  | none => some none
  | some k =>
    if k.isPast g then
      if k.required then none else some none
    else some (some k)

end KeyPlace

/-! ### What has been read -/

/-- The state of the reading of a text. -/
structure Scan where
  /-- The tokens, the last one first. -/
  tokens : List Token := []
  /-- The margins of the blocks, the innermost first. What belongs to a block
  has at least as many characters in front of it. -/
  margins : List Nat := []
  /-- Whether a key may start here without a mark. -/
  keyAllowed : Bool := true
  /-- Where a key of the innermost level may have started. -/
  keyPlace : Option KeyPlace := none
  /-- The same for the levels around the flow collections that are not closed. -/
  outer : List (Option KeyPlace) := []

namespace Scan

/-- Whether a flow collection is not closed. -/
def inFlow (s : Scan) : Bool := !s.outer.isEmpty

/-- The margin of the innermost block. -/
def margin (s : Scan) : Nat := s.margins.headD 0

/-- One more token. -/
def push (s : Scan) (t : Token) : Scan :=
  { s with tokens := t :: s.tokens }

/-- A token behind the first `index` ones. -/
def insert (s : Scan) (index : Nat) (t : Token) : Scan :=
  { s with tokens := s.tokens.insertIdx (s.tokens.length - index) t }

/-! ### Blocks -/

/-- A block that starts at a column, behind the first `index` tokens, unless the
innermost block starts there. -/
def startBlock (s : Scan) (column index : Nat) (t : Token) : Scan :=
  if s.inFlow || column < s.margin then s
  else { s.insert index t with margins := (column + 1) :: s.margins }

/-- A block that starts at a glyph, which has a mark of its own. Where no key
may start, no mark may stand. -/
def startBlockHere? (s : Scan) (g : Glyph) (t : Token) : Option Scan :=
  if s.inFlow then some s
  else if s.keyAllowed then some (s.startBlock g.column s.tokens.length t)
  else none

/-- The blocks with a margin above a limit end. -/
def endBlocks (s : Scan) (limit : Nat) : Scan :=
  if s.inFlow then s
  else
    let ended := s.margins.takeWhile (limit < ·)
    { s with
      tokens := ended.map (fun _ => Token.blockEnd) ++ s.tokens,
      margins := s.margins.drop ended.length }

/-! ### Keys -/

/-- No key has started. -/
def withoutKey? (s : Scan) : Option Scan :=
  if s.keyPlace.any (·.required) then none else some { s with keyPlace := none }

/-- A key may have started at a glyph. -/
def offerKey? (s : Scan) (g : Glyph) : Option Scan :=
  if s.keyAllowed then
    s.withoutKey?.map fun s =>
      { s with
        keyPlace := some
          ⟨s.tokens.length, g.line, g.column, !s.inFlow && s.margin == g.column + 1⟩ }
  else some s

/-- The places that are not past at a glyph. -/
def dropPast? (s : Scan) (g : Glyph) : Option Scan := do
  let keyPlace ← KeyPlace.atGlyph? g s.keyPlace
  let outer ← s.outer.mapM (KeyPlace.atGlyph? g)
  return { s with keyPlace, outer }

/-! ### Tokens -/

/-- A marker of a document. -/
def marker? (s : Scan) (t : Token) : Option Scan :=
  (s.endBlocks 0).withoutKey?.map fun s => { s.push t with keyAllowed := false }

/-- An opening bracket or brace. -/
def flowStart? (s : Scan) (g : Glyph) (t : Token) : Option Scan :=
  (s.offerKey? g).map fun s =>
    { s.push t with keyAllowed := true, keyPlace := none, outer := s.keyPlace :: s.outer }

/-- A closing bracket or brace. -/
def flowEnd? (s : Scan) (t : Token) : Option Scan :=
  s.withoutKey?.map fun s =>
    { s.push t with
      keyAllowed := false, keyPlace := s.outer.headD none, outer := s.outer.tail }

/-- A comma. -/
def comma? (s : Scan) : Option Scan :=
  s.withoutKey?.map fun s => { s.push .comma with keyAllowed := true }

/-- The dash of an item. -/
def item? (s : Scan) (g : Glyph) : Option Scan := do
  let s ← s.startBlockHere? g .listStart
  let s ← s.withoutKey?
  return { s.push .item with keyAllowed := true }

/-- The mark of a key. -/
def key? (s : Scan) (g : Glyph) : Option Scan := do
  let s ← s.startBlockHere? g .mappingStart
  let s ← s.withoutKey?
  return { s.push .key with keyAllowed := !s.inFlow }

/-- A colon. What started at the last place where a key may have started turns
out to be one. -/
def value? (s : Scan) (g : Glyph) : Option Scan :=
  match s.keyPlace with
  | some k =>
    let s := (s.insert k.index .key).startBlock k.column k.index .mappingStart
    some { s.push .value with keyAllowed := false, keyPlace := none }
  | none =>
    (s.startBlockHere? g .mappingStart).map fun s =>
      { s.push .value with keyAllowed := !s.inFlow }

/-- A quoted scalar, and what follows. -/
def quoted? (s : Scan) (g : Glyph) (rest : List Glyph) : Option (Scan × List Glyph) := do
  let s ← s.offerKey? g
  let (text, rest) ← Yaml.quoted? (g.char == '"') (.words .empty) rest
  return ({ s.push (.scalar false text) with keyAllowed := false }, rest)

/-- A plain scalar, and what follows. -/
def plain? (s : Scan) (g : Glyph) (rest : List Glyph) : Option (Scan × List Glyph) := do
  let s ← s.offerKey? g
  let (text, broken, rest) ← Yaml.plain? s.inFlow s.margin .empty (g :: rest)
  return ({ s.push (.scalar true text) with keyAllowed := broken }, rest)

/-- The token that starts at a glyph, and what follows. -/
def token? (s : Scan) (g : Glyph) (rest : List Glyph) : Option (Scan × List Glyph) :=
  let follow (s : Option Scan) : Option (Scan × List Glyph) := s.map (·, rest)
  let c := g.char
  if isMarker (g :: rest) then
    (s.marker? (if c == '-' then .documentStart else .documentEnd)).map (·, rest.drop 2)
  else if c == '[' then follow (s.flowStart? g .flowListStart)
  else if c == '\x7b' then follow (s.flowStart? g .flowMappingStart)
  else if c == ']' then follow (s.flowEnd? .flowListEnd)
  else if c == '\x7d' then follow (s.flowEnd? .flowMappingEnd)
  else if c == ',' then follow s.comma?
  else if c == '-' && startsGap rest then follow (s.item? g)
  else if c == '?' && (s.inFlow || startsGap rest) then follow (s.key? g)
  else if c == ':' && (s.inFlow || startsGap rest) then follow (s.value? g)
  else if c == '"' || c == '\'' then s.quoted? g rest
  else if startsPlain s.inFlow (g :: rest) then s.plain? g rest
  else none

/-- The next token, and what follows, where nothing divides. The blocks that lie
right of it end. -/
def step? (s : Scan) (g : Glyph) (rest : List Glyph) : Option (Scan × List Glyph) :=
  (s.dropPast? g).bind fun s => (s.endBlocks (g.column + 1)).token? g rest

/-! ### Between tokens -/

/-- What follows blanks, comments and ends of lines, and whether a key may start
there. A tab may not stand where it would be taken for indentation. -/
def skip (inFlow : Bool) : Bool → Bool → List Glyph → Bool × List Glyph
  | keyAllowed, _, [] => (keyAllowed, [])
  | keyAllowed, inComment, g :: rest =>
    let c := g.char
    if isBreak c then skip inFlow (keyAllowed || !inFlow) false rest
    else if inComment || c == '#' then skip inFlow keyAllowed true rest
    else if c == ' ' || (c == '\t' && (inFlow || !keyAllowed)) ||
        (c == '\uFEFF' && g.column == 0) then
      skip inFlow keyAllowed false rest
    else (keyAllowed, g :: rest)

/-- The tokens of a text that ends. -/
def finish? (s : Scan) : Option (List Token) :=
  (s.endBlocks 0).withoutKey?.map (·.tokens.reverse)

/-- The tokens of a text. Each token uses up one unit of `fuel`. -/
def run? : Nat → Scan → List Glyph → Option (List Token)
  | 0, _, _ => none
  | fuel + 1, s, text =>
    let (keyAllowed, text) := skip s.inFlow s.keyAllowed false text
    let s := { s with keyAllowed }
    match text with
    | [] => s.finish?
    | g :: rest => (s.step? g rest).bind fun (s, text) => run? fuel s text

end Scan

/-- The tokens of a text. Every token takes at least one character. -/
def tokens? (cs : List Char) : Option (List Token) :=
  (Glyph.ofText? cs).bind fun text => Scan.run? (text.length + 1) {} text

end Yaml

end Listener
