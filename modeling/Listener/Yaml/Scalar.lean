/-
Scalars of YAML texts.

* `Gap`: what stands between two words of a scalar, and the text that it
  leaves: blanks stay, the end of a line becomes a space, and empty lines stay.
* `plain?`: a scalar without quotes, up to what cannot belong to it.
* `quoted?`: a scalar up to its closing quote.
-/
import Listener.Json.Parse
import Listener.Yaml.Glyph

namespace Listener

namespace Yaml

/-! ### Gaps -/

/-- What stands between two words of a scalar. -/
inductive Gap where
  /-- Blanks of one line. -/
  | inLine (blanks : List Char)
  /-- Ends of lines: the first one, unless a backslash took it away, and the
  further ones. -/
  | broken (first : Option Char) (further : List Char)

namespace Gap

/-- The gap where nothing stands between two characters. -/
def empty : Gap := .inLine []

/-- Whether a gap goes over the end of a line. -/
def isBroken : Gap → Bool
  | .inLine _ => false
  | .broken _ _ => true

/-- Whether two characters follow each other at once. -/
def isEmpty : Gap → Bool
  | .inLine blanks => blanks.isEmpty
  | .broken _ _ => false

/-- The gap with one more blank or end of a line. Blanks next to the end of a
line do not count. -/
def push (c : Char) : Gap → Gap
  | .inLine blanks => if isBreak c then .broken (some c) [] else .inLine (blanks ++ [c])
  | .broken first further => .broken first (if isBreak c then further ++ [c] else further)

/-- The text that a gap leaves. -/
def text : Gap → List Char
  | .inLine blanks => blanks
  | .broken (some '\n') [] => [' ']
  | .broken (some '\n') further => further
  | .broken first further => first.toList ++ further

end Gap

/-! ### Plain scalars -/

/-- Whether a plain scalar may start here. -/
def startsPlain (inFlow : Bool) : List Glyph → Bool
  | [] => false
  | g :: rest =>
    let c := g.char
    if c == '-' then !startsWith isBlank rest
    else if c == '?' || c == ':' then !inFlow && !startsGap rest
    else !(isBlank c || isBreak c || isFlow c || "#&*!|>'\"%@\x60".toList.contains c)

/-- Whether a plain scalar ends in front of a character, however close the
character stands to it. -/
def endsPlain (inFlow : Bool) (c : Char) (rest : List Glyph) : Bool :=
  (c == ':' && startsGap rest) || (inFlow && isFlow c)

/-- Whether a plain scalar ends at the end of a gap: at a comment, at a marker,
and in a block at what stands left of its margin. -/
def endsAfter (inFlow : Bool) (margin : Nat) (gap : Gap) (g : Glyph) (rest : List Glyph) : Bool :=
  !gap.isEmpty &&
    (g.char == '#' || isMarker (g :: rest) || (gap.isBroken && !inFlow && g.column < margin))

/-- The text of a plain scalar that goes on after a gap, whether the end of a
line follows the scalar, and what follows. A tab left of the margin of the block
is refused, and so is a colon in front of a mark of a flow collection. -/
def plain? (inFlow : Bool) (margin : Nat) (gap : Gap) :
    List Glyph → Option (List Char × Bool × List Glyph)
  | [] => some ([], gap.isBroken, [])
  | g :: rest =>
    let c := g.char
    if isBlank c || isBreak c then
      if gap.isBroken && c == '\t' && g.column < margin then none
      else plain? inFlow margin (gap.push c) rest
    else if endsAfter inFlow margin gap g rest then some ([], gap.isBroken, g :: rest)
    else if inFlow && c == ':' && startsWith (fun d => d == '?' || isFlow d) rest then none
    else if endsPlain inFlow c rest then some ([], gap.isBroken, g :: rest)
    else
      (plain? inFlow margin .empty rest).map fun (text, broken, rest) =>
        (gap.text ++ c :: text, broken, rest)

/-! ### Quoted scalars -/

/-- The character of an escape of one letter between double quotes. -/
def escapedLetter? (c : Char) : Option Char :=
  match c with
  | '0' => some '\x00'
  | 'a' => some '\x07'
  | '\t' => some '\t'
  | 'v' => some '\x0b'
  | 'e' => some '\x1b'
  | ' ' => some ' '
  | 'N' => some '\u0085'
  | '_' => some '\u00a0'
  | 'L' => some '\u2028'
  | 'P' => some '\u2029'
  | c => Json.escapedLetter? c

/-- The number of hexadecimal digits of an escape of a code point. -/
def codeLength? (c : Char) : Option Nat :=
  match c with
  | 'x' => some 2
  | 'u' => some 4
  | 'U' => some 8
  | _ => none

/-- Where a scan of a quoted scalar stands. -/
inductive Quoting where
  /-- Behind a gap. -/
  | words (gap : Gap)
  /-- Behind a backslash. -/
  | escape
  /-- In an escape of a code point, with one digit more than `left` to come. -/
  | code (left value : Nat)
  /-- Behind a single quote, which ends the scalar unless another follows. -/
  | quote

/-- A text in front of the contents of a scalar. -/
def prepend (text : List Char) (r : List Char × List Glyph) : List Char × List Glyph :=
  (text ++ r.1, r.2)

/-- The contents of a scalar up to its closing quote, and what follows. A single
quote inside of single quotes is written twice; escapes stand inside of double
quotes. -/
def quoted? (double : Bool) : Quoting → List Glyph → Option (List Char × List Glyph)
  | .quote, [] => some ([], [])
  | _, [] => none
  | .words gap, g :: rest =>
    let c := g.char
    if isBlank c || isBreak c then quoted? double (.words (gap.push c)) rest
    else if isMarker (g :: rest) then none
    else if double && c == '"' then some (gap.text, rest)
    else if double && c == '\\' then (quoted? double .escape rest).map (prepend gap.text)
    else if !double && c == '\'' then (quoted? double .quote rest).map (prepend gap.text)
    else (quoted? double (.words .empty) rest).map (prepend (gap.text ++ [c]))
  | .escape, g :: rest =>
    let c := g.char
    if isBreak c then quoted? double (.words (.broken none [])) rest
    else
      match escapedLetter? c, codeLength? c with
      | some e, _ => (quoted? double (.words .empty) rest).map (prepend [e])
      | none, some n => quoted? double (.code (n - 1) 0) rest
      | none, none => none
  | .code left value, g :: rest =>
    match Json.hexValue? g.char, left with
    | none, _ => none
    | some d, left + 1 => quoted? double (.code left (value * 16 + d)) rest
    | some d, 0 =>
      let n := value * 16 + d
      if n.isValidChar then
        (quoted? double (.words .empty) rest).map (prepend [Char.ofNat n])
      else none
  | .quote, g :: rest =>
    if g.char == '\'' then (quoted? double (.words .empty) rest).map (prepend ['\''])
    else some ([], g :: rest)

end Yaml

end Listener
