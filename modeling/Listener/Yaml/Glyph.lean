/-
The characters of a YAML text with their places.

* `Glyph`: a character with its line and its column. Indentation is what gives
  a text its blocks, so every reading rule looks at columns.
* `Glyph.ofText?`: the glyphs of a text, in which all ends of lines are written
  alike; `map_char_place` says that placing changes no character.
* `isMarker`: the lines of three dashes or dots around a document.
-/
namespace Listener

namespace Yaml

/-! ### Characters -/

/-- A character that may stand in a text. -/
def isAllowed (c : Char) : Bool :=
  let n := c.toNat
  n == 0x09 || n == 0x0A || n == 0x0D || (0x20 ≤ n && n ≤ 0x7E) || n == 0x85 ||
    (0xA0 ≤ n && n ≤ 0xFFFD) || 0x10000 ≤ n

/-- A blank inside of a line. -/
def isBlank (c : Char) : Bool :=
  c == ' ' || c == '\t'

/-- A character that ends a line. -/
def isBreak (c : Char) : Bool :=
  c == '\n' || c == '\u2028' || c == '\u2029'

/-- A character that divides the parts of flow collections. -/
def isFlow (c : Char) : Bool :=
  c == ',' || c == '[' || c == ']' || c == '\x7b' || c == '\x7d'

/-- The text in which the ends of lines are written alike. The line separator
and the paragraph separator stay what they are. -/
def unifyBreaks : List Char → List Char
  | [] => []
  | '\r' :: '\n' :: cs => '\n' :: unifyBreaks cs
  | c :: cs => (if c == '\r' || c == '\u0085' then '\n' else c) :: unifyBreaks cs

/-! ### Glyphs -/

/-- A character with its place. -/
structure Glyph where
  /-- The character. -/
  char : Char
  /-- The number of lines above. -/
  line : Nat
  /-- The number of characters in front of it in its line. -/
  column : Nat

namespace Glyph

/-- The glyphs of a text that starts at a place. -/
def place (line column : Nat) : List Char → List Glyph
  | [] => []
  | c :: cs =>
    ⟨c, line, column⟩ ::
      if isBreak c then place (line + 1) 0 cs else place line (column + 1) cs

/-- Placing changes no character. -/
theorem map_char_place (line column : Nat) (cs : List Char) :
    (place line column cs).map char = cs := by
  induction cs generalizing line column with
  | nil => rfl
  | cons c cs ih =>
    rw [place, List.map_cons]
    split
    · rw [ih]
    · rw [ih]

/-- The glyphs of a text in which every character is allowed. -/
def ofText? (cs : List Char) : Option (List Glyph) :=
  if cs.all isAllowed then some (place 0 0 (unifyBreaks cs)) else none

end Glyph

/-! ### Looking ahead -/

/-- Whether a blank, the end of the line or the end of the text comes next. -/
def startsGap : List Glyph → Bool
  | [] => true
  | g :: _ => isBlank g.char || isBreak g.char

/-- Whether the character that comes next has a property. -/
def startsWith (p : Char → Bool) : List Glyph → Bool
  | [] => false
  | g :: _ => p g.char

/-- Whether three dashes or three dots stand alone at the start of a line. -/
def isMarker : List Glyph → Bool
  | a :: b :: c :: rest =>
    a.column == 0 && (a.char == '-' || a.char == '.') && b.char == a.char && c.char == a.char &&
      startsGap rest
  | _ => false

end Yaml

end Listener
