/-
The values of forms without parts.

* `decode`: the contents of a string; the escapes are the letters
  `n t r b f`, a quote, a backslash, and `u` with four hexadecimal digits.
* `characterForm`: a character by its name, by its number or as itself.
* `Atom.form`: the value of any form without parts.
-/
import Listener.Reader.Fault
import Listener.Reader.Token

namespace Listener

namespace Reader

/-- The character with a given number, unless it is half of a surrogate pair or
out of range. -/
def charOfNat? (n : Nat) : Option Char :=
  if n.isValidChar then some (Char.ofNat n) else none

/-- The value of digits in a radix that is not greater than sixteen. -/
def digitsValue (radix : Nat) (digits : List Char) : Nat :=
  digits.foldl (fun n c => n * radix + Numeral.digitValue c) 0

/-! ### Strings -/

/-- The character of a code of four characters in an escape. The code is
hexadecimal, and its first character may also be a plus sign. -/
def escapedChar? (code : List Char) : Option Char :=
  let digits := match code with
    | '+' :: digits => digits
    | digits => digits
  if code.length = 4 ∧ digits.all isHexDigit then charOfNat? (digitsValue 16 digits) else none

/-- The character of an escape of one letter. -/
def escapedLetter? (c : Char) : Option Char :=
  match c with
  | 'n' => some '\n'
  | 't' => some '\t'
  | 'r' => some '\r'
  | '"' => some '"'
  | '\\' => some '\\'
  | 'b' => some '\x08'
  | 'f' => some '\x0c'
  | _ => none

/-- The contents of a string as it stands between the quotes. -/
def decode : List Char → Except Fault (List Char)
  | [] => .ok []
  | '\\' :: [] => .error .endOfString
  | '\\' :: 'u' :: a :: b :: c :: d :: cs =>
    match escapedChar? [a, b, c, d] with
    | some e => (decode cs).map (e :: ·)
    | none => .error (.invalidUnicodeEscape [a, b, c, d])
  | '\\' :: 'u' :: code => .error (.invalidUnicodeEscape code)
  | '\\' :: c :: cs =>
    match escapedLetter? c with
    | some e => (decode cs).map (e :: ·)
    | none => .error (.unsupportedEscape c)
  | c :: cs => (decode cs).map (c :: ·)

/-! ### Characters -/

/-- The characters that are written by name. -/
def namedChar? (name : List Char) : Option Char :=
  match String.ofList name with
  | "newline" => some '\n'
  | "space" => some ' '
  | "tab" => some '\t'
  | "return" => some '\r'
  | "backspace" => some '\x08'
  | "formfeed" => some '\x0c'
  | _ => none

/-- The character that stands after a backslash. -/
def characterForm (body : List Char) : Except Fault Char :=
  match namedChar? body with
  | some c => .ok c
  | none =>
    match body with
    | [c] => .ok c
    | 'u' :: code =>
      if Text.byteLength body = 5 then
        match if code.all isHexDigit then charOfNat? (digitsValue 16 code) else none with
        | some c => .ok c
        | none => .error (.invalidUnicodeCharacter body)
      else .error (.unsupportedCharacter body)
    | 'o' :: code =>
      match if code.all isOctalDigit then charOfNat? (digitsValue 8 code) else none with
      | some c => .ok c
      | none => .error (.invalidOctal body)
    | _ => .error (.unsupportedCharacter body)

/-! ### Forms without parts -/

/-- The form of a symbol's text, which may be the word for another value. -/
def symbolForm (text : List Char) : Form :=
  match String.ofList text with
  | "nil" => .nil
  | "true" => .bool true
  | "false" => .bool false
  | name => .symbol ⟨name⟩

/-- The value of a numeral. -/
def numberForm (text : List Char) : Except Fault Form :=
  match (Numeral.ofWord? text).map Numeral.form with
  | some (.ok form) => .ok form
  | some (.error .zeroDenominator) => .error .divideByZero
  | some (.error .invalid) => .error (.invalidNumber text)
  | none => .error (.invalidNumber text)

/-- The value of a form without parts. -/
def Atom.form : Atom → Except Fault Form
  | .number text => numberForm text
  | .symbolic x => .ok (.float x)
  | .string raw => (decode raw).map fun cs => .str (String.ofList cs)
  | .regex raw => .ok (.regex (String.ofList raw))
  | .character body => (characterForm body).map .char
  | .keyword text => .ok (.keyword (String.ofList text))
  | .symbol text => .ok (symbolForm text)

end Reader

end Listener
