/-
What can be wrong with a text of forms.

* `Fault`: the causes.
* `ReadError`: a cause and the place it concerns.
* `refusal`: the error for a text that fits no outline. It is about the end of
  the text when only white space follows the place, so a person at a prompt can
  be asked for another line.
-/
import Listener.Text.Blank

namespace Listener

namespace Reader

/-- A cause for a text not to be read. -/
inductive Fault where
  /-- More text was expected. -/
  | endOfText
  /-- Something else was expected. -/
  | unexpected
  /-- A key of a map has no value. -/
  | oddMap
  /-- A feature of a conditional has no form. -/
  | oddChoice
  /-- A feature of a conditional is not a keyword. -/
  | featureNotKeyword
  /-- A conditional for several forms stands outside of all brackets. -/
  | spliceAtTop
  /-- A conditional for several forms stands where one form is needed. -/
  | spliceHere
  /-- A conditional for several forms selects neither a list nor a vector. -/
  | spliceShape
  /-- A conditional selects nothing where a form is needed. -/
  | noBranch
  /-- A numeral without a value. -/
  | invalidNumber (text : List Char)
  /-- A ratio with the denominator zero. -/
  | divideByZero
  /-- Four hexadecimal digits that are no character. -/
  | invalidUnicodeCharacter (text : List Char)
  /-- Octal digits that are no character. -/
  | invalidOctal (text : List Char)
  /-- An unknown name of a character. -/
  | unsupportedCharacter (text : List Char)
  /-- An escape in a string whose digits are no character. -/
  | invalidUnicodeEscape (code : List Char)
  /-- An unknown escape in a string. -/
  | unsupportedEscape (c : Char)
  /-- A backslash at the end of a string. -/
  | endOfString
  deriving DecidableEq

/-- The text of a cause at a place that has `offset` bytes in front of it. -/
def Fault.message (offset : Nat) : Fault → String
  | .endOfText => "EOF while reading"
  | .unexpected => "Unexpected input at position " ++ toString offset
  | .oddMap => "Map literal must contain an even number of forms"
  | .oddChoice => "read-cond requires an even number of forms"
  | .featureNotKeyword => "Feature should be a keyword"
  | .spliceAtTop => "Reader conditional splicing not allowed at the top level."
  | .spliceHere => "Reader conditional splicing not allowed here"
  | .spliceShape => "Spliced form list in read-cond-splicing must implement ISequential"
  | .noBranch => "No reader conditional branch for :cljs"
  | .invalidNumber text => "Invalid number: " ++ String.ofList text
  | .divideByZero => "Divide by zero"
  | .invalidUnicodeCharacter text => "Invalid unicode character: \\" ++ String.ofList text
  | .invalidOctal text => "Invalid octal escape: \\" ++ String.ofList text
  | .unsupportedCharacter text => "Unsupported character: \\" ++ String.ofList text
  | .invalidUnicodeEscape code => "Invalid unicode escape: \\u" ++ String.ofList code
  | .unsupportedEscape c => "Unsupported escape character: \\" ++ String.singleton c
  | .endOfString => "EOF while reading string"

/-- A cause and the number of characters before the place that it concerns. -/
structure ReadError where
  /-- What is wrong. -/
  fault : Fault
  /-- Where it is wrong. -/
  position : Nat
  deriving DecidableEq

/-- The number of bytes before a place in a text. -/
def offsetAt (cs : List Char) (position : Nat) : Nat :=
  Text.byteLength (cs.take position)

/-- The error for a text whose outline breaks off at a place. -/
def refusal (cs : List Char) (position : Nat) : ReadError :=
  if Text.byteLength (Text.trimEnd Text.isWhite cs) ≤ offsetAt cs position then
    ⟨.endOfText, position⟩
  else ⟨.unexpected, position⟩

end Reader

end Listener
