/-
The text of definitions, which `source` shows.

* `fromLine?`: a text from one of its lines on.
* `sourceAtLine`: the text of the first form from a line on.
-/
import Listener.Reader

namespace Listener

/-- What follows the first `n` line ends of a text. -/
def afterLines? : Nat → List Char → Option (List Char)
  | 0, cs => some cs
  | n + 1, cs => (Text.splitFirst '\n' cs).bind fun p => afterLines? n p.2

/-- The text from a line on. Lines count from one, and line zero is the first
one as well. -/
def fromLine? (text : String) (line : Nat) : Option String :=
  (afterLines? (line - 1) text.toList).map String.ofList

/-- The text of the first form from a line on. -/
def sourceAtLine (text : String) (line : Nat) : Option String :=
  (fromLine? text line).bind fun rest => (readText rest).toOption

end Listener
