/-
The history of a session: the latest three values and the latest error.

* `History.push`: a new value.
* `History.lookup?`: the value of one of the variables `*1`, `*2`, `*3`, `*e`.
-/
import Listener.Value

namespace Listener

/-- The latest values, newest first, and the latest error. -/
structure History where
  /-- The latest value. -/
  one : Option Value := none
  /-- The value before. -/
  two : Option Value := none
  /-- The value before that. -/
  three : Option Value := none
  /-- The latest error, unless something has succeeded since. -/
  error : Option Error := none

namespace History

/-- The names of the variables. -/
def names : List String := ["*1", "*2", "*3", "*e"]

/-- Whether a symbol names one of the variables. -/
def isVariable (s : Symbol) : Bool :=
  names.contains s.text

/-- The value of a variable; one that is not set is nil. -/
def lookup? (h : History) (s : Symbol) : Option Value :=
  if s.text = "*1" then some (h.one.getD .nil)
  else if s.text = "*2" then some (h.two.getD .nil)
  else if s.text = "*3" then some (h.three.getD .nil)
  else if s.text = "*e" then some ((h.error.map Value.error).getD .nil)
  else none

/-- The history with a new value in front. -/
def push (h : History) (v : Value) : History :=
  { h with one := some v, two := h.one, three := h.two }

end History

end Listener
