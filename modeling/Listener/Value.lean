/-
Values: what an evaluation results in.

* `Value`: a form or an error; errors are values, so the last one can be looked
  at.
* `Value.print`, `Value.rawText`, `Value.trace`: the three ways to write one.
-/
import Listener.Error

namespace Listener

/-- The result of an evaluation. -/
inductive Value where
  /-- A form. -/
  | data (form : Form)
  | error (e : Error)

instance : Inhabited Value := ⟨.data .nil⟩

namespace Value

def nil : Value := .data .nil

/-- All values but nil and false count as true. -/
def isTruthy : Value → Bool
  | .data form => form.isTruthy
  | .error _ => true

/-- The text of a value, as it would be read. -/
def print : Value → String
  | .data form => form.print
  | .error e => "#error \x7b:message " ++ (Form.str e.message).print ++ "\x7d"

/-- The text of a value, where strings and characters stand for themselves. -/
def rawText : Value → String
  | .data form => form.rawText
  | .error e => e.message

/-- What a trace shows of a value: all of an error, and nil for false. -/
def trace : Value → String
  | .error e => e.trace
  | .data form => if form.isTruthy then form.print else "nil"

end Value

end Listener
