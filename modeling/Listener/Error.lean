/-
Errors: everything that a request can fail with.

* `Error`: the kinds, each with what it carries.
* `Error.message`, `Error.kind`, `Error.code`: how an error is named.
* `Error.trace`: the message with the stack and all causes, outermost first;
  `Error.appendCauses` goes through the causes one by one.
-/
import Listener.Form.Printer

namespace Listener

/-- The error of a failed request, also kept as the value of the last error. -/
inductive Error where
  /-- The text does not read; `offset` counts the bytes before the place. -/
  | reader (message source : String) (offset : Option Nat)
  /-- An argument of a directive has the wrong shape. -/
  | argument (message : String)
  /-- A directive that is known but not served. -/
  | unsupported (keyword : String)
  /-- Options that cannot be served. -/
  | config (message : String)
  /-- A warning that counts as an error. -/
  | warning (message : String)
  /-- A failed evaluation. -/
  | eval (message : String) (cause : Option Error) (stack : Option String) (data : Option Form)
  /-- The caller broke a condition. -/
  | precondition (message : String)

instance : Inhabited Error := ⟨.argument ""⟩

namespace Error

/-- A failed evaluation with nothing but a message. -/
def failed (message : String) : Error :=
  .eval message none none none

/-- The error with a cause. Only a failed evaluation has one. -/
def withCause (e cause : Error) : Error :=
  match e with
  | .eval message _ stack data => .eval message (some cause) stack data
  | e => e

/-- The error with a stack. Only a failed evaluation has one. -/
def withStack (e : Error) (stack : String) : Error :=
  match e with
  | .eval message cause _ data => .eval message cause (some stack) data
  | e => e

/-- What went wrong, in words. -/
def message : Error → String
  | .reader message _ _ => message
  | .argument message => message
  | .unsupported keyword => "The " ++ keyword ++ " keyword is not supported at the moment"
  | .config message => message
  | .warning message => message
  | .eval message _ _ _ => message
  | .precondition message => message

/-- The cause of a failed evaluation. -/
def cause? : Error → Option Error
  | .eval _ cause _ _ => cause
  | _ => none

/-- The stack of a failed evaluation. -/
def stack? : Error → Option String
  | .eval _ _ stack _ => stack
  | _ => none

/-- The data of a failed evaluation. -/
def data? : Error → Option Form
  | .eval _ _ _ data => data
  | _ => none

/-- The word for the kind of an error. -/
def kind : Error → String
  | .reader _ _ _ => "reader"
  | .argument _ => "argument"
  | .unsupported _ => "unsupported"
  | .config _ => "config"
  | .warning _ => "warning"
  | .eval _ _ _ _ => "eval"
  | .precondition _ => "precondition"

/-- The code under which an error is documented. -/
def code (e : Error) : String :=
  "reval::" ++ e.kind

/-- What the caller can do about an error. -/
def help? : Error → Option String
  | .precondition _ => some "purge every dependent namespace before resetting the environment"
  | _ => none

/-! ### Traces -/

/-- The message, and below it the stack without the white space at its end. -/
def head (message : String) (stack : Option String) : String :=
  match stack with
  | some stack => message ++ "\n" ++ String.ofList (Text.trimEnd Text.isWhite stack.toList)
  | none => message

/-- What a trace shows of one error: its message, and below it its stack, if there is one. -/
def headText (e : Error) : String :=
  head e.message e.stack?

/-- A cause is smaller than the error. -/
theorem sizeOf_cause?_lt (e : Error) : sizeOf e.cause? < sizeOf (some e) := by
  cases e <;> simp +arith [cause?]

/-- The text `out`, and behind it what a trace shows of a cause and of its causes, one by one. -/
def appendCauses (out : String) (cause : Option Error) : String :=
  match cause with
  | none => out
  | some c => appendCauses (out ++ "\nCaused by: " ++ c.headText) c.cause?
termination_by sizeOf cause
decreasing_by exact sizeOf_cause?_lt c

/-- The message and the stack of an error, then those of its causes. -/
def trace (e : Error) : String :=
  appendCauses e.headText e.cause?

end Error

end Listener
