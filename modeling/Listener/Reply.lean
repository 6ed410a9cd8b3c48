/-
Replies: the one answer to each request.

* `Reply`: a value as text or an error, with the form it answers and a warning.
* `Reply.ofValue`, `Reply.resolveWarning`: how a reply comes about. A pending
  warning goes with a success, or takes its place where warnings count as errors.
* `Reply.toJson`: the reply as a JSON object.
-/
import Listener.Json.Basic
import Listener.Value

namespace Listener

/-- The answer to a request. -/
structure Reply where
  /-- The form that was read. -/
  form : Form
  /-- A warning that goes with a success. -/
  warning : Option String
  /-- The text of the value, or the error. -/
  outcome : Except Error String

/-- How a value becomes text. -/
inductive Printing where
  /-- As it would be read. -/
  | readable
  /-- With strings and characters standing for themselves. -/
  | raw
  deriving DecidableEq

namespace Reply

def valueText : Printing → Value → String
  | .readable, v => v.print
  | .raw, v => v.rawText

def ofValue (printing : Printing) (form : Form) (warning : Option String) (v : Value) : Reply :=
  ⟨form, warning, .ok (valueText printing v)⟩

def ofError (form : Form) (warning : Option String) (e : Error) : Reply :=
  ⟨form, warning, .error e⟩

def isSuccess (r : Reply) : Bool :=
  match r.outcome with
  | .ok _ => true
  | .error _ => false

def value? (r : Reply) : Option String :=
  match r.outcome with
  | .ok text => some text
  | .error _ => none

def error? (r : Reply) : Option Error :=
  match r.outcome with
  | .ok _ => none
  | .error e => some e

/-- The reply with a pending warning taken into account. An error wins over a
warning. A strict request fails with the warning, any other carries it. -/
def resolveWarning (strict : Bool) (pending : Option String) (r : Reply) : Reply :=
  match pending, r.outcome with
  | none, _ => r
  | some _, .error _ => r
  | some message, .ok _ =>
    if strict then ofError r.form none (.warning message)
    else { r with warning := some message }

/-- What is shown of a reply: the value or the message, with the trace on
request. -/
def display (r : Reply) (withTrace : Bool) : String :=
  match r.outcome with
  | .ok text => text
  | .error e => if withTrace then e.trace else e.message

end Reply

/-! ### JSON -/

/-- An error as a JSON object. The stack, the data and the cause appear where
there are any. -/
def Error.toJson : Error → Json
  | .eval message cause stack data =>
    let fields := [("kind", Json.ofString "eval"), ("code", Json.ofString "reval::eval"),
      ("message", Json.ofString message)]
    let stack := (stack.map fun s => ("stack", Json.ofString s)).toList
    let data := (data.map fun d => ("data", Json.ofString d.print)).toList
    let cause := match cause with
      | some c => [("cause", c.toJson)]
      | none => []
    Json.ofMembers (fields ++ stack ++ data ++ cause)
  | e =>
    Json.ofMembers [("kind", Json.ofString e.kind), ("code", Json.ofString e.code),
      ("message", Json.ofString e.message)]

def Reply.toJson (r : Reply) : Json :=
  let outcome := match r.outcome with
    | .ok text => ("value", Json.ofString text)
    | .error e => ("error", e.toJson)
  let warning := (r.warning.map fun w => ("warning", Json.ofString w)).toList
  Json.ofMembers ([("success", Json.bool r.isSuccess), ("form", Json.ofString r.form.print),
    outcome] ++ warning)

end Listener
