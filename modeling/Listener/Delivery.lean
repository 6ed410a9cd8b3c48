/-
Delivery: how a finished request reaches its caller and the session.

* `Change`, `Effect`: what a request does to the session. An effect happens
  whatever the reply is, or only with a success.
* `deliver`: the one way out. The pending warning is resolved, the effect
  happens, the warning slot is cleared and the latest error is set;
  `deliver_error` and `deliver_warning` say what this leaves behind.
-/
import Listener.Reply
import Listener.Session

namespace Listener

/-- A change of the session: a value to remember, and the namespace to enter. -/
structure Change where
  /-- The new latest value, if there is one. -/
  value : Option Value := none
  /-- The namespace that is entered. -/
  ns : Symbol

/-- The session after a change. -/
def Change.apply (c : Change) (s : Session) : Session :=
  match c.value with
  | some v => (s.remember v).enter c.ns
  | none => s.enter c.ns

/-- The change that goes with a reply. -/
inductive Effect where
  /-- No change. -/
  | none
  /-- A change whatever the reply is. -/
  | always (c : Change)
  /-- A change with a success only. -/
  | onSuccess (c : Change)

/-- The session after the change that goes with a reply. -/
def Effect.apply (e : Effect) (success : Bool) (s : Session) : Session :=
  match e with
  | .none => s
  | .always c => c.apply s
  | .onSuccess c => if success then c.apply s else s

/-- The finished work of a request. -/
structure Delivery where
  /-- The form that was read. -/
  form : Form
  /-- The value or the error. -/
  outcome : Except Error Value
  /-- How the value becomes text. -/
  printing : Printing := .readable
  /-- What happens to the session. -/
  effect : Effect := .none

namespace Delivery

/-- A failure without an effect. -/
def ofError (form : Form) (e : Error) : Delivery :=
  { form, outcome := .error e }

/-- A text to be shown as it is. -/
def ofText (form : Form) (text : String) : Delivery :=
  { form, outcome := .ok (.data (.str text)), printing := .raw }

/-- The reply before warnings are taken into account. -/
def reply (d : Delivery) : Reply :=
  match d.outcome with
  | .ok v => Reply.ofValue d.printing d.form none v
  | .error e => Reply.ofError d.form none e

end Delivery

/-- The reply to a request and the session that its caller finds. -/
def deliver (strict : Bool) (pending : Option String) (d : Delivery) (s : Session) :
    Reply × Session :=
  let reply := d.reply.resolveWarning strict pending
  let s := d.effect.apply reply.isSuccess (s.recordWarning pending)
  (reply, s.clearWarning.setError reply.error?)

/-- The latest error is the error of the latest reply. -/
theorem deliver_error (strict : Bool) (pending : Option String) (d : Delivery) (s : Session) :
    (deliver strict pending d s).2.history.error = (deliver strict pending d s).1.error? := rfl

/-- No warning is left behind. -/
theorem deliver_warning (strict : Bool) (pending : Option String) (d : Delivery) (s : Session) :
    (deliver strict pending d s).2.warning = none := rfl

end Listener
