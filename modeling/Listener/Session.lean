/-
The session: what is kept from one request to the next.

* `Session`: the current namespace, the warning slot, the flags of
  initialization, the module index and the history.
* `Session.claimInit` and the other transitions: the only ways it changes.
-/
import Listener.Session.History
import Listener.Session.InitState
import Listener.Session.ModuleIndex

namespace Listener

/-- The namespace that a session starts in. -/
def defaultNamespace : Symbol := ⟨"cljs.user"⟩

/-- The state of a session. -/
structure Session where
  /-- The current namespace. -/
  current : Symbol := defaultNamespace
  /-- The warning of the request that is being delivered. -/
  warning : Option String := none
  /-- Whether the environment is initialized. -/
  init : InitState := {}
  /-- The module index. -/
  index : ModuleIndex := {}
  /-- The latest values and the latest error. -/
  history : History := {}

namespace Session

/-- The session in another namespace. -/
def enter (s : Session) (ns : Symbol) : Session :=
  { s with current := ns }

def recordWarning (s : Session) (warning : Option String) : Session :=
  { s with warning := warning }

def clearWarning (s : Session) : Session :=
  { s with warning := none }

/-- The session with a new latest value. -/
def remember (s : Session) (v : Value) : Session :=
  { s with history := s.history.push v }

/-- The session with another latest error, or with none. -/
def setError (s : Session) (e : Option Error) : Session :=
  { s with history := { s.history with error := e } }

/-- The answer to a claim, and the session after it. -/
def claimInit (s : Session) : Claim × Session :=
  let (claim, init) := s.init.claim
  (claim, { s with init := init })

/-- The session when initialization is finished. -/
def finishInit (s : Session) : Session :=
  { s with init := s.init.finish }

/-- The session that initializes again. -/
def forceInit (s : Session) : Session :=
  { s with init := s.init.force }

/-- The session with more pairs in its module index. -/
def mergeIndex (s : Session) (pairs : List (Symbol × String)) : Session :=
  { s with index := s.index.merge pairs }

/-- What stands at the start of a line of input. -/
def prompt (s : Session) : String :=
  s.current.text ++ "=> "

end Session

end Listener
