/-
Requests: a form that was read, with all that it is served with.

* `Request`: the form, its text, the options, and what was seen of the session
  when the request began.
* `Request.evalOptions`: the options of the evaluations for a request.
-/
import Listener.Evaluator

namespace Listener

/-- A request that is ready to be served. -/
structure Request where
  /-- The form that was read. -/
  form : Form
  /-- The text it was read from. -/
  source : String
  /-- The current namespace when the request began. -/
  ns : Symbol
  options : RequestOptions
  /-- Where sources come from. -/
  loader : Source.Loader
  /-- The history when the request began. -/
  history : History

/-- The options of an evaluation in a namespace. -/
def Request.evalOptions (r : Request) (ns : Symbol) : EvalOptions where
  ns := ns
  verbose := r.options.settings.verbose
  target := r.options.settings.target
  loader := r.loader
  history := r.history

end Listener
