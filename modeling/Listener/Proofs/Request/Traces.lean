/-
What `pst` shows of the request before.

* `Form.AsksTrace`: a call of `pst` without an argument.
* `traceOrNil`: the trace of an error, or nil where there is none.
* `serve_trace`: such a call is answered with the latest error that the request has seen, without a
  warning.
* `World.serve_asksTrace`: the reply is the trace as it is, and no error is left behind.
* `trace_latest`: after every run this is the trace of the latest delivery, once.
-/
import Listener.Proofs.Error.Chain
import Listener.Proofs.Request.Alone
import Listener.Proofs.Request.Memory

namespace Listener

/-- The form asks for the trace of the latest error: it calls `pst` without an argument. -/
def Form.AsksTrace (form : Form) : Prop :=
  Directive.classify? form = some .trace ∧ form.args = []

/-- The trace of an error, or nil where there is none. -/
def traceOrNil (e : Option Error) : String :=
  (e.map Error.trace).getD "nil"

lemma lookup?_error (h : History) :
    h.lookup? ⟨"*e"⟩ = some ((h.error.map Value.error).getD .nil) := rfl

/-- The trace of the value of `*e` is the trace of the latest error. -/
lemma trace_error (e : Option Error) :
    ((e.map Value.error).getD .nil).trace = traceOrNil e := by
  cases e <;> rfl

/-- A call of `pst` without an argument is answered with the trace of the latest error that the
request has seen. The evaluation is noted down, and there is no warning. -/
theorem serve_trace {r : Request} (h : r.form.AsksTrace) (s : EvalState) :
    serve r s =
      (.ofText r.form (traceOrNil r.history.error),
        { s with workspace :=
          { s.workspace with calls := s.workspace.calls ++ [r.evalOptions r.ns] } }) := by
  have hargument : traceArgument? r.form = some (.symbol ⟨"*e"⟩) := by
    rw [traceArgument?, h.2]
    rfl
  have hlookup := lookup?_error (r.evalOptions r.ns).history
  simp only [serve, h.1, Directive.serve, serveTrace, hargument, Workspace.evalForm_eq, Eval.form,
    bind, Eval.change, evalForm, evalSymbol, hlookup, pure, EvalOptions.here, trace_error]
  rfl

namespace World

variable {sub : Submission} {form : Form} {o : RequestOptions}

/-- A request for the trace is answered with the trace of the latest error, as it is and whatever
the say on warnings, and leaves no error behind. -/
theorem serve_asksTrace (hform : readForm sub.source = .ok form) (hasks : form.AsksTrace)
    (ho : sub.options.normalize = .ok o) (w : World) :
    (w.serve sub).2.reply = ⟨form, none, .ok (traceOrNil w.session.history.error)⟩ ∧
      (w.serve sub).1.session.history.error = none := by
  have hhistory := (afterInit_frame w form o).2.2
  have hserve := serve_trace (r := w.request sub form o) hasks
  have hdue : (w.due sub).pending = none ∧
      (w.due sub).delivery = .ofText form (traceOrNil w.session.history.error) := by
    simp only [due, hform, ho, attend, hserve]
    refine ⟨trivial, ?_⟩
    rw [← hhistory]
    rfl
  rw [serve_eq_deliver, Due.deliver, hdue.1, hdue.2]
  exact ⟨rfl, rfl⟩

end World

/-- After every run, a request for the trace that is served in one go succeeds with the trace of the
error of the latest delivery, and with nil if that was a success or if there was none. A second
such request behind the first one succeeds with nil. -/
theorem trace_latest (workspace : Workspace) (acts : List Act) {sub : Submission} {form : Form}
    {o : RequestOptions} (hform : readForm sub.source = .ok form) (hasks : form.AsksTrace)
    (ho : sub.options.normalize = .ok o) :
    let before := Traffic.after workspace acts
    let served := before.world.serve sub
    served.2.reply =
        ⟨form, none,
          .ok (traceOrNil (before.log.head?.bind fun a => a.reply.error?))⟩ ∧
      ∀ {again : Submission} {form' : Form} {o' : RequestOptions},
        readForm again.source = .ok form' → form'.AsksTrace → again.options.normalize = .ok o' →
          (served.1.serve again).2.reply = ⟨form', none, .ok "nil"⟩ := by
  intro before served
  have hlatest : before.world.session.history.error =
      before.log.head?.bind fun a => a.reply.error? :=
    (Traffic.settled_run (Traffic.settled_fresh workspace)
      (Traffic.sound_fresh workspace) acts).history.2.2.2
  obtain ⟨hreply, hnone⟩ := World.serve_asksTrace hform hasks ho before.world
  refine ⟨hlatest ▸ hreply, fun hform' hasks' ho' => ?_⟩
  rw [(World.serve_asksTrace hform' hasks' ho' served.1).1, hnone]
  rfl

/-- A call of `throw`, with a message and a cause. -/
def throwForm : Form :=
  .list [.ofName "throw", .keyword "a", .keyword "b"]

/-- The error of that call, with a stack and a cause. -/
def thrown : Error :=
  .eval ":a" (some (.failed ":b")) (some "at eval (<repl>:1)") none

/-- The call is evaluated to its error, which is noted down. -/
lemma serve_throw {r : Request} (hform : r.form = throwForm)
    (hsource : readForm r.source = .ok throwForm) (s : EvalState) :
    serve r s = (.ofError throwForm thrown,
      { s with workspace :=
        { s.workspace with
          calls := s.workspace.calls ++ [r.evalOptions r.ns]
          sources := s.workspace.sources ++ [r.source] } }) := by
  have hd : Directive.classify? throwForm = none := by decide
  have hhead : Operator.ofHead (.ofName "throw") = .throwError := rfl
  simp only [serve, hform, hd, serveOrdinary, Workspace.evalSource_eq, Eval.source, bind,
    Eval.change, Eval.ofExcept, hsource]
  simp only [throwForm, evalForm, hhead]
  rfl

/-- A failed evaluation with a stack and a cause, shown once. -/
theorem trace_latest_thrown :
    let throws : Submission := ⟨"(throw :a :b)", {}⟩
    let shows : Submission := ⟨"(pst)", {}⟩
    let form : Form := .list [.ofName "pst"]
    readForm shows.source = .ok form ∧ form.AsksTrace ∧
      ∃ n, let before := Traffic.after .initial (.begin (.request throws) :: .replicate n (.step 0))
        (before.world.serve shows).2.reply =
            ⟨form, none, .ok ":a\nat eval (<repl>:1)\nCaused by: :b"⟩ ∧
          ((before.world.serve shows).1.serve shows).2.reply = ⟨form, none, .ok "nil"⟩ := by
  intro throws shows form
  have hthrow : readForm throws.source = .ok throwForm := by
    show readForm "(throw :a :b)" = _
    cbv
  have hform : readForm shows.source = .ok form := by
    show readForm "(pst)" = _
    cbv
  have hasks : form.AsksTrace := ⟨by decide, rfl⟩
  have ho : ({} : Options).normalize = .ok ⟨{}, 0, none, .nothing⟩ := rfl
  have hreply (w : World) : (w.serve throws).2.reply = ⟨throwForm, none, .error thrown⟩ := by
    rw [serve_eq_deliver]
    simp only [World.due, hthrow, throws, ho, World.attend,
      serve_throw (r := w.request throws throwForm _) rfl hthrow]
    rfl
  obtain ⟨n, a, hrun, -, hdelivered⟩ := Traffic.run_serve (.fresh .initial) throws
  refine ⟨hform, hasks, n, ?_⟩
  obtain ⟨hfirst, hsecond⟩ :=
    trace_latest .initial (.begin (.request throws) :: .replicate n (.step 0)) hform hasks ho
  have hlog : (Traffic.after .initial
      (.begin (.request throws) :: .replicate n (.step 0))).log = [a] :=
    congrArg Traffic.log hrun
  have herror : a.reply.error? = some thrown := by
    rw [hdelivered, hreply]
    rfl
  have htrace : thrown.trace = ":a\nat eval (<repl>:1)\nCaused by: :b" := by
    rw [Error.trace_caused (show thrown.cause? = some (.failed ":b") from rfl),
      Error.trace_root rfl]
    decide
  rw [hlog, List.head?_cons, Option.bind_some, herror, traceOrNil, Option.map_some,
    Option.getD_some, htrace] at hfirst
  exact ⟨hfirst, hsecond hform hasks ho⟩

end Listener
