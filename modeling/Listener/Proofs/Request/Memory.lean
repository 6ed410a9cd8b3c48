/-
What a session remembers, in every run of requests and resets.

* `Arrival.value?`: the value that a delivery has to leave behind, told by its reply.
* `History.Shows`: a history shows values, the latest one first, and an error.
* `Traffic.Settled`: the history shows the values and the latest outcome of the deliveries
  so far, and the warning slot is empty; `settled_run` says that this holds in every run.
* `latest_values`: the latest three values at every moment of a run.
* `latest_error`: the latest error, the warning slot, what callers find of them, and where warnings
  come from; `error_of_another`: a caller need not find its own error.
-/
import Listener.Proofs.Request.Effects
import Listener.Proofs.Request.Runs
import Mathlib

namespace Listener

/-! ### Replies -/

/-- The reply before warnings are taken into account. -/
lemma reply_spec (d : Delivery) :
    d.reply.form = d.form ∧ d.reply.isSuccess = d.outcome.isOk ∧ d.reply.warning = none := by
  rw [Delivery.reply]
  split
  · rename_i h
    rw [h]
    exact ⟨rfl, rfl, rfl⟩
  · rename_i h
    rw [h]
    exact ⟨rfl, rfl, rfl⟩

/-- A warning leaves the form of a reply alone, and makes no success. -/
lemma resolveWarning_form (strict : Bool) (pending : Option String) (r : Reply) :
    (r.resolveWarning strict pending).form = r.form ∧
      (r.isSuccess = false → (r.resolveWarning strict pending).isSuccess = false) := by
  unfold Reply.resolveWarning
  split
  · exact ⟨rfl, id⟩
  · exact ⟨rfl, id⟩
  · rename_i h
    refine ⟨by split <;> rfl, fun hr => ?_⟩
    rw [Reply.isSuccess, h] at hr
    cases hr

/-- A reply carries the warning that was pending, or the one that it had. -/
lemma resolveWarning_warning {strict : Bool} {pending : Option String} {r : Reply} {m : String}
    (hr : r.warning = none) (h : (r.resolveWarning strict pending).warning = some m) :
    pending = some m := by
  unfold Reply.resolveWarning at h
  split at h
  · rw [hr] at h
    cases h
  · rw [hr] at h
    cases h
  · split at h
    · cases h
    · exact h

/-! ### Deliveries -/

/-- The value of a delivery that has to be remembered: the reply is a success, and its form
is recorded. -/
def Arrival.value? (a : Arrival) : Option Value :=
  match a.delivery.outcome with
  | .ok v => if a.reply.isSuccess && isRecorded a.reply.form then some v else none
  | .error _ => none

/-- Finished work adds its value to the history where the form is recorded, and only with
a success. -/
lemma prepared_value? {sub : Submission} {evaluation : Option Evaluation} {pending : Option String}
    {d : Delivery} (h : Prepared sub evaluation pending d) :
    d.effect.value? false = none ∧
      ∀ v, d.outcome = .ok v →
        d.effect.value? true = if isRecorded d.form then some v else none := by
  cases h with
  | unread h => exact ⟨rfl, fun v hv => by cases hv⟩
  | refused h ho => exact ⟨rfl, fun v hv => by cases hv⟩
  | served w hsource h ho =>
    refine ⟨serve_value?_false _ _, fun v hv => ?_⟩
    rw [serve_form]
    exact serve_value? _ _ hv

/-- A delivery adds exactly the value that has to be remembered. -/
lemma Arrival.Sound.value? {a : Arrival} (h : a.Sound) :
    a.delivery.effect.value? a.reply.isSuccess = a.value? := by
  obtain ⟨hprepared, strict, session, hdeliver⟩ := h
  obtain ⟨hfalse, htrue⟩ := prepared_value? hprepared
  obtain ⟨hform, hsuccess, -⟩ := reply_spec a.delivery
  have hreply : a.reply = a.delivery.reply.resolveWarning strict a.pending :=
    congrArg Prod.fst hdeliver
  obtain ⟨hform', hfails⟩ := resolveWarning_form strict a.pending a.delivery.reply
  rw [← hreply, hform] at hform'
  rw [← hreply, hsuccess] at hfails
  rw [Arrival.value?]
  cases ho : a.delivery.outcome with
  | error e =>
    rw [hfails (by rw [ho]; rfl)]
    exact hfalse
  | ok v =>
    -- a warning may have made a failure of the value
    cases a.reply.isSuccess with
    | false => simp [hfalse]
    | true => simp [hform', htrue v ho]

lemma deliver_history (strict : Bool) (pending : Option String) (d : Delivery) (s : Session) :
    (deliver strict pending d s).2.history =
      { s.history.pushAny (d.effect.value? (deliver strict pending d s).1.isSuccess) with
        error := (deliver strict pending d s).1.error? } := by
  have h := apply_history d.effect (deliver strict pending d s).1.isSuccess
    (s.recordWarning pending)
  simp only [deliver, Session.setError, Session.clearWarning] at h ⊢
  rw [h]
  rfl

/-- A sound delivery leaves its own error behind, and no warning. -/
lemma Arrival.Sound.left {a : Arrival} (h : a.Sound) :
    a.left.history.error = a.reply.error? ∧ a.left.warning = none := by
  obtain ⟨-, strict, session, hdeliver⟩ := h
  have hreply : a.reply = (deliver strict a.pending a.delivery session).1 :=
    congrArg Prod.fst hdeliver
  have hleft : a.left = (deliver strict a.pending a.delivery session).2 :=
    congrArg Prod.snd hdeliver
  rw [hreply, hleft]
  exact ⟨deliver_error _ _ _ _, deliver_warning _ _ _ _⟩

/-- A reply carries a warning only if the evaluation for its own submission has raised it. -/
lemma Arrival.Sound.raised {a : Arrival} (h : a.Sound) {message : String}
    (hmessage : a.reply.warning = some message) :
    ∃ e, a.evaluation = some e ∧ e.request.source = a.sub.source ∧
      readForm a.sub.source = .ok e.request.form ∧
      a.sub.options.normalize = .ok e.request.options ∧ e.warning? = some message := by
  obtain ⟨hprepared, strict, session, hdeliver⟩ := h
  have hreply : a.reply = a.delivery.reply.resolveWarning strict a.pending :=
    congrArg Prod.fst hdeliver
  rw [hreply] at hmessage
  have hpending := resolveWarning_warning (reply_spec a.delivery).2.2 hmessage
  generalize a.evaluation = evaluation, a.pending = pending, a.delivery = delivery
    at hprepared hpending
  cases hprepared with
  | unread h => cases hpending
  | refused h ho => cases hpending
  | served w hsource h ho => exact ⟨_, rfl, hsource, h, ho, hpending⟩

/-! ### Histories -/

/-- The history shows values, the latest one first, and an error. -/
def History.Shows (h : History) (values : List Value) (error : Option Error) : Prop :=
  h.one = values[0]? ∧ h.two = values[1]? ∧ h.three = values[2]? ∧ h.error = error

/-- One more value, if there is one, and another error. -/
lemma shows_pushAny {h : History} {values : List Value} {error : Option Error}
    (hs : h.Shows values error) (v : Option Value) (error' : Option Error) :
    ({ h.pushAny v with error := error' } : History).Shows (v.toList ++ values) error' := by
  obtain ⟨hone, htwo, hthree, -⟩ := hs
  cases v with
  | none => exact ⟨hone, htwo, hthree, rfl⟩
  | some v => exact ⟨rfl, hone, htwo, rfl⟩

/-- The error of the latest of some deliveries, if it is a failure. -/
def latestError? (log : List Arrival) : Option Error :=
  log.head?.bind fun a => a.reply.error?

/-- A caller was told of one of the deliveries until then, which are the first ones of all. It found
the error of the latest of them, and no warning. -/
structure Told.Settled (c : Told) (log : List Arrival) : Prop where
  /-- The deliveries until then. -/
  suffix : c.log <:+ log
  /-- Its own delivery is one of them. -/
  own : c.arrival ∈ c.log
  error : c.seen.history.error = latestError? c.log
  /-- The warning slot. -/
  warning : c.seen.warning = none

namespace Traffic

/-- The values that the deliveries so far have to leave behind, the latest one first. -/
def values (t : Traffic) : List Value :=
  t.log.filterMap Arrival.value?

/-- The history shows the values of the deliveries so far and the outcome of the latest
one, and no warning is left behind. Callers were told the like. -/
structure Settled (t : Traffic) : Prop where
  history : t.world.session.history.Shows t.values (latestError? t.log)
  /-- The warning slot. -/
  warning : t.world.session.warning = none
  /-- The callers. -/
  told : ∀ c ∈ t.told, c.Settled t.log

lemma settled_fresh (workspace : Workspace) : (fresh workspace).Settled :=
  ⟨⟨rfl, rfl, rfl, rfl⟩, rfl, by simp [fresh]⟩

/-- More deliveries do not touch what a caller was told. -/
lemma settled_told_append {c : Told} {log : List Arrival} (h : c.Settled log)
    (more : List Arrival) : c.Settled (more ++ log) :=
  ⟨h.suffix.trans (List.suffix_append more log), h.own, h.error, h.warning⟩

/-- A step that makes a sound delivery, or tells a caller of one, or neither, leaves the traffic
settled. -/
lemma settled_step {t : Traffic} (h : t.Settled) {w : World} {tasks : List Task}
    {event : Option Event} (hsound : ∀ a, event = some (.arrives a) → a.Sound)
    (hown : ∀ a seen, event = some (.tells a seen) → a ∈ t.log)
    (hsession : StepsSession t.world.session w.session event) :
    Settled ⟨w, tasks, (event.bind Event.arrival?).toList ++ t.log,
      (event.bind (Event.told? t.log)).toList ++ t.told⟩ := by
  cases event with
  | none =>
    obtain ⟨hhistory, hwarning⟩ := hsession
    refine ⟨?_, ?_, h.told⟩
    · show w.session.history.Shows t.values (latestError? t.log)
      rw [hhistory]
      exact h.history
    · rcases hwarning with hwarning | hwarning
      · exact hwarning.trans h.warning
      · exact hwarning
  | some event =>
    cases event with
    | arrives a =>
      obtain ⟨hleft, strict, hdeliver⟩ := hsession
      have hreply : a.reply = (deliver strict a.pending a.delivery t.world.session).1 :=
        congrArg Prod.fst hdeliver
      have hnext : a.left = (deliver strict a.pending a.delivery t.world.session).2 :=
        congrArg Prod.snd hdeliver
      have hvalue := (hsound a rfl).value?
      have hvalues : (a :: t.log).filterMap Arrival.value? = a.value?.toList ++ t.values := by
        rw [List.filterMap_cons]
        cases a.value? <;> rfl
      refine ⟨?_, ?_, fun c hc => settled_told_append (h.told c hc) [a]⟩
      · have hshows := shows_pushAny h.history a.value? a.reply.error?
        rw [← hvalue, hreply, ← deliver_history, ← hnext, ← hleft, ← hreply, hvalue, ← hvalues]
          at hshows
        exact hshows
      · exact hleft ▸ (hsound a rfl).left.2
    | tells a seen =>
      -- the session is the one of before, and the caller finds just this one
      obtain ⟨hnext, rfl⟩ := hsession
      refine ⟨hnext ▸ h.history, hnext ▸ h.warning, fun c hc => ?_⟩
      rcases List.mem_cons.mp hc with rfl | hc
      · exact ⟨List.suffix_refl _, hown a _ rfl, h.history.2.2.2, h.warning⟩
      · exact h.told c hc

/-- Every act leaves sound and settled traffic settled. -/
lemma Settled.act {t : Traffic} (h : t.Settled) (hsound : t.Sound) (a : Act) :
    (t.act a).Settled := by
  cases a with
  | begin call => exact ⟨h.history, h.warning, h.told⟩
  | forceInit => exact ⟨h.history, h.warning, h.told⟩
  | host change => exact ⟨h.history, h.warning, h.told⟩
  | step i =>
    simp only [Traffic.act]
    split
    · rename_i task hi
      have htask := List.mem_of_getElem? hi
      have hstep := sound_step (w := t.world) (hsound.tasks task htask)
      exact settled_step h hstep.arrival
        (fun a seen ha => hsound.telling task htask a (hstep.told a seen ha)) hstep.session
    · exact h

lemma settled_run {t : Traffic} (h : t.Settled) (hsound : t.Sound) (acts : List Act) :
    (t.run acts).Settled := by
  induction acts generalizing t with
  | nil => exact h
  | cons a acts ih => exact ih (h.act hsound a) (hsound.act a)

end Traffic

/-! ### The latest values and the latest error -/

/-- The traffic after a run that begins with a new session, on any workspace. -/
def Traffic.after (workspace : Workspace) (acts : List Act) : Traffic :=
  (Traffic.fresh workspace).run acts

/-- At every moment of every run the history holds the values of the latest three
deliveries whose reply is a success and whose form is recorded; the places behind them are
not set. -/
theorem latest_values (workspace : Workspace) (acts : List Act) :
    (Traffic.after workspace acts).world.session.history.one =
        ((Traffic.after workspace acts).log.filterMap Arrival.value?)[0]? ∧
      (Traffic.after workspace acts).world.session.history.two =
        ((Traffic.after workspace acts).log.filterMap Arrival.value?)[1]? ∧
      (Traffic.after workspace acts).world.session.history.three =
        ((Traffic.after workspace acts).log.filterMap Arrival.value?)[2]? := by
  obtain ⟨hone, htwo, hthree, -⟩ := (Traffic.settled_run (Traffic.settled_fresh workspace)
    (Traffic.sound_fresh workspace) acts).history
  exact ⟨hone, htwo, hthree⟩

/-- At every moment of every run the latest error is that of the latest delivery and the warning
slot is empty, and every delivery leaves them so. A reply carries a warning only if the evaluation
for this very request, with what it had seen of the session and on the workspace of that moment, has
raised it. A caller that is told finds the latest error of that moment, which is that of its own
delivery unless there was another one since, and an empty warning slot. -/
theorem latest_error (workspace : Workspace) (acts : List Act) :
    let t := Traffic.after workspace acts
    t.world.session.history.error = t.log.head?.bind (fun a => a.reply.error?) ∧
      t.world.session.warning = none ∧
      (∀ a ∈ t.log, a.left.history.error = a.reply.error? ∧ a.left.warning = none ∧
        ∀ message, a.reply.warning = some message →
          ∃ e, a.evaluation = some e ∧ e.request.source = a.sub.source ∧
            readForm a.sub.source = .ok e.request.form ∧
            a.sub.options.normalize = .ok e.request.options ∧ e.warning? = some message) ∧
      ∀ c ∈ t.told, ∃ since before, c.log = since ++ c.arrival :: before ∧ c.log <:+ t.log ∧
        c.seen.history.error = (since.head?.getD c.arrival).reply.error? ∧
        c.seen.warning = none := by
  intro t
  have hsettled := Traffic.settled_run (Traffic.settled_fresh workspace)
    (Traffic.sound_fresh workspace) acts
  have hsound := Traffic.sound_run (Traffic.sound_fresh workspace) acts
  refine ⟨hsettled.history.2.2.2, hsettled.warning, fun a ha => ?_, fun c hc => ?_⟩
  · obtain ⟨herror, hwarning⟩ := (hsound.log a ha).left
    exact ⟨herror, hwarning, fun message => (hsound.log a ha).raised⟩
  · have htold := hsettled.told c hc
    obtain ⟨since, before, hlog⟩ := List.append_of_mem htold.own
    refine ⟨since, before, hlog, htold.suffix, ?_, htold.warning⟩
    rw [htold.error, hlog]
    cases since <;> rfl

/-- A caller need not find the error of its own reply. A request fails and is delivered, another one
is delivered with a success, and only then the first caller is told: it finds no error. -/
theorem error_of_another :
    let refused : Submission := ⟨"nil", { reader := some (.table []) }⟩
    let enters : Submission := ⟨"(in-ns 'cljs.user)", {}⟩
    let t := Traffic.after .initial
      ([.begin (.request refused), .begin (.request enters), .step 0, .step 0] ++
        List.replicate 5 (.step 1) ++ [.step 0])
    t.told.map (fun c => (c.arrival.reply.error?, c.seen.history.error)) =
      [(some (.config
          "Invalid options: :read-file-fn! requires :src-paths to build a load function"),
        none)] := by
  intro refused enters t
  let e : Error :=
    .config "Invalid options: :read-file-fn! requires :src-paths to build a load function"
  let form : Form := .list [.ofName "in-ns", .quote (.symbol defaultNamespace)]
  have hrefused : readForm refused.source = .ok .nil := by
    show readForm "nil" = _
    cbv
  have henters : readForm enters.source = .ok form := by
    show readForm "(in-ns 'cljs.user)" = _
    cbv
  have hfirst : Task.step {} [.ofSubmission refused] =
      ({}, [.serve refused (.served false none (.ofError .nil e)) none], none) := by
    simp only [Task.step, Job.ofSubmission, Stage.step, Stage.submit, hrefused]
    rfl
  let w : World := { session := { history := { error := some e } } }
  have hsecond : Task.step w [.ofSubmission enters] =
      ({ w with session := w.session.claimInit.2 },
        [.serve enters (.initializing enters form ⟨{}, 0, none, .nothing⟩ defaultNamespace 0) none],
        none) := by
    simp only [Task.step, Job.ofSubmission, Stage.step, Stage.submit, henters]
    rfl
  -- the first request fails, and its caller is still to be told
  obtain ⟨a, herror, hfailed⟩ : ∃ a, a.reply.error? = some e ∧
      (Traffic.fresh .initial).run
          [.begin (.request refused), .begin (.request enters), .step 0, .step 0] =
        ⟨w, [[.tell a], [.ofSubmission enters]], [a], []⟩ := by
    have hbegun : (Traffic.fresh .initial).run
          [.begin (.request refused), .begin (.request enters)] =
        ⟨{}, [[.ofSubmission refused], [.ofSubmission enters]], [], []⟩ := rfl
    have hrun := Traffic.run_append (.fresh .initial)
      [.begin (.request refused), .begin (.request enters)] [.step 0, .step 0]
    rw [hbegun, Traffic.run_cons, Traffic.act_step (i := 0) rfl hfirst] at hrun
    refine ⟨⟨refused, none, none, .ofError .nil e, .ofError .nil none e, w.session⟩, rfl, hrun⟩
  -- the second one succeeds, and only then the first caller is told
  have htold : t.told = (Traffic.run ⟨w, [[.tell a], [.ofSubmission enters]], [a], []⟩
      (List.replicate 5 (.step 1) ++ [.step 0])).told := by
    rw [← hfailed, ← Traffic.run_append]
    rfl
  rw [List.replicate_succ, List.cons_append, Traffic.run_cons,
    Traffic.act_step (i := 1) rfl hsecond] at htold
  rw [htold]
  exact congrArg (fun error => [(error, none)]) herror

end Listener
