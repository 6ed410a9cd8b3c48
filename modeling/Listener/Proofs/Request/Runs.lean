/-
Runs: requests and resets that are under way together, their steps in any order.

* `Job`, `Task.step`: what a request or a reset has to do, one atomic step at a time.
* `Arrival`, `Told`: a delivery with the evaluation it comes from, and a caller that was told.
* `Traffic`: all tasks that are under way, what they share, the deliveries so far, and the callers
  that were told.
* `Traffic.run`: a run of any acts from outside and any steps of the tasks.
* `Prepared`: how a delivery comes about; `Traffic.sound_run` says that in every run all
  deliveries come about in this way, each for the submission it belongs to.
* `run_serve`: a request without anything between its steps is a run.
-/
import Listener.Request.Reset
import Mathlib.Tactic.Lemma

namespace Listener

/-! ### Tasks -/

/-- What was evaluated for a request: the request with all that it had seen of the session, and the
workspace at that moment. -/
structure Evaluation where
  request : Request
  /-- The workspace it was served in. -/
  workspace : Workspace

/-- The warning that an evaluation raises. It starts without one, and the latest one is kept. -/
def Evaluation.warning? (e : Evaluation) : Option String :=
  (serve e.request { workspace := e.workspace }).2.warnings.pending

/-- A delivery that has taken place. -/
structure Arrival where
  /-- What was submitted. -/
  sub : Submission
  /-- What was evaluated for it, if anything was. -/
  evaluation : Option Evaluation
  /-- The warning that waited for the delivery. -/
  pending : Option String
  /-- The finished work. -/
  delivery : Delivery
  reply : Reply
  /-- The session that the delivery left behind. -/
  left : Session

/-- Something that a task has to do. -/
inductive Job where
  /-- A submission is served; the stage says how far it has come. With it goes what the latest step
  has evaluated, if it has evaluated anything. -/
  | serve (sub : Submission) (stage : Stage) (evaluation : Option Evaluation)
  /-- A caller is told the reply that was delivered. -/
  | tell (arrival : Arrival)
  /-- A namespace is purged. -/
  | purge (name : Symbol)
  /-- What is left to do is given up while something is loaded. -/
  | check
  /-- The warning slot is cleared. -/
  | clearWarning

/-- What is left to do for a task, in order. -/
abbrev Task := List Job

/-- A submission that is still to be served. -/
def Job.ofSubmission (sub : Submission) : Job :=
  .serve sub (.submitted sub) none

/-- What a caller may ask for. -/
inductive Call where
  /-- A submission is served. -/
  | request (sub : Submission)
  /-- Namespaces are purged and the session goes back to its start. -/
  | reset (options : Options) (names : List Symbol)

/-- What a reset has left to do when nothing is loaded. -/
def settleTask (options : Options) : Task :=
  [.clearWarning, .ofSubmission (World.clearError options),
    .ofSubmission (World.enterDefault options)]

/-- The jobs of a call. -/
def Call.task : Call → Task
  | .request sub => [.ofSubmission sub]
  | .reset options names => names.map .purge ++ .check :: settleTask options

namespace Stage

/-- The finished work that waits for its delivery, with the pending warning. -/
def waiting? : Stage → Option (Option String × Delivery)
  | .served _ pending delivery => some (pending, delivery)
  | _ => none

/-- What the next step evaluates, if it evaluates anything. -/
def evaluation? (w : Workspace) : Stage → Option Evaluation
  | .seen request => some ⟨request, w⟩
  | _ => none

/-- The reply, once it is delivered. -/
def reply? : Stage → Option Reply
  | .answered reply => some reply
  | .delivered d => some d.reply
  | _ => none

end Stage

/-- Something that others hear of. -/
inductive Event where
  /-- A reply is delivered to the session. -/
  | arrives (arrival : Arrival)
  /-- A caller is told its reply, and finds the session like this. -/
  | tells (arrival : Arrival) (seen : Session)

/-- The next step of a task, with what others hear of it. -/
def Task.step (w : World) : Task → World × Task × Option Event
  | [] => (w, [], none)
  | .purge name :: jobs => ({ w with workspace := w.workspace.purge name }, jobs, none)
  | .check :: jobs => (w, if w.workspace.loaded.isEmpty then jobs else [], none)
  | .clearWarning :: jobs => ({ w with session := w.session.clearWarning }, jobs, none)
  | .serve sub stage evaluation :: jobs =>
    let (next, stage') := stage.step w
    match stage.waiting?, stage'.reply? with
    | some (pending, delivery), some reply =>
      let arrival := ⟨sub, evaluation, pending, delivery, reply, next.session⟩
      (next, .tell arrival :: jobs, some (.arrives arrival))
    | _, _ => (next, .serve sub stage' (stage.evaluation? w.workspace) :: jobs, none)
  | .tell arrival :: jobs =>
    match (Stage.answered arrival.reply).step w with
    | (next, .delivered d) => (next, jobs, some (.tells arrival d.seen))
    | (next, _) => (next, jobs, none)

/-! ### Runs -/

/-- A caller that was told its reply. -/
structure Told where
  /-- The delivery it was told of. -/
  arrival : Arrival
  /-- The session as the caller found it. -/
  seen : Session
  /-- All deliveries until then, the latest one first. -/
  log : List Arrival

/-- The delivery that others hear of. -/
def Event.arrival? : Event → Option Arrival
  | .arrives a => some a
  | .tells _ _ => none

/-- The caller that is told, with the deliveries until then. -/
def Event.told? (log : List Arrival) : Event → Option Told
  | .arrives _ => none
  | .tells a seen => some ⟨a, seen, log⟩

/-- The tasks that are under way, what they share, and what was heard of them. -/
structure Traffic where
  /-- What the tasks share. -/
  world : World
  tasks : List Task
  /-- The deliveries so far, the latest one first. -/
  log : List Arrival
  /-- The callers that were told, the latest one first. -/
  told : List Told

/-- Something that happens in a run. -/
inductive Act where
  /-- A call begins. -/
  | begin (call : Call)
  /-- The task with a number makes its next step. -/
  | step (i : Nat)
  /-- The next request is made to initialize. -/
  | forceInit
  /-- The workspace is changed from outside. -/
  | host (change : Workspace → Workspace)

namespace Traffic

/-- A listener with a new session, on any workspace. -/
def fresh (workspace : Workspace) : Traffic :=
  ⟨{ workspace := workspace }, [], [], []⟩

def act (t : Traffic) : Act → Traffic
  | .begin call => { t with tasks := t.tasks ++ [call.task] }
  | .step i =>
    match t.tasks[i]? with
    | some task =>
      let (world, task, event) := Task.step t.world task
      ⟨world, t.tasks.set i task, (event.bind Event.arrival?).toList ++ t.log,
        (event.bind (Event.told? t.log)).toList ++ t.told⟩
    | none => t
  | .forceInit => { t with world := { t.world with session := t.world.session.forceInit } }
  | .host change =>
    { t with world := { t.world with workspace := change t.world.workspace } }

def run (t : Traffic) (acts : List Act) : Traffic :=
  acts.foldl act t

@[simp] lemma run_nil (t : Traffic) : t.run [] = t := rfl

@[simp] lemma run_cons (t : Traffic) (a : Act) (acts : List Act) :
    t.run (a :: acts) = (t.act a).run acts := rfl

lemma run_append (t : Traffic) (xs ys : List Act) : t.run (xs ++ ys) = (t.run xs).run ys :=
  List.foldl_append

lemma act_step {t : Traffic} {i : Nat} {task task' : Task} {w : World} {event : Option Event}
    (hi : t.tasks[i]? = some task) (h : task.step t.world = (w, task', event)) :
    t.act (.step i) = ⟨w, t.tasks.set i task', (event.bind Event.arrival?).toList ++ t.log,
      (event.bind (Event.told? t.log)).toList ++ t.told⟩ := by
  simp only [act, hi, h]

end Traffic

/-! ### How deliveries come about -/

/-- The finished work of a submission, with what was evaluated for it and the warning that is
pending: the text cannot be read, the options cannot be served, or a request for the form that was
read is served, with the warnings that this alone has raised. -/
inductive Prepared (sub : Submission) : Option Evaluation → Option String → Delivery → Prop
  | unread {e : Error} (h : readForm sub.source = .error e) :
      Prepared sub none none (.ofError .nil e)
  | refused {form : Form} {e : Error} (h : readForm sub.source = .ok form)
      (ho : sub.options.normalize = .error e) : Prepared sub none none (.ofError form e)
  | served {r : Request} (w : Workspace) (hsource : r.source = sub.source)
      (h : readForm sub.source = .ok r.form) (ho : sub.options.normalize = .ok r.options) :
      Prepared sub (some ⟨r, w⟩) (Evaluation.warning? ⟨r, w⟩) (serve r { workspace := w }).1

/-- A stage of serving a submission, behind a step that has evaluated something or nothing: what has
been read belongs to the submission, and finished work comes from the evaluation. -/
def Stage.Of (sub : Submission) (evaluation : Option Evaluation) : Stage → Prop
  | .submitted s => s = sub
  | .initializing s form options _ _ =>
    s = sub ∧ readForm sub.source = .ok form ∧ sub.options.normalize = .ok options
  | .ready s form options =>
    s = sub ∧ readForm sub.source = .ok form ∧ sub.options.normalize = .ok options
  | .seen r => r.source = sub.source ∧ readForm sub.source = .ok r.form ∧
    sub.options.normalize = .ok r.options
  | .served _ pending delivery => Prepared sub evaluation pending delivery
  | .answered _ => True
  | .delivered _ => True

/-- The next stage belongs to the same submission. -/
lemma of_step {sub : Submission} {evaluation : Option Evaluation} {s : Stage}
    (h : s.Of sub evaluation) (w : World) :
    (s.step w).2.Of sub (s.evaluation? w.workspace) := by
  cases s with
  | submitted sub' =>
    cases h
    simp only [Stage.step, Stage.submit]
    split
    · rename_i he
      exact .unread he
    · rename_i form hform
      split
      · rename_i he
        exact .refused hform he
      · rename_i options hoptions
        split
        · exact ⟨rfl, hform, hoptions⟩
        · exact ⟨rfl, hform, hoptions⟩
  | initializing sub' form options ns ran =>
    simp only [Stage.step]
    split
    · exact h
    · exact h
  | ready sub' form options =>
    obtain ⟨rfl, hform, hoptions⟩ := h
    exact ⟨rfl, hform, hoptions⟩
  | seen r =>
    obtain ⟨hsource, hform, hoptions⟩ := h
    exact .served w.workspace hsource hform hoptions
  | served strict pending delivery => trivial
  | answered reply => trivial
  | delivered d => trivial

/-- A reply is delivered from the stage that waits for it, and nothing but the session changes. -/
lemma step_reply {w : World} {s : Stage} {reply : Reply} (hs : s.reply? = none)
    (h : (s.step w).2.reply? = some reply) :
    ∃ strict pending delivery session, s = .served strict pending delivery ∧
      (reply, session) = deliver strict pending delivery w.session ∧
      s.step w = ({ w with session := session }, .answered reply) := by
  cases s with
  | submitted sub =>
    simp only [Stage.step, Stage.submit] at h
    split at h
    · cases h
    · split at h
      · cases h
      · split at h <;> cases h
  | initializing sub form options ns ran =>
    simp only [Stage.step] at h
    split at h <;> cases h
  | ready sub form options => cases h
  | seen r => cases h
  | served strict pending delivery =>
    cases h
    exact ⟨strict, pending, delivery, _, rfl, rfl, rfl⟩
  | answered reply => cases hs
  | delivered d => cases hs

/-- Beside a workspace, an init action that goes on to its end leaves the world as it is. -/
@[simp] lemma resumeInit_workspace (w : World) (form : Form) (options : RequestOptions)
    (ns : Symbol) (ran : Nat) : Stage.resumeInit w form options ns ran = w :=
  ite_self w

/-- Until its delivery a request changes neither the history nor the warning slot nor the
current namespace. -/
lemma step_session {w : World} {s : Stage} (h : (s.step w).2.reply? = none) :
    (s.step w).1.session.history = w.session.history ∧
      (s.step w).1.session.warning = w.session.warning ∧
      (s.step w).1.session.current = w.session.current := by
  cases s with
  | submitted sub =>
    have hclaim : w.session.claimInit.2.history = w.session.history ∧
        w.session.claimInit.2.warning = w.session.warning ∧
        w.session.claimInit.2.current = w.session.current := ⟨rfl, rfl, rfl⟩
    simp only [Stage.step, Stage.submit]
    split
    · exact ⟨rfl, rfl, rfl⟩
    · split
      · exact ⟨rfl, rfl, rfl⟩
      · -- whatever the answer to the claim is, only the flags change
        split
        · rename_i hc
          rw [hc] at hclaim
          exact hclaim
        · rename_i hc
          rw [hc] at hclaim
          exact hclaim
  | initializing sub form options ns ran =>
    simp only [Stage.step, resumeInit_workspace]
    split
    · exact ⟨rfl, rfl, rfl⟩
    · exact ⟨rfl, rfl, rfl⟩
  | ready sub form options => exact ⟨rfl, rfl, rfl⟩
  | seen r => exact ⟨rfl, rfl, rfl⟩
  | served strict pending delivery => cases h
  | answered reply => cases h
  | delivered d => cases h

section

variable {w : World} {s : Stage} (sub : Submission) (evaluation : Option Evaluation) (jobs : Task)

/-- After the step that delivers its reply, the caller of a request is still to be told. -/
lemma task_step_some {reply : Reply} (hs : s.reply? = none)
    (h : (s.step w).2.reply? = some reply) :
    ∃ strict pending delivery session, s = .served strict pending delivery ∧
      (reply, session) = deliver strict pending delivery w.session ∧
      Task.step w (.serve sub s evaluation :: jobs) =
        ({ w with session := session },
          .tell ⟨sub, evaluation, pending, delivery, reply, session⟩ :: jobs,
          some (.arrives ⟨sub, evaluation, pending, delivery, reply, session⟩)) := by
  obtain ⟨strict, pending, delivery, session, rfl, hdeliver, hstep⟩ := step_reply hs h
  refine ⟨strict, pending, delivery, session, rfl, hdeliver, ?_⟩
  simp only [Task.step, hstep, Stage.waiting?, Stage.reply?]

lemma task_step_none (h : (s.step w).2.reply? = none) :
    Task.step w (.serve sub s evaluation :: jobs) =
      ((s.step w).1, .serve sub (s.step w).2 (s.evaluation? w.workspace) :: jobs, none) := by
  simp only [Task.step, h]
  cases s.waiting? <;> rfl

end

/-! ### Invariants of tasks -/

/-- A job is under way for its own submission, and not yet delivered. -/
def Job.Sound : Job → Prop
  | .serve sub stage evaluation => stage.Of sub evaluation ∧ stage.reply? = none
  | _ => True

/-- A delivery comes about in the one way there is, for its own submission. -/
def Arrival.Sound (a : Arrival) : Prop :=
  Prepared a.sub a.evaluation a.pending a.delivery ∧
    ∃ strict session, (a.reply, a.left) = deliver strict a.pending a.delivery session

/-- Whether a caller is told with a job. -/
def Job.Tells (a : Arrival) : Job → Prop
  | .tell b => b = a
  | _ => False

/-- The jobs of a call are sound, and no caller is to be told at once. -/
lemma sound_call (call : Call) : ∀ job ∈ call.task, job.Sound ∧ ∀ a, ¬ job.Tells a := by
  have hsub (sub : Submission) :
      (Job.ofSubmission sub).Sound ∧ ∀ a, ¬ (Job.ofSubmission sub).Tells a :=
    ⟨⟨rfl, rfl⟩, fun _ => id⟩
  cases call with
  | request sub =>
    simp only [Call.task, List.forall_mem_singleton]
    exact hsub sub
  | reset options names =>
    intro job hjob
    simp only [Call.task, settleTask, List.mem_append, List.mem_map, List.mem_cons,
      List.not_mem_nil, or_false] at hjob
    rcases hjob with ⟨name, -, rfl⟩ | rfl | rfl | rfl | rfl
    · exact ⟨trivial, fun _ => id⟩
    · exact ⟨trivial, fun _ => id⟩
    · exact ⟨trivial, fun _ => id⟩
    · exact hsub _
    · exact hsub _

/-- What a step of a task changes of the history and the warning slot. Unless others hear of it,
nothing but that the slot may be cleared. With a delivery it is what the delivery leaves. A caller
that is told finds the session as it is. -/
def StepsSession (session next : Session) : Option Event → Prop
  | none => next.history = session.history ∧
      (next.warning = session.warning ∨ next.warning = none)
  | some (.arrives a) => next = a.left ∧
      ∃ strict, (a.reply, a.left) = deliver strict a.pending a.delivery session
  | some (.tells _ seen) => next = session ∧ seen = session

/-- What can be told of a step of a task: it leaves the jobs sound, and makes no delivery but a sound
one. Callers that are still to be told are those of before or of the delivery that is made, and a
caller that is told was still to be told. -/
structure Task.StepsSoundly (w : World) (task : Task) : Prop where
  /-- The jobs that are left. -/
  jobs : ∀ job ∈ (task.step w).2.1, job.Sound
  /-- A delivery. -/
  arrival : ∀ a, (task.step w).2.2 = some (.arrives a) → a.Sound
  session : StepsSession w.session (task.step w).1.session (task.step w).2.2
  /-- Callers that are still to be told. -/
  telling : ∀ a, .tell a ∈ (task.step w).2.1 →
    .tell a ∈ task ∨ (task.step w).2.2 = some (.arrives a)
  /-- A caller that is told. -/
  told : ∀ a seen, (task.step w).2.2 = some (.tells a seen) → .tell a ∈ task

/-- A step that nobody hears of is a sound one if it keeps some of the jobs, or puts a sound one in
front of them, and leaves the history and the warning slot alone or clears the slot. -/
lemma stepsSoundly_quiet {w w' : World} {task rest : Task} (hstep : task.step w = (w', rest, none))
    (hjobs : ∀ job ∈ rest, job.Sound) (hkept : ∀ a, .tell a ∈ rest → .tell a ∈ task)
    (hhistory : w'.session.history = w.session.history)
    (hwarning : w'.session.warning = w.session.warning ∨ w'.session.warning = none) :
    task.StepsSoundly w := by
  constructor <;> rw [hstep]
  · exact hjobs
  · intro a ha
    cases ha
  · exact ⟨hhistory, hwarning⟩
  · exact fun a ha => .inl (hkept a ha)
  · intro a seen ha
    cases ha

/-- A step of a sound task is a sound one. -/
lemma sound_step {w : World} {task : Task} (h : ∀ job ∈ task, job.Sound) :
    task.StepsSoundly w := by
  cases task with
  | nil => exact stepsSoundly_quiet rfl h (fun _ => id) rfl (.inl rfl)
  | cons job jobs =>
    rw [List.forall_mem_cons] at h
    obtain ⟨hjob, hjobs⟩ := h
    have hleft (a : Arrival) (ha : .tell a ∈ jobs) : .tell a ∈ job :: jobs :=
      List.mem_cons_of_mem job ha
    cases job with
    | purge name => exact stepsSoundly_quiet rfl hjobs hleft rfl (.inl rfl)
    | clearWarning => exact stepsSoundly_quiet rfl hjobs hleft rfl (.inr rfl)
    | check =>
      -- either all the other jobs are left or none of them
      have hkept : ∀ job ∈ (if w.workspace.loaded.isEmpty then jobs else []), job ∈ jobs := by
        intro job hmem
        split at hmem
        · exact hmem
        · cases hmem
      exact stepsSoundly_quiet rfl (fun job hmem => hjobs job (hkept job hmem))
        (fun a ha => hleft a (hkept _ ha)) rfl (.inl rfl)
    | tell arrival =>
      have hstep : Task.step w (.tell arrival :: jobs) =
          (w, jobs, some (.tells arrival w.session)) := rfl
      constructor <;> rw [hstep]
      · exact hjobs
      · intro a ha
        cases ha
      · exact ⟨rfl, rfl⟩
      · exact fun a ha => .inl (hleft a ha)
      · intro a seen ha
        cases ha
        exact List.mem_cons_self
    | serve sub stage evaluation =>
      obtain ⟨hof, hstage⟩ := hjob
      cases hd : (stage.step w).2.reply? with
      | none =>
        obtain ⟨hhistory, hwarning, -⟩ := step_session hd
        refine stepsSoundly_quiet (task_step_none _ _ _ hd) ?_ (fun a ha => ?_) hhistory
          (.inl hwarning)
        · rw [List.forall_mem_cons]
          exact ⟨⟨of_step hof w, hd⟩, hjobs⟩
        · rcases List.mem_cons.mp ha with ha | ha
          · cases ha
          · exact hleft a ha
      | some reply =>
        obtain ⟨strict, pending, delivery, session, rfl, hdeliver, hstep⟩ :=
          task_step_some sub evaluation jobs hstage hd
        constructor <;> rw [hstep]
        · rw [List.forall_mem_cons]
          exact ⟨trivial, hjobs⟩
        · intro a ha
          cases ha
          exact ⟨hof, strict, w.session, hdeliver⟩
        · exact ⟨rfl, strict, hdeliver⟩
        · intro a ha
          rcases List.mem_cons.mp ha with ha | ha
          · cases ha
            exact .inr rfl
          · exact .inl (hleft a ha)
        · intro a seen ha
          cases ha

namespace Traffic

/-- All tasks and all deliveries are sound. -/
structure Sound (t : Traffic) : Prop where
  /-- What is left to do belongs to its submission. -/
  tasks : ∀ task ∈ t.tasks, ∀ job ∈ task, job.Sound
  /-- The deliveries came about in the one way there is. -/
  log : ∀ a ∈ t.log, a.Sound
  /-- Callers that are still to be told have had their delivery. -/
  telling : ∀ task ∈ t.tasks, ∀ a, .tell a ∈ task → a ∈ t.log

lemma sound_fresh (workspace : Workspace) : (fresh workspace).Sound := by
  constructor <;> simp [fresh]

lemma Sound.act {t : Traffic} (h : t.Sound) (a : Act) : (t.act a).Sound := by
  cases a with
  | begin call =>
    refine ⟨fun task htask => ?_, h.log, fun task htask a ha => ?_⟩
    · rcases List.mem_append.mp htask with htask | htask
      · exact h.tasks task htask
      · rw [List.eq_of_mem_singleton htask]
        exact fun job hjob => (sound_call call job hjob).1
    · rcases List.mem_append.mp htask with htask | htask
      · exact h.telling task htask a ha
      · rw [List.eq_of_mem_singleton htask] at ha
        exact absurd rfl ((sound_call call _ ha).2 a)
  | step i =>
    simp only [Traffic.act]
    split
    · rename_i task hi
      have htask := List.mem_of_getElem? hi
      have hstep := sound_step (w := t.world) (h.tasks task htask)
      refine ⟨fun task' htask' => ?_, fun a ha => ?_, fun task' htask' a ha => ?_⟩
      · rcases List.mem_or_eq_of_mem_set htask' with htask' | rfl
        · exact h.tasks task' htask'
        · exact hstep.jobs
      · rcases List.mem_append.mp ha with ha | ha
        · rw [Option.mem_toList, Option.bind_eq_some_iff] at ha
          obtain ⟨event, hevent, ha⟩ := ha
          cases event with
          | arrives a' =>
            cases ha
            exact hstep.arrival a hevent
          | tells a' seen => cases ha
        · exact h.log a ha
      -- what was delivered before stays in the log, so only the new delivery is to be looked at
      · rcases List.mem_or_eq_of_mem_set htask' with htask' | rfl
        · exact List.mem_append_right _ (h.telling task' htask' a ha)
        · rcases hstep.telling a ha with ha | hevent
          · exact List.mem_append_right _ (h.telling task htask a ha)
          · rw [hevent]
            exact List.mem_append_left _ (List.mem_singleton_self a)
    · exact h
  | forceInit => exact ⟨h.tasks, h.log, h.telling⟩
  | host change => exact ⟨h.tasks, h.log, h.telling⟩

lemma sound_run {t : Traffic} (h : t.Sound) (acts : List Act) : (t.run acts).Sound := by
  induction acts generalizing t with
  | nil => exact h
  | cons a acts ih => exact ih (h.act a)

end Traffic

/-! ### Requests without anything between their steps -/

section

variable {σ : Type} [Evaluator σ] [InitActions σ] {w : World σ} {s : Stage}

/-- When the caller has been told, no step is left. -/
lemma finish_of_some {d : Delivered} (h : s.delivered? = some d) : s.finish w = (w, d) := by
  rw [Stage.finish]
  split
  · rename_i h'
    cases h.symm.trans h'
    rfl
  · rename_i h'
    cases h.symm.trans h'

lemma finish_of_none (h : s.delivered? = none) :
    s.finish w = Stage.finish (s.step w).1 (s.step w).2 := by
  rw [Stage.finish]
  split
  · rename_i h'
    cases h.symm.trans h'
  · rfl

/-- Behind its delivery, a request has only its caller left to tell. -/
lemma finish_answered (w : World σ) (reply : Reply) :
    (Stage.answered reply).finish w = (w, ⟨reply, w.session⟩) := by
  rw [finish_of_none rfl]
  exact finish_of_some rfl

lemma delivered?_of_reply? (h : s.reply? = none) : s.delivered? = none := by
  cases s with
  | delivered d => cases h
  | _ => rfl

end

namespace Traffic

variable {t : Traffic} {i : Nat}

/-- The traffic with a task in the place of another one. -/
def put (t : Traffic) (i : Nat) (w : World) (task : Task) (log : List Arrival)
    (told : List Told) : Traffic :=
  ⟨w, t.tasks.set i task, log, told⟩

/-- The steps of a task alone lead from one traffic to another. -/
def Alone (i : Nat) (t u : Traffic) : Prop :=
  ∃ n, t.run (List.replicate n (.step i)) = u

lemma Alone.trans {u v : Traffic} (h : Alone i t u) (h' : Alone i u v) : Alone i t v := by
  obtain ⟨n, rfl⟩ := h
  obtain ⟨m, rfl⟩ := h'
  exact ⟨n + m, by rw [← List.replicate_append_replicate, run_append]⟩

lemma alone_step (hi : i < t.tasks.length) {task task' : Task} {w w' : World}
    {event : Option Event} (h : task.step w = (w', task', event)) (log : List Arrival)
    (told : List Told) :
    Alone i (t.put i w task log told)
      (t.put i w' task' ((event.bind Event.arrival?).toList ++ log)
        ((event.bind (Event.told? log)).toList ++ told)) := by
  have htask : (t.put i w task log told).tasks[i]? = some task := by simp [put, hi]
  refine ⟨1, ?_⟩
  rw [List.replicate_one, run_cons, run_nil, act_step htask h]
  simp [put]

/-- The steps of a task alone serve the submission that it is at: its reply is delivered, and then
its caller is told. -/
lemma alone_finish (hi : i < t.tasks.length) (sub : Submission) {s : Stage}
    (hs : s.reply? = none) (w : World) (evaluation : Option Evaluation) (jobs : Task)
    (log : List Arrival) (told : List Told) :
    ∃ a, Alone i (t.put i w (.serve sub s evaluation :: jobs) log told)
        (t.put i (s.finish w).1 jobs (a :: log) (⟨a, (s.finish w).2.seen, a :: log⟩ :: told)) ∧
      a.sub = sub ∧ a.reply = (s.finish w).2.reply := by
  -- the recursion is on the number of steps that are left
  induction hrank : s.rank using Nat.strongRecOn generalizing w s evaluation with
  | ind rank ih =>
    rw [finish_of_none (delivered?_of_reply? hs)]
    cases hd : (s.step w).2.reply? with
    | some reply =>
      obtain ⟨strict, pending, delivery, session, rfl, hdeliver, hstep⟩ :=
        task_step_some sub evaluation jobs hs hd
      have hnext : (Stage.served strict pending delivery).step w =
          ({ w with session := session }, .answered reply) := by
        simp only [Stage.step, ← hdeliver]
      rw [hnext, finish_answered]
      exact ⟨_, (alone_step hi hstep log told).trans (alone_step hi rfl _ _), rfl, rfl⟩
    | none =>
      have hnext := alone_step hi
        (task_step_none sub evaluation jobs hd) log told
      have hless : (s.step w).2.rank < rank :=
        hrank ▸ Stage.rank_step w s (Stage.rank_ne_zero (delivered?_of_reply? hs))
      obtain ⟨a, hrest, hsub, hreply⟩ := ih _ hless hd (s.step w).1 _ rfl
      exact ⟨a, hnext.trans hrest, hsub, hreply⟩

/-- A request that is served without anything between its steps is a run. -/
theorem run_serve (t : Traffic) (sub : Submission) :
    ∃ n a, t.run (.begin (.request sub) :: List.replicate n (.step t.tasks.length)) =
      ⟨(t.world.serve sub).1, t.tasks ++ [[]], a :: t.log,
        ⟨a, (t.world.serve sub).2.seen, a :: t.log⟩ :: t.told⟩ ∧
      a.sub = sub ∧ a.reply = (t.world.serve sub).2.reply := by
  -- the call that begins is the last of the tasks
  have hi : t.tasks.length < (t.act (.begin (.request sub))).tasks.length := by simp [act]
  have hbegin : t.act (.begin (.request sub)) = (t.act (.begin (.request sub))).put
      t.tasks.length t.world (Call.request sub).task t.log t.told := by
    simp [act, put]
  obtain ⟨a, ⟨n, hrun⟩, hsub, hreply⟩ :=
    alone_finish hi sub (s := .submitted sub) rfl t.world none [] t.log t.told
  refine ⟨n, a, ?_, hsub, hreply⟩
  rw [run_cons, hbegin]
  refine hrun.trans ?_
  simp [act, put, World.serve]

end Traffic

end Listener
