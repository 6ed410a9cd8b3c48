/-
The way of a request from its text to its reply, in steps that nothing can come
between.

* `World`: the session, the state of the evaluator and the notes, which all
  requests share.
* `InitActions`: what the init actions do to the world.
* `Stage`: how far a request has come. A reply is delivered to the session first,
  and its caller is called in a step of its own: the session is not locked then.
* `Stage.step`: the next step. `Stage.rank` counts the steps that are left, and
  `rank_step` says that every step is one less.
* `Stage.finish`: all steps that are left, with no other request between them.
-/
import Listener.Request.Serve
import Listener.Workspace.Eval

namespace Listener

/-- A note of an init action: its number, the form of its request, and the
namespace and target it was run with. -/
structure InitNote where
  /-- The number of the action, from one on. -/
  number : Nat
  /-- The form of the request. -/
  form : Form
  /-- The current namespace. -/
  ns : Symbol
  /-- Where the evaluated code runs. -/
  target : Target

/-- What all requests share, with an evaluator that has the state `σ`. -/
structure World (σ : Type := Workspace) where
  session : Session := {}
  /-- The state of the evaluator. -/
  workspace : σ := by exact .initial
  /-- The paths that tables of files were asked for. -/
  reads : List String := []
  /-- The init actions that were run. -/
  inits : List InitNote := []

/-- What the init actions do to the world besides leaving a note. The note says
which action it is, and what it is given. -/
class InitActions (σ : Type) where
  /-- What an action does until it gives up its turn. -/
  before (note : InitNote) (w : World σ) : World σ
  /-- What it does from then on. -/
  behind (note : InitNote) (w : World σ) : World σ

/-- Beside a workspace, init actions do nothing but leave their notes. -/
instance : InitActions Workspace where
  before _ w := w
  behind _ w := w

/-- A text to be read and served under options. -/
structure Submission where
  /-- The text. -/
  source : String
  options : Options

/-- A reply, and the session as its caller found it. -/
structure Delivered where
  reply : Reply
  /-- The session when the caller was called. -/
  seen : Session

/-- How far a request has come. -/
inductive Stage where
  /-- The text was handed in. -/
  | submitted (sub : Submission)
  /-- The request initializes; `ran` of its actions have begun, and the latest one
  of them may have given up its turn. -/
  | initializing (sub : Submission) (form : Form) (options : RequestOptions) (ns : Symbol)
      (ran : Nat)
  /-- The request is ready to look at the session. -/
  | ready (sub : Submission) (form : Form) (options : RequestOptions)
  /-- The request is ready to be served. -/
  | seen (request : Request)
  /-- The request is served and waits for its delivery. -/
  | served (strict : Bool) (pending : Option String) (delivery : Delivery)
  /-- The reply is delivered to the session, and the caller is still to be called. -/
  | answered (reply : Reply)
  /-- The caller has been called. -/
  | delivered (d : Delivered)

variable {σ : Type}

namespace Stage

/-- A text that cannot be read and options that cannot be served lead straight to
delivery. Any other request claims initialization. -/
def submit (w : World σ) (sub : Submission) : World σ × Stage :=
  let strict := sub.options.settings.warningAsError
  match readForm sub.source with
  | .error e => (w, .served strict none (.ofError .nil e))
  | .ok form =>
    match sub.options.normalize with
    | .error e => (w, .served strict none (.ofError form e))
    | .ok options =>
      let ns := w.session.current
      match w.session.claimInit with
      | (.owner, session) => ({ w with session := session }, .initializing sub form options ns 0)
      | (_, session) => ({ w with session := session }, .ready sub form options)

/-- An init action runs until it gives up its turn, and is noted down. -/
def runInit [InitActions σ] (w : World σ) (form : Form) (options : RequestOptions) (ns : Symbol)
    (number : Nat) : World σ :=
  let note : InitNote := ⟨number, form, ns, options.settings.target⟩
  let w := InitActions.before note w
  { w with inits := w.inits ++ [note] }

/-- The latest one of the init actions that have begun goes on to its end. -/
def resumeInit [InitActions σ] (w : World σ) (form : Form) (options : RequestOptions)
    (ns : Symbol) (ran : Nat) : World σ :=
  if ran = 0 then w else InitActions.behind ⟨ran, form, ns, options.settings.target⟩ w

/-- The module index is completed from the manifests, and initialization ends. -/
def finishInit (w : World σ) (options : RequestOptions) : World σ :=
  let directories := options.settings.sourcePaths
  let pairs := match options.reader with
    | some reader => Source.discover reader directories
    | none => []
  let reads := match options.reader with
    | some reader => Source.discoverReads reader directories
    | none => []
  { w with
    session := (w.session.mergeIndex pairs).finishInit
    reads := w.reads ++ reads }

/-- The request with what it sees of the session. -/
def look (w : World σ) (sub : Submission) (form : Form) (options : RequestOptions) : Request where
  form := form
  source := sub.source
  ns := w.session.current
  options := options
  loader := options.loader w.session.index
  history := w.session.history

/-- The request is served. -/
def serveIn [Evaluator σ] (w : World σ) (request : Request) : World σ × Stage :=
  let (delivery, s) := serve request { workspace := w.workspace }
  ({ w with workspace := s.workspace, reads := w.reads ++ s.reads },
    .served request.options.settings.warningAsError s.warnings.pending delivery)

variable [Evaluator σ] [InitActions σ]

/-- The next step of a request. -/
def step (w : World σ) : Stage → World σ × Stage
  | .submitted sub => submit w sub
  | .initializing sub form options ns ran =>
    let w := resumeInit w form options ns ran
    if ran < options.initActions then
      (runInit w form options ns (ran + 1), .initializing sub form options ns (ran + 1))
    else (finishInit w options, .ready sub form options)
  | .ready sub form options => (w, .seen (look w sub form options))
  | .seen request => serveIn w request
  | .served strict pending delivery =>
    let (reply, session) := deliver strict pending delivery w.session
    ({ w with session := session }, .answered reply)
  | .answered reply => (w, .delivered ⟨reply, w.session⟩)
  | .delivered d => (w, .delivered d)

/-! ### All steps of a request -/

/-- The greatest number of steps that are left. -/
def rank : Stage → Nat
  | .submitted sub => sub.options.initActions + 6
  | .initializing _ _ options _ ran => (options.initActions - ran) + 5
  | .ready _ _ _ => 4
  | .seen _ => 3
  | .served _ _ _ => 2
  | .answered _ => 1
  | .delivered _ => 0

/-- After every step fewer are left. -/
theorem rank_step (w : World σ) (s : Stage) (h : s.rank ≠ 0) : (step w s).2.rank < s.rank := by
  cases s with
  | submitted sub =>
    simp only [step, submit]
    split
    · simp only [rank]
      omega
    · split
      · simp only [rank]
        omega
      · rename_i options hn
        split
        · simp only [rank, (Options.keeps_of_normalize hn).2]
          omega
        · simp only [rank]
          omega
  | initializing sub form options ns ran =>
    simp only [step]
    split <;> simp only [rank] <;> omega
  | ready sub form options => simp [step, rank]
  | seen request => simp [step, serveIn, rank]
  | served strict pending delivery => simp [step, rank]
  | answered reply => simp [step, rank]
  | delivered d => exact absurd rfl h

/-- What the caller was called with, when no step is left. -/
def delivered? : Stage → Option Delivered
  | .delivered d => some d
  | _ => none

/-- Until the caller has been called, steps are left. -/
theorem rank_ne_zero {s : Stage} (h : s.delivered? = none) : s.rank ≠ 0 := by
  cases s <;> simp_all [delivered?, rank]

/-- All steps that are left, one after the other. -/
def finish (w : World σ) (s : Stage) : World σ × Delivered :=
  match _h : s.delivered? with
  | some d => (w, d)
  | none => finish (step w s).1 (step w s).2
termination_by s.rank
decreasing_by exact rank_step w s (rank_ne_zero _h)

end Stage

/-- A submission is served from its first step to its last. -/
def World.serve [Evaluator σ] [InitActions σ] (w : World σ) (sub : Submission) :
    World σ × Delivered :=
  Stage.finish w (.submitted sub)

end Listener
