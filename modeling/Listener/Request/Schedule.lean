/-
Requests at the same time.

* `Pool`, `Pool.run`: requests whose steps are taken in any order; a schedule
  says which request makes each step.
* `World.overlap`: two requests on one thread. The first one goes on until it
  gives up its turn, then the second one is served, then the first one goes on.
-/
import Listener.Request.Stage

namespace Listener

/-! ### Schedules -/

/-- The requests that are under way, and what they share. -/
structure Pool where
  /-- What they share. -/
  world : World
  /-- How far each has come. -/
  stages : List Stage

namespace Pool

/-- The pool at the start. -/
def start (w : World) (subs : List Submission) : Pool :=
  ⟨w, subs.map .submitted⟩

/-- The pool after one step of the request with a number. Without such a request
nothing happens. -/
def step (p : Pool) (i : Nat) : Pool :=
  match p.stages[i]? with
  | some stage =>
    let (world, stage) := stage.step p.world
    ⟨world, p.stages.set i stage⟩
  | none => p

/-- The pool after all steps of a schedule. -/
def run (p : Pool) (schedule : List Nat) : Pool :=
  schedule.foldl step p

/-- A schedule may be followed in two parts. -/
theorem run_append (p : Pool) (s t : List Nat) : p.run (s ++ t) = (p.run s).run t := by
  simp [run, List.foldl_append]

end Pool

/-! ### Two requests on one thread -/

/-- Whether a request has just given up its turn: its options say so, and the
first of its init actions has begun. -/
def Stage.yields : Stage → Bool
  | .initializing sub _ _ _ ran => sub.options.initYields && ran == 1
  | _ => false

variable {σ : Type} [Evaluator σ] [InitActions σ]

/-- The steps of a request until it gives up its turn or its caller has been called. -/
def Stage.untilYield (w : World σ) (s : Stage) : World σ × Stage :=
  if s.yields then (w, s)
  else
    match _h : s.delivered? with
    | some _ => (w, s)
    | none => Stage.untilYield (step w s).1 (step w s).2
termination_by s.rank
decreasing_by exact Stage.rank_step w s (Stage.rank_ne_zero _h)

/-- Two requests that begin together, the first one in front. -/
def World.overlap (w : World σ) (a b : Submission) : World σ × Delivered × Delivered :=
  let (w, a) := Stage.untilYield w (.submitted a)
  let (w, b) := w.serve b
  let (w, a) := a.finish w
  (w, a, b)

end Listener
