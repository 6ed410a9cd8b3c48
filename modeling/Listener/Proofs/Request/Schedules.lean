/-
Schedules: what holds of requests whose steps are taken in any order.

* `step_of_stage`: what the step of one request does to the pool.
* `Pool.Belongs`: every stage belongs to the submission with its number; `belongs_run` says
  that this holds in every run.
* `reply_run`: a delivered reply stays the same.
* `exists_delivery`: a request whose reply is delivered in the end has a moment of its delivery.
-/
import Listener.Proofs.Request.Runs
import Listener.Request.Schedule

namespace Listener

namespace Pool

variable {p : Pool} {subs : List Submission} {i : Nat}

@[simp] lemma run_nil (p : Pool) : p.run [] = p := rfl

@[simp] lemma run_cons (p : Pool) (i : Nat) (schedule : List Nat) :
    p.run (i :: schedule) = (p.step i).run schedule := rfl

lemma step_of_stage {s : Stage} (h : p.stages[i]? = some s) :
    p.step i = ⟨(s.step p.world).1, p.stages.set i (s.step p.world).2⟩ := by
  rw [step, h]

lemma step_of_none (h : p.stages[i]? = none) : p.step i = p := by
  rw [step, h]

lemma stages_step {s : Stage} (h : p.stages[i]? = some s) (j : Nat) :
    (p.step i).stages[j]? = if i = j then some (s.step p.world).2 else p.stages[j]? := by
  have hi : i < p.stages.length := (List.getElem?_eq_some_iff.mp h).1
  rw [step_of_stage h]
  by_cases hij : i = j
  · subst hij
    simp [hi]
  · simp [hij]

/-- No request is lost in a run, and none is added. -/
lemma length_run (p : Pool) (schedule : List Nat) :
    (p.run schedule).stages.length = p.stages.length := by
  induction schedule generalizing p with
  | nil => rfl
  | cons i schedule ih =>
    rw [run_cons, ih]
    cases hi : p.stages[i]? with
    | none => rw [step_of_none hi]
    | some s => rw [step_of_stage hi, List.length_set]

/-! ### Submissions -/

/-- Every stage belongs to the submission with its number. -/
def Belongs (subs : List Submission) (p : Pool) : Prop :=
  ∀ (i : Nat) (s : Stage), p.stages[i]? = some s →
    ∃ sub evaluation, subs[i]? = some sub ∧ s.Of sub evaluation

lemma belongs_start (w : World) (subs : List Submission) : (start w subs).Belongs subs := by
  intro i s h
  rw [start, List.getElem?_map, Option.map_eq_some_iff] at h
  obtain ⟨sub, hsub, rfl⟩ := h
  exact ⟨sub, none, hsub, rfl⟩

/-- Every step leaves the stages with their submissions. -/
lemma Belongs.step (h : p.Belongs subs) (i : Nat) : (p.step i).Belongs subs := by
  cases hi : p.stages[i]? with
  | none =>
    rw [step_of_none hi]
    exact h
  | some s =>
    intro j s' hj
    rw [stages_step hi] at hj
    split at hj
    · rename_i hij
      subst hij
      cases hj
      obtain ⟨sub, evaluation, hsub, hof⟩ := h i s hi
      exact ⟨sub, _, hsub, of_step hof p.world⟩
    · exact h j s' hj

lemma belongs_run (h : p.Belongs subs) (schedule : List Nat) : (p.run schedule).Belongs subs := by
  induction schedule generalizing p with
  | nil => exact h
  | cons i schedule ih => exact ih (h.step i)

/-! ### Deliveries -/

/-- Once its reply is delivered, a request changes nothing but that its caller is told. -/
lemma step_of_reply {s : Stage} {reply : Reply} (h : s.reply? = some reply) (w : World) :
    (s.step w).1 = w ∧ (s.step w).2.reply? = some reply := by
  cases s with
  | answered reply' => exact ⟨rfl, h⟩
  | delivered d => exact ⟨rfl, h⟩
  | _ => cases h

lemma reply_run {s : Stage} {reply : Reply} (hi : p.stages[i]? = some s)
    (hs : s.reply? = some reply) (schedule : List Nat) :
    ∃ s', (p.run schedule).stages[i]? = some s' ∧ s'.reply? = some reply := by
  induction schedule generalizing p s with
  | nil => exact ⟨s, hi, hs⟩
  | cons j schedule ih =>
    cases hj : p.stages[j]? with
    | none =>
      rw [run_cons, step_of_none hj]
      exact ih hi hs
    | some t =>
      have hnext := stages_step hj i
      by_cases hij : j = i
      · subst hij
        cases hj.symm.trans hi
        rw [if_pos rfl] at hnext
        exact ih hnext (step_of_reply hs p.world).2
      · rw [if_neg hij, hi] at hnext
        exact ih hnext hs

/-- A request whose reply is delivered in the end has a moment of its delivery: it waits, makes its
step, and is delivered. -/
lemma exists_delivery {s s' : Stage} {reply : Reply} (hi : p.stages[i]? = some s)
    (hs : s.reply? = none) {schedule : List Nat} (hend : (p.run schedule).stages[i]? = some s')
    (hs' : s'.reply? = some reply) :
    ∃ before after strict pending delivery, schedule = before ++ i :: after ∧
      (p.run before).stages[i]? = some (.served strict pending delivery) := by
  induction schedule generalizing p s with
  | nil =>
    rw [run_nil, hi] at hend
    cases hend
    cases hs.symm.trans hs'
  | cons j schedule ih =>
    -- the moment is now, if the first step is the one that delivers
    by_cases hij : j = i
    · subst hij
      cases hd : (s.step p.world).2.reply? with
      | some reply' =>
        obtain ⟨strict, pending, delivery, -, rfl, -, -⟩ := step_reply hs hd
        exact ⟨[], schedule, strict, pending, delivery, rfl, hi⟩
      | none =>
        have hnext : (p.step j).stages[j]? = some (s.step p.world).2 := by
          rw [stages_step hi, if_pos rfl]
        obtain ⟨before, after, strict, pending, delivery, rfl, hserved⟩ := ih hnext hd hend
        exact ⟨j :: before, after, strict, pending, delivery, rfl, hserved⟩
    · have hnext : (p.step j).stages[i]? = some s := by
        cases hj : p.stages[j]? with
        | none => rw [step_of_none hj, hi]
        | some t => rw [stages_step hj, if_neg hij, hi]
      obtain ⟨before, after, strict, pending, delivery, rfl, hserved⟩ := ih hnext hs hend
      exact ⟨j :: before, after, strict, pending, delivery, rfl, hserved⟩

end Pool

end Listener
