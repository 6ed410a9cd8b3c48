/-
Switching the namespace while another request is under way.

* `Effect.ns?`: the namespace that an effect leads into; `deliver_current` says that a delivery
  leads there and nowhere else.
* `Stage.bound?`: the namespace that a request goes back to when it is delivered, once it has
  looked at the session; `bound_looked` says that it was the current one at that moment.
* `Pool.Stays`: the evaluations for a request end in the namespace they began in.
* `Stage.Heads`: where a request is going to leave the session after a switch.
* `current_after_switch`: which namespace is the current one when a switch and a request that
  stays are both delivered, put together from `current_after_delivery` and `bound_looked`.
* `switch_undone`: a request that stays can undo the switch.
-/
import Listener.Proofs.Request.Memory
import Listener.Proofs.Request.Schedules
import Mathlib

namespace Listener

/-! ### Effects on the current namespace -/

/-- The namespace that an effect leads into. -/
def Effect.ns? (e : Effect) (success : Bool) : Option Symbol :=
  match e with
  | .none => Option.none
  | .always c => some c.ns
  | .onSuccess c => if success then some c.ns else Option.none

/-- A delivery leads into the namespace of its effect, if there is one. -/
theorem deliver_current (strict : Bool) (pending : Option String) (d : Delivery) (s : Session) :
    (deliver strict pending d s).2.current =
      (d.effect.ns? (deliver strict pending d s).1.isSuccess).getD s.current := by
  have hchange (c : Change) (s : Session) : (c.apply s).current = c.ns := by
    rw [Change.apply]
    cases c.value <;> rfl
  have heffect (success : Bool) (s : Session) :
      (d.effect.apply success s).current = (d.effect.ns? success).getD s.current := by
    cases d.effect with
    | none => rfl
    | always c => exact hchange c s
    | onSuccess c =>
      cases success with
      | true => exact hchange c s
      | false => rfl
  exact heffect _ _

lemma outcome_of_success {strict : Bool} {pending : Option String} {d : Delivery} {s : Session}
    (h : (deliver strict pending d s).1.isSuccess = true) : ∃ v, d.outcome = .ok v := by
  cases ho : d.outcome with
  | ok v => exact ⟨v, rfl⟩
  | error e =>
    have hfails : d.reply.isSuccess = false := by
      rw [(reply_spec d).2.1, ho]
      rfl
    have hfailed := (resolveWarning_form strict pending d.reply).2 hfails
    cases h.symm.trans hfailed

/-! ### Two kinds of requests -/

/-- The form enters a namespace that it names. -/
def Form.Enters (form : Form) (y : Symbol) : Prop :=
  Directive.classify? form = some .enter ∧
    ∃ arg, form.args = [arg] ∧ arg.unquoted? = some (.symbol y)

/-- The submission calls no directive. -/
def Submission.Ordinary (sub : Submission) : Prop :=
  ∀ form, readForm sub.source = .ok form → Directive.classify? form = none

lemma enters_quote (y : Symbol) :
    (Form.list [.ofName "in-ns", .quote (.symbol y)]).Enters y := by
  refine ⟨?_, _, rfl, Form.unquoted?_quote _⟩
  rw [Directive.classify?_eq_some_iff]
  rfl

lemma enterTarget_of_enters {r : Request} {y : Symbol} (h : r.form.Enters y) (s : EvalState) :
    enterTarget r s = (.ok y, s) := by
  obtain ⟨-, arg, hargs, harg⟩ := h
  simp only [enterTarget, hargs, harg]
  rfl

lemma enter_ns? {r : Request} {y : Symbol} (h : r.form.Enters y) (s : EvalState) {v : Value}
    (hv : (serve r s).1.outcome = .ok v) : (serve r s).1.effect.ns? true = some y := by
  simp only [serve, h.1, Directive.serve, serveEnter, enterTarget_of_enters h s] at hv ⊢
  split
  · rfl
  · rename_i hnew
    simp only [hnew] at hv
    split
    · rfl
    · rename_i e s' he
      rw [he] at hv
      cases hv

/-- A request that calls no directive leads, with a success, into the namespace that its
evaluation ended in, and else nowhere. -/
lemma ordinary_ns? {r : Request} (h : Directive.classify? r.form = none) (s : EvalState) :
    (serve r s).1.effect.ns? false = none ∧
      ((∃ ev s', Eval.source (r.evalOptions r.ns) r.source s = (.ok ev, s') ∧
          (serve r s).1.effect.ns? true = some ev.ns) ∨
        (∃ e, (serve r s).1.outcome = .error e) ∧ (serve r s).1.effect.ns? true = none) := by
  simp only [serve, h, serveOrdinary]
  split
  · rename_i ev s' hev
    exact ⟨rfl, .inl ⟨ev, s', hev, rfl⟩⟩
  · exact ⟨rfl, .inr ⟨⟨_, rfl⟩, rfl⟩⟩

/-- Finished work for a form that enters a namespace leads into it with a success. -/
lemma prepared_enter {sub : Submission} {evaluation : Option Evaluation}
    {pending : Option String} {d : Delivery} {form : Form} {y : Symbol}
    (h : Prepared sub evaluation pending d) (hform : readForm sub.source = .ok form)
    (henters : form.Enters y) {v : Value} (hv : d.outcome = .ok v) :
    d.effect.ns? true = some y := by
  cases h with
  | unread h => cases hv
  | refused h ho => cases hv
  | served w hsource h ho =>
    cases hform.symm.trans h
    exact enter_ns? henters _ hv

/-- Finished work for a submission without a directive leads somewhere exactly with a
success. -/
lemma prepared_ordinary {sub : Submission} {evaluation : Option Evaluation}
    {pending : Option String} {d : Delivery} (h : Prepared sub evaluation pending d)
    (hord : sub.Ordinary) :
    d.effect.ns? false = none ∧ ∀ v, d.outcome = .ok v → ∃ n, d.effect.ns? true = some n := by
  cases h with
  | unread h => exact ⟨rfl, fun v hv => by cases hv⟩
  | refused h ho => exact ⟨rfl, fun v hv => by cases hv⟩
  | served w hsource h ho =>
    obtain ⟨hfails, hsucceeds⟩ := ordinary_ns? (hord _ h) { workspace := w }
    refine ⟨hfails, fun v hv => ?_⟩
    rcases hsucceeds with ⟨ev, -, -, hns⟩ | ⟨⟨e, he⟩, -⟩
    · exact ⟨ev.ns, hns⟩
    · cases hv.symm.trans he

/-! ### Where a request is going to leave the session -/

namespace Stage

/-- The namespace that a request goes back to with a success: the one that it was given when
it looked at the session, or the one that its evaluation ended in. -/
def bound? : Stage → Option Symbol
  | .seen r => some r.ns
  | .served _ _ d => d.effect.ns? true
  | _ => none

/-- An evaluation for the request, if this is its next step, ends where it begins. -/
def Stays (w : World) : Stage → Prop
  | .seen r => ∀ ev s, Eval.source (r.evalOptions r.ns) r.source { workspace := w.workspace } =
      (.ok ev, s) → ev.ns = r.ns
  | _ => True

/-- The namespace `y` has been entered, and the request is going to leave the session in `n`
with a success, and in `y` else. -/
def Heads (y n current : Symbol) : Stage → Prop
  | .seen r => current = y ∧ r.ns = n
  | .served _ _ d => current = y ∧ d.effect.ns? false = none ∧
      ∀ v, d.outcome = .ok v → d.effect.ns? true = some n
  | .answered reply => current = if reply.isSuccess then n else y
  | .delivered d => current = if d.reply.isSuccess then n else y
  | _ => current = y ∧ n = y

end Stage

section

variable {w : World} {sub : Submission} {evaluation : Option Evaluation} {s : Stage}
  {y n : Symbol}

/-- Where a request is going to leave the session that is told when `y` is entered. -/
lemma heads_bound (hof : s.Of sub evaluation) (hord : sub.Ordinary) :
    s.Heads y (s.bound?.getD y) y := by
  cases s with
  | submitted sub' => exact ⟨rfl, rfl⟩
  | initializing sub' form options ns ran => exact ⟨rfl, rfl⟩
  | ready sub' form options => exact ⟨rfl, rfl⟩
  | seen r => exact ⟨rfl, rfl⟩
  | served strict pending d =>
    obtain ⟨hfails, hsucceeds⟩ := prepared_ordinary hof hord
    refine ⟨rfl, hfails, fun v hv => ?_⟩
    obtain ⟨n, hn⟩ := hsucceeds v hv
    simp only [Stage.bound?, hn, Option.getD_some]
  | answered reply => exact (ite_self y).symm
  | delivered d => exact (ite_self y).symm

/-- A step of a request that stays does not change where it is going to leave the session. -/
lemma heads_step (hof : s.Of sub evaluation) (hord : sub.Ordinary) (hstays : s.Stays w)
    (h : s.Heads y n w.session.current) : (s.step w).2.Heads y n (s.step w).1.session.current := by
  cases s with
  | submitted sub' =>
    obtain ⟨hcurrent, hn⟩ := h
    have hfailed (form : Form) (e : Error) (v : Value)
        (hv : (Delivery.ofError form e).outcome = .ok v) :
        (Delivery.ofError form e).effect.ns? true = some n := by cases hv
    have hclaim : w.session.claimInit.2.current = y := hcurrent
    simp only [Stage.step, Stage.submit]
    split
    · exact ⟨hcurrent, rfl, hfailed _ _⟩
    · split
      · exact ⟨hcurrent, rfl, hfailed _ _⟩
      · split
        · rename_i hc
          rw [hc] at hclaim
          exact ⟨hclaim, hn⟩
        · rename_i hc
          rw [hc] at hclaim
          exact ⟨hclaim, hn⟩
  | initializing sub' form options ns ran =>
    simp only [Stage.step, resumeInit_workspace]
    split
    · exact h
    · exact h
  | ready sub' form options =>
    obtain ⟨hcurrent, hn⟩ := h
    exact ⟨hcurrent, hcurrent.trans hn.symm⟩
  | seen r =>
    obtain ⟨hcurrent, hn⟩ := h
    obtain ⟨-, hform, -⟩ := hof
    obtain ⟨hfails, hsucceeds⟩ := ordinary_ns? (hord _ hform) { workspace := w.workspace }
    refine ⟨hcurrent, hfails, fun v hv => ?_⟩
    -- the evaluation stays where it began, which is the namespace that was seen
    rcases hsucceeds with ⟨ev, s', hev, hns⟩ | ⟨⟨e, he⟩, -⟩
    · exact hns.trans (congrArg some ((hstays ev s' hev).trans hn))
    · cases hv.symm.trans he
  | served strict pending d =>
    obtain ⟨hcurrent, hfails, hsucceeds⟩ := h
    show (deliver strict pending d w.session).2.current =
      if (deliver strict pending d w.session).1.isSuccess then n else y
    rw [deliver_current]
    cases hs : (deliver strict pending d w.session).1.isSuccess with
    | false =>
      rw [hfails]
      exact hcurrent
    | true =>
      obtain ⟨v, hv⟩ := outcome_of_success hs
      rw [hsucceeds v hv]
      rfl
  | answered reply => exact h
  | delivered d => exact h

end

namespace Pool

variable {p : Pool} {subs : List Submission} {i : Nat}

/-- Whenever a request is evaluated while a schedule is followed, the evaluation ends where it
begins. -/
def Stays (p : Pool) (i : Nat) : List Nat → Prop
  | [] => True
  | j :: schedule =>
    (j = i → ∀ s, p.stages[i]? = some s → s.Stays p.world) ∧ (p.step j).Stays i schedule

/-- The parts of a schedule may be looked at one after the other. -/
lemma stays_append (xs ys : List Nat) :
    p.Stays i (xs ++ ys) ↔ p.Stays i xs ∧ (p.run xs).Stays i ys := by
  induction xs generalizing p with
  | nil => simp [Stays]
  | cons j xs ih =>
    rw [List.cons_append, Stays, Stays, run_cons, ih, and_assoc]

section

variable {sub : Submission} {s : Stage} {y n : Symbol} {schedule : List Nat}

/-- While the replies of all other requests are delivered, the steps of a request that stays do not
change where it is going to leave the session. -/
lemma heads_run (hsubs : p.Belongs subs) (hsub : subs[i]? = some sub) (hord : sub.Ordinary)
    (hothers : ∀ j s, j ≠ i → p.stages[j]? = some s → ∃ reply, s.reply? = some reply)
    (hstays : p.Stays i schedule) (hs : p.stages[i]? = some s)
    (h : s.Heads y n p.world.session.current) :
    ∃ s', (p.run schedule).stages[i]? = some s' ∧
      s'.Heads y n (p.run schedule).world.session.current := by
  induction schedule generalizing p s with
  | nil => exact ⟨s, hs, h⟩
  | cons j schedule ih =>
    obtain ⟨hnow, hrest⟩ := hstays
    by_cases hij : j = i
    · subst hij
      obtain ⟨sub', _, hsub', hof⟩ := hsubs j s hs
      cases hsub.symm.trans hsub'
      have hnext : (p.step j).stages[j]? = some (s.step p.world).2 := by
        rw [stages_step hs, if_pos rfl]
      refine ih (hsubs.step j) (fun k t hk ht => ?_) hrest hnext ?_
      · rw [stages_step hs, if_neg (Ne.symm hk)] at ht
        exact hothers k t hk ht
      · rw [step_of_stage hs]
        exact heads_step hof hord (hnow rfl s hs) h
    · cases hj : p.stages[j]? with
      | none =>
        rw [step_of_none hj] at hrest
        rw [run_cons, step_of_none hj]
        exact ih hsubs hothers hrest hs h
      | some t =>
        -- any other step belongs to a request that has only its caller to tell
        obtain ⟨reply, hreply⟩ := hothers j t hij hj
        obtain ⟨hworld, hstill⟩ := step_of_reply hreply p.world
        have hnext : (p.step j).stages[i]? = some s := by rw [stages_step hj, if_neg hij, hs]
        refine ih (hsubs.step j) (fun k t' hk ht' => ?_) hrest hnext ?_
        · rw [stages_step hj] at ht'
          split at ht'
          · cases ht'
            exact ⟨reply, hstill⟩
          · exact hothers k t' hk ht'
        · rwa [step_of_stage hj, hworld]

/-- The namespace that a request goes back to was the current one when it looked at the
session. -/
theorem bound_looked (hsubs : p.Belongs subs) (hsub : subs[i]? = some sub) (hord : sub.Ordinary)
    (hstart : ∀ s, p.stages[i]? = some s → s.bound? = none) (hstays : p.Stays i schedule)
    (hs : (p.run schedule).stages[i]? = some s) (hn : s.bound? = some n) :
    ∃ early late sub form options, schedule = early ++ i :: late ∧
      (p.run early).stages[i]? = some (.ready sub form options) ∧
      (p.run early).world.session.current = n := by
  induction schedule using List.reverseRecOn generalizing s with
  | nil =>
    rw [hstart s hs] at hn
    cases hn
  | append_singleton xs j ih =>
    obtain ⟨hbefore, hnow, -⟩ := (stays_append xs [j]).mp hstays
    rw [run_append, run_cons, run_nil] at hs
    -- what is known of the request before the step carries over
    have hearlier {t : Stage} (ht : (p.run xs).stages[i]? = some t) (hbound : t.bound? = some n) :
        ∃ early late sub form options, xs ++ [j] = early ++ i :: late ∧
          (p.run early).stages[i]? = some (.ready sub form options) ∧
          (p.run early).world.session.current = n := by
      obtain ⟨early, late, sub, form, options, rfl, hready, hcurrent⟩ := ih hbefore ht hbound
      exact ⟨early, late ++ [j], sub, form, options, by simp, hready, hcurrent⟩
    cases hj : (p.run xs).stages[j]? with
    | none =>
      rw [step_of_none hj] at hs
      exact hearlier hs hn
    | some t =>
      rw [stages_step hj] at hs
      split at hs
      · rename_i hij
        subst hij
        cases hs
        obtain ⟨sub', _, hsub', hof⟩ := belongs_run hsubs xs j t hj
        cases hsub.symm.trans hsub'
        cases t with
        | submitted sub' =>
          simp only [Stage.step, Stage.submit] at hn
          split at hn
          · cases hn
          · split at hn
            · cases hn
            · split at hn <;> cases hn
        | initializing sub' form options ns ran =>
          simp only [Stage.step] at hn
          split at hn <;> cases hn
        | ready sub' form options =>
          cases hn
          exact ⟨xs, [], sub', form, options, rfl, hj, rfl⟩
        | seen r =>
          obtain ⟨-, hform, -⟩ := hof
          obtain ⟨-, ⟨ev, s', hev, hns⟩ | ⟨-, hnowhere⟩⟩ :=
            ordinary_ns? (hord _ hform) { workspace := (p.run xs).world.workspace }
          · cases hns.symm.trans hn
            exact hearlier hj (congrArg some (hnow rfl _ hj ev s' hev).symm)
          · cases hnowhere.symm.trans hn
        | served strict pending d => cases hn
        | answered reply => cases hn
        | delivered d => cases hn
      · exact hearlier hs hn

/-- A request that enters a namespace, if it succeeds, leaves it the current one. -/
lemma current_of_switch {form : Form} (hsubs : p.Belongs subs) (hsub : subs[i]? = some sub)
    (hread : readForm sub.source = .ok form) (henters : form.Enters y) {strict : Bool}
    {pending : Option String} {d : Delivery}
    (hserved : p.stages[i]? = some (.served strict pending d))
    (hsuccess : (deliver strict pending d p.world.session).1.isSuccess = true) :
    (p.step i).world.session.current = y := by
  obtain ⟨sub', _, hsub', hof⟩ := hsubs i _ hserved
  cases hsub.symm.trans hsub'
  obtain ⟨v, hv⟩ := outcome_of_success hsuccess
  rw [step_of_stage hserved]
  show (deliver strict pending d p.world.session).2.current = y
  rw [deliver_current, hsuccess, prepared_enter hof hread henters hv]
  rfl

end

end Pool

/-! ### A switch and a request that stays -/

/-- The pool with two requests. -/
def Pool.pair (w : World) (a b : Submission) : Pool :=
  .start w [a, b]

section

variable {a b : Submission} {form : Form} {y : Symbol} {da db : Delivered}

/-- From the delivery of a switch on, the request that stays alone decides where the session
is left: where it is bound to go at that moment, if it is and succeeds. -/
theorem current_after_delivery {p : Pool} {strict : Bool} {pending : Option String} {d : Delivery}
    {after : List Nat} (hsubs : p.Belongs [a, b]) (hlength : p.stages.length = 2)
    (hread : readForm b.source = .ok form) (henters : form.Enters y) (hord : a.Ordinary)
    (hserved : p.stages[1]? = some (.served strict pending d)) (hstays : (p.step 1).Stays 0 after)
    (hend : ((p.step 1).run after).stages = [.delivered da, .delivered db])
    (hsuccess : db.reply.isSuccess = true) :
    ((p.step 1).run after).world.session.current =
      if da.reply.isSuccess then (p.stages[0]?.bind Stage.bound?).getD y else y := by
  -- the switch is delivered, with the reply that is there in the end
  have hreply : (p.step 1).stages[1]? =
      some (.answered (deliver strict pending d p.world.session).1) := Pool.stages_step hserved 1
  obtain ⟨s', hs', hfinal⟩ := Pool.reply_run hreply rfl after
  rw [hend] at hs'
  cases hs'
  have hdb : db.reply = (deliver strict pending d p.world.session).1 := Option.some.inj hfinal
  rw [hdb] at hsuccess
  have hcurrent := Pool.current_of_switch hsubs rfl hread henters hserved hsuccess
  -- the other request goes on from where it stands, and nobody else does
  obtain ⟨s, hs⟩ : ∃ s, p.stages[0]? = some s :=
    ⟨_, List.getElem?_eq_getElem (by rw [hlength]; decide)⟩
  have hsub : [a, b][0]? = some a := rfl
  obtain ⟨sub, _, hsub', hof⟩ := hsubs 0 s hs
  cases hsub.symm.trans hsub'
  have hsame : (p.step 1).stages[0]? = some s := by
    rw [Pool.stages_step hserved, if_neg (by decide), hs]
  have hothers (j : Nat) (t : Stage) (hj : j ≠ 0) (ht : (p.step 1).stages[j]? = some t) :
      ∃ reply, t.reply? = some reply := by
    have hstep : (p.step 1).stages.length = 2 := (Pool.length_run p [1]).trans hlength
    have hlt : j < (p.step 1).stages.length := (List.getElem?_eq_some_iff.mp ht).1
    obtain rfl : j = 1 := by omega
    cases ht.symm.trans hreply
    exact ⟨_, rfl⟩
  have hheads : s.Heads y (s.bound?.getD y) (p.step 1).world.session.current := by
    rw [hcurrent]
    exact heads_bound hof hord
  obtain ⟨s', hs', hheads'⟩ :=
    Pool.heads_run (hsubs.step 1) hsub hord hothers hstays hsame hheads
  rw [hend] at hs'
  cases hs'
  rw [hs]
  exact hheads'

/-- When a request that stays and a switch to `y` are both delivered, then `y` is the current
namespace, unless the first one, at the moment of the other's delivery, had looked at the
session and was still to be delivered, with a success. Then the current namespace is the one
that was current when it looked. -/
theorem current_after_switch {w : World} {schedule : List Nat}
    (hread : readForm b.source = .ok form) (henters : form.Enters y) (hord : a.Ordinary)
    (hstays : (Pool.pair w a b).Stays 0 schedule)
    (hend : ((Pool.pair w a b).run schedule).stages = [.delivered da, .delivered db])
    (hsuccess : db.reply.isSuccess = true) :
    ∃ before after strict pending d, schedule = before ++ 1 :: after ∧
      ((Pool.pair w a b).run before).stages[1]? = some (.served strict pending d) ∧
      ∃ bound, ((Pool.pair w a b).run before).stages[0]?.bind Stage.bound? = bound ∧
        ((Pool.pair w a b).run schedule).world.session.current =
          (if da.reply.isSuccess then bound.getD y else y) ∧
        ∀ n, bound = some n → ∃ early late sub form options, before = early ++ 0 :: late ∧
          ((Pool.pair w a b).run early).stages[0]? = some (.ready sub form options) ∧
          ((Pool.pair w a b).run early).world.session.current = n := by
  have hsubs : (Pool.pair w a b).Belongs [a, b] := Pool.belongs_start w [a, b]
  have hsub : [a, b][0]? = some a := rfl
  have hfresh (s : Stage) (hs : (Pool.pair w a b).stages[0]? = some s) : s.bound? = none := by
    cases hs
    rfl
  have hplace : ((Pool.pair w a b).run schedule).stages[1]? = some (.delivered db) := by
    rw [hend]
    rfl
  obtain ⟨before, after, strict, pending, d, rfl, hserved⟩ :=
    Pool.exists_delivery (p := Pool.pair w a b) rfl rfl hplace rfl
  obtain ⟨hbefore, -, hafter⟩ := (Pool.stays_append before (1 :: after)).mp hstays
  rw [Pool.run_append, Pool.run_cons] at hend ⊢
  have hcurrent := current_after_delivery (Pool.belongs_run hsubs before)
    (Pool.length_run _ before) hread henters hord hserved hafter hend hsuccess
  refine ⟨before, after, strict, pending, d, rfl, hserved, _, rfl, hcurrent, fun n hn => ?_⟩
  obtain ⟨s, hs, hbound⟩ := Option.bind_eq_some_iff.mp hn
  exact Pool.bound_looked hsubs hsub hord hfresh hbefore hs hbound

end

/-! ### A switch that is undone -/

/-- A request for a form that is its own value stays, whatever schedule is followed. -/
lemma stays_of_value {p : Pool} {subs : List Submission} {i : Nat} {sub : Submission}
    {form : Form} (hsubs : p.Belongs subs) (hsub : subs[i]? = some sub)
    (hread : readForm sub.source = .ok form)
    (hvalue : ∀ require opts, evalForm require opts form = pure (opts.here (.data form)))
    (schedule : List Nat) : p.Stays i schedule := by
  induction schedule generalizing p with
  | nil => trivial
  | cons j schedule ih =>
    refine ⟨fun _ s hs => ?_, ih (hsubs.step j)⟩
    obtain ⟨sub', _, hsub', hof⟩ := hsubs i s hs
    cases hsub.symm.trans hsub'
    cases s with
    | seen r =>
      obtain ⟨hsource, -, -⟩ := hof
      intro ev s' hev
      rw [hsource] at hev
      simp only [Eval.source, bind, Eval.change, Eval.ofExcept, hread, hvalue] at hev
      cases hev
      rfl
    | _ => trivial

section

variable {source : String}

/-- A new session that is initialized. -/
def World.initialized : World :=
  { session := { init := ⟨false, false⟩ } }

/-- The options of a request under the default options. -/
def RequestOptions.plain : RequestOptions :=
  ⟨{}, 0, none, .nothing⟩

lemma nil_looks (h : readForm source = .ok .nil) (b : Submission) :
    (Pool.pair {} ⟨source, {}⟩ b).run [0, 0, 0] =
      ⟨.initialized, [.seen (Stage.look .initialized ⟨source, {}⟩ .nil .plain), .submitted b]⟩ := by
  have hsubmit : (Stage.submitted ⟨source, {}⟩).step ({} : World) =
      (({ session := ({} : Session).claimInit.2 } : World),
        .initializing ⟨source, {}⟩ .nil .plain defaultNamespace 0) := by
    simp only [Stage.step, Stage.submit, h]
    rfl
  have hfirst : (Pool.pair {} ⟨source, {}⟩ b).stages[0]? = some (.submitted ⟨source, {}⟩) := rfl
  have hworld : (Pool.pair {} ⟨source, {}⟩ b).world = {} := rfl
  rw [Pool.run_cons, Pool.step_of_stage hfirst, hworld, hsubmit]
  rfl

/-- A switch is served and delivered in an initialized session. -/
lemma switch_delivered
    (h : readForm source = .ok (.list [.ofName "in-ns", .quote (.symbol ⟨"y"⟩)])) (s : Stage) :
    ∃ workspace d, (⟨.initialized, [s, .submitted ⟨source, {}⟩]⟩ : Pool).run [1, 1, 1, 1, 1] =
        ⟨{ World.initialized with
            session := World.initialized.session.enter ⟨"y"⟩, workspace := workspace },
          [s, .delivered d]⟩ ∧ d.reply.isSuccess = true := by
  have hsubmit : (Stage.submitted ⟨source, {}⟩).step .initialized = (.initialized,
      .ready ⟨source, {}⟩ (.list [.ofName "in-ns", .quote (.symbol ⟨"y"⟩)]) .plain) := by
    simp only [Stage.step, Stage.submit, h]
    rfl
  have hfirst : (⟨.initialized, [s, .submitted ⟨source, {}⟩]⟩ : Pool).stages[1]? =
      some (.submitted ⟨source, {}⟩) := rfl
  rw [Pool.run_cons, Pool.step_of_stage hfirst, hsubmit]
  exact ⟨_, _, rfl, rfl⟩

/-- A request for nil that has looked at a new session is served and delivered, and goes back
to where it was. -/
lemma nil_goes_back (h : readForm source = .ok .nil) (w : World) (d : Delivered) :
    ∃ w' d', (⟨w, [.seen (Stage.look .initialized ⟨source, {}⟩ .nil .plain), .delivered d]⟩ :
          Pool).run [0, 0, 0] = ⟨w', [.delivered d', .delivered d]⟩ ∧
        d'.reply.isSuccess = true ∧ w'.session.current = defaultNamespace := by
  generalize hr : Stage.look .initialized ⟨source, {}⟩ .nil .plain = r
  have hsource : readForm r.source = .ok .nil := hr ▸ h
  have hform : r.form = .nil := hr ▸ rfl
  have hns : r.ns = defaultNamespace := hr ▸ rfl
  have hstrict : r.options.settings.warningAsError = false := hr ▸ rfl
  have hd : Directive.classify? r.form = none := hform ▸ rfl
  obtain ⟨s, hev, hquiet⟩ : ∃ s, Eval.source (r.evalOptions r.ns) r.source
      { workspace := w.workspace } = (.ok ⟨.data .nil, r.ns⟩, s) ∧ s.warnings.pending = none := by
    simp only [Eval.source, bind, Eval.change, Eval.ofExcept, hsource, evalForm]
    exact ⟨_, rfl, rfl⟩
  have hserve : (Stage.seen r).step w =
      ({ w with workspace := s.workspace, reads := w.reads ++ s.reads },
        .served false none
          { form := r.form
            outcome := .ok (.data .nil)
            effect := .onSuccess ⟨some (.data .nil), defaultNamespace⟩ }) := by
    simp only [Stage.step, Stage.serveIn, serve, hd, serveOrdinary, Workspace.evalSource_eq, hev,
      hquiet, hstrict]
    rw [hform, hns]
    rfl
  have hfirst : (⟨w, [.seen r, .delivered d]⟩ : Pool).stages[0]? = some (.seen r) := rfl
  rw [Pool.run_cons, Pool.step_of_stage hfirst, hserve]
  exact ⟨_, _, rfl, rfl, rfl⟩

end

/-- A request for nil looks at a new session, a switch to another namespace is served and
delivered, and only then the request for nil. -/
def staleSchedule : List Nat :=
  [0, 0, 0] ++ ([1, 1, 1, 1, 1] ++ [0, 0, 0])

/-- Both requests of the stale schedule are delivered with a success, and the namespace is the
one that the first of them found. -/
lemma stale_run {a b : String} (ha : readForm a = .ok .nil)
    (hb : readForm b = .ok (.list [.ofName "in-ns", .quote (.symbol ⟨"y"⟩)])) :
    ∃ da db, ((Pool.pair {} ⟨a, {}⟩ ⟨b, {}⟩).run staleSchedule).stages =
        [.delivered da, .delivered db] ∧ da.reply.isSuccess = true ∧ db.reply.isSuccess = true ∧
      ((Pool.pair {} ⟨a, {}⟩ ⟨b, {}⟩).run staleSchedule).world.session.current =
        defaultNamespace := by
  obtain ⟨workspace, db, hswitch, hdb⟩ :=
    switch_delivered hb (.seen (Stage.look .initialized ⟨a, {}⟩ .nil .plain))
  obtain ⟨w', da, hback, hda, hcurrent⟩ := nil_goes_back ha
    { World.initialized with
      session := World.initialized.session.enter ⟨"y"⟩, workspace := workspace } db
  rw [staleSchedule, Pool.run_append, Pool.run_append, nil_looks ha, hswitch, hback]
  exact ⟨da, db, rfl, hda, hdb, hcurrent⟩

/-- The two texts are read as nil, which calls no directive and stays, and as a switch. -/
lemma stale_requests :
    readForm "nil" = .ok .nil ∧
      readForm "(in-ns 'y)" = .ok (.list [.ofName "in-ns", .quote (.symbol ⟨"y"⟩)]) ∧
      Submission.Ordinary ⟨"nil", {}⟩ ∧
      (Pool.pair {} ⟨"nil", {}⟩ ⟨"(in-ns 'y)", {}⟩).Stays 0 staleSchedule := by
  have ha : readForm "nil" = .ok .nil := by cbv
  have hord : Submission.Ordinary ⟨"nil", {}⟩ := by
    intro form hform
    cases ha.symm.trans hform
    rfl
  have hsub : [(⟨"nil", {}⟩ : Submission), ⟨"(in-ns 'y)", {}⟩][0]? = some ⟨"nil", {}⟩ := rfl
  have hstays : (Pool.pair {} ⟨"nil", {}⟩ ⟨"(in-ns 'y)", {}⟩).Stays 0 staleSchedule :=
    stays_of_value (Pool.belongs_start _ _) hsub ha (fun _ _ => by simp only [evalForm])
      staleSchedule
  exact ⟨ha, by cbv, hord, hstays⟩

/-- A request for nil and a switch to `y`, by the stale schedule: both are delivered with a
success, and the current namespace is the one that the request for nil found when it looked,
before the switch was delivered. -/
theorem current_after_stale_run :
    ∃ da db, ((Pool.pair {} ⟨"nil", {}⟩ ⟨"(in-ns 'y)", {}⟩).run staleSchedule).stages =
        [.delivered da, .delivered db] ∧ db.reply.isSuccess = true ∧
      ∃ early late after, staleSchedule = early ++ 0 :: late ++ 1 :: after ∧
        ((Pool.pair {} ⟨"nil", {}⟩ ⟨"(in-ns 'y)", {}⟩).run staleSchedule).world.session.current =
          ((Pool.pair {} ⟨"nil", {}⟩ ⟨"(in-ns 'y)", {}⟩).run early).world.session.current := by
  obtain ⟨ha, hb, hord, hstays⟩ := stale_requests
  obtain ⟨da, db, hend, hda, hdb, hdefault⟩ := stale_run ha hb
  obtain ⟨before, after, -, -, -, hschedule, -, bound, -, hcurrent, hlooked⟩ :=
    current_after_switch (b := ⟨"(in-ns 'y)", {}⟩) hb (enters_quote _) hord hstays hend hdb
  rw [hda, if_pos rfl] at hcurrent
  cases bound with
  | none =>
    rw [hdefault] at hcurrent
    exact absurd hcurrent (by decide)
  | some n =>
    obtain ⟨early, late, -, -, -, rfl, -, hn⟩ := hlooked n rfl
    exact ⟨da, db, hend, hdb, early, late, after, hschedule, hcurrent.trans hn.symm⟩

/-- A switch to `y` is undone by a request for nil, which stays where it is: both are delivered
with a success, and another namespace is the current one. -/
theorem switch_undone :
    readForm "(in-ns 'y)" = .ok (.list [.ofName "in-ns", .quote (.symbol ⟨"y"⟩)]) ∧
      Submission.Ordinary ⟨"nil", {}⟩ ∧
      (Pool.pair {} ⟨"nil", {}⟩ ⟨"(in-ns 'y)", {}⟩).Stays 0 staleSchedule ∧
      ∃ da db, ((Pool.pair {} ⟨"nil", {}⟩ ⟨"(in-ns 'y)", {}⟩).run staleSchedule).stages =
          [.delivered da, .delivered db] ∧
        da.reply.isSuccess = true ∧ db.reply.isSuccess = true ∧
        ((Pool.pair {} ⟨"nil", {}⟩ ⟨"(in-ns 'y)", {}⟩).run staleSchedule).world.session.current ≠
          ⟨"y"⟩ := by
  obtain ⟨ha, hb, hord, hstays⟩ := stale_requests
  obtain ⟨da, db, hend, hda, hdb, hcurrent⟩ := stale_run ha hb
  refine ⟨hb, hord, hstays, da, db, hend, hda, hdb, ?_⟩
  rw [hcurrent]
  decide

end Listener
