/-
What the handlers of requests leave for their delivery.

* `Effect.value?`: the value that an effect adds to the history; `apply_history` says that
  an effect does nothing else there.
* `Delivery.Silent`: a delivery for a form that adds no value; one lemma for each directive.
* `serve_form`, `serve_value?`: a served request answers its own form, and its value is
  remembered exactly when no directive is called and the form asks for it.
-/
import Listener.Request.Serve
import Mathlib.Tactic.Lemma

namespace Listener

variable {σ : Type} [Evaluator σ]

/-! ### Effects on the history -/

/-- The value that an effect adds to the history. -/
def Effect.value? (e : Effect) (success : Bool) : Option Value :=
  match e with
  | .none => Option.none
  | .always c => c.value
  | .onSuccess c => if success then c.value else Option.none

/-- The history with one more value, if there is one. -/
def History.pushAny (h : History) (v : Option Value) : History :=
  match v with
  | some v => h.push v
  | none => h

lemma change_history (c : Change) (s : Session) :
    (c.apply s).history = s.history.pushAny c.value := by
  rw [Change.apply]
  cases c.value <;> rfl

/-- An effect adds its value to the history and does nothing else there. -/
lemma apply_history (e : Effect) (success : Bool) (s : Session) :
    (e.apply success s).history = s.history.pushAny (e.value? success) := by
  cases e with
  | none => rfl
  | always c => exact change_history c s
  | onSuccess c =>
    cases success with
    | true => exact change_history c s
    | false => rfl

/-! ### Deliveries without a value to remember -/

/-- The delivery is for the form, and no value is remembered with it. -/
def Delivery.Silent (form : Form) (d : Delivery) : Prop :=
  d.form = form ∧ ∀ success, d.effect.value? success = none

lemma silent_ofError (form : Form) (e : Error) : (Delivery.ofError form e).Silent form :=
  ⟨rfl, fun _ => rfl⟩

lemma silent_ofText (form : Form) (text : String) : (Delivery.ofText form text).Silent form :=
  ⟨rfl, fun _ => rfl⟩

lemma silent_enter (r : Request) (s : EvalState σ) : (serveEnter r s).1.Silent r.form := by
  rw [serveEnter]
  split
  · exact silent_ofError _ _
  · dsimp only
    split
    · exact ⟨rfl, fun _ => rfl⟩
    · split
      · exact ⟨rfl, fun success => by cases success <;> rfl⟩
      · exact silent_ofError _ _

lemma silent_require (kind : RequireKind) (r : Request) (s : EvalState σ) :
    (serveRequire kind r s).1.Silent r.form := by
  rw [serveRequire]
  split
  · exact silent_ofError _ _
  · refine ⟨rfl, fun success => ?_⟩
    dsimp only
    split <;> rfl

lemma silent_doc (r : Request) (s : EvalState σ) : (serveDoc r s).1.Silent r.form := by
  rw [serveDoc]
  split
  · exact silent_ofError _ _
  · exact silent_ofText _ _

lemma silent_source (r : Request) (s : EvalState σ) : (serveSource r s).1.Silent r.form := by
  rw [serveSource]
  split
  · exact silent_ofError _ _
  · split
    · exact silent_ofText _ _
    · exact silent_ofText _ _

lemma silent_trace (r : Request) (s : EvalState σ) : (serveTrace r s).1.Silent r.form := by
  rw [serveTrace]
  split
  · exact ⟨rfl, fun _ => rfl⟩
  · split
    · exact silent_ofText _ _
    · exact silent_ofError _ _

lemma silent_listing (r : Request) (s : EvalState σ) : (serveListing r s).1.Silent r.form := by
  rw [serveListing]
  split
  · exact silent_ofError _ _
  · exact silent_ofText _ _

/-- No directive adds a value. -/
lemma silent_directive (d : Directive) (r : Request) (s : EvalState σ) :
    (d.serve r s).1.Silent r.form := by
  cases d with
  | enter => exact silent_enter r s
  | require kind => exact silent_require kind r s
  | doc => exact silent_doc r s
  | source => exact silent_source r s
  | trace => exact silent_trace r s
  | listing => exact silent_listing r s
  | loadFile => exact silent_ofError _ _

/-! ### All requests -/

/-- Whether the values of a form's evaluation are remembered: the form calls no directive,
and it is neither a variable of the history nor a call of `ns`. -/
def isRecorded (form : Form) : Bool :=
  (Directive.classify? form).isNone && isRemembered form

lemma serve_form (r : Request) (s : EvalState σ) : (serve r s).1.form = r.form := by
  rw [serve]
  split
  · rename_i d _
    exact (silent_directive d r s).1
  · rw [serveOrdinary]
    split <;> rfl

/-- A success of a served request is remembered exactly when its form is recorded. -/
lemma serve_value? (r : Request) (s : EvalState σ) {v : Value}
    (h : (serve r s).1.outcome = .ok v) :
    (serve r s).1.effect.value? true = if isRecorded r.form then some v else none := by
  rw [serve] at h ⊢
  split
  · rename_i d hd
    simp [isRecorded, hd, (silent_directive d r s).2]
  · rename_i hd
    rw [hd] at h
    rw [serveOrdinary] at h ⊢
    split
    · rename_i he
      rw [he] at h
      cases h
      simp [isRecorded, hd, Effect.value?]
    · rename_i he
      rw [he] at h
      cases h

lemma serve_value?_false (r : Request) (s : EvalState σ) :
    (serve r s).1.effect.value? false = none := by
  rw [serve]
  split
  · rename_i d _
    exact (silent_directive d r s).2 false
  · rw [serveOrdinary]
    split <;> rfl

end Listener
