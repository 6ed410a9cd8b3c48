/-
What a reset keeps.

* `InitState.passed`: the flags of initialization behind a request that has nothing to do for it.
* `serve_idle`: a submission without init actions and without a reader changes nothing else about
  initialization, and not the module index.
* `World.history_clearError`, `World.history_enterDefault`: what the two requests of a reset add to
  the history.
* `reset_keeps`: what a reset with no options leaves of the history, of the flags of
  initialization and of the module index; `reset_remembered` shows what it does not keep.
-/
import Listener.Proofs.Request.Resets
import Listener.Proofs.Request.Strictness

namespace Listener

/-! ### Initialization without actions -/

/-- The flags when a request that has nothing to do for it has initialization behind it: they stay
while somebody is at it, and otherwise initialization is over. -/
def InitState.passed (s : InitState) : InitState :=
  if s.initializing then s else ⟨false, false⟩

/-- Nothing is left to do for a second such request. -/
lemma passed_passed (s : InitState) : s.passed.passed = s.passed := by
  obtain ⟨needsInit, initializing⟩ := s
  cases initializing <;> rfl

/-- Behind such a request nobody becomes the owner of initialization. -/
lemma claim_passed (s : InitState) : s.passed.claim.1 ≠ .owner := by
  obtain ⟨needsInit, initializing⟩ := s
  cases initializing <;> exact nofun

/-- Without init actions and without a reader, only the flags change on the way through
initialization. -/
lemma afterInit_idle {o : RequestOptions} (hactions : o.initActions = 0)
    (hreader : o.reader = none) (w : World) (form : Form) :
    w.afterInit form o = { w with session := w.session.mark w.session.init.passed } := by
  have hnotes (ns : Symbol) : o.notes form ns 0 = [] := rfl
  obtain ⟨⟨current, warning, ⟨needsInit, initializing⟩, index, history⟩, workspace, reads, inits⟩ :=
    w
  simp only [World.afterInit, Stage.finishInit, hactions, hreader, hnotes, List.append_nil]
  cases needsInit <;> cases initializing <;> rfl

/-- A submission without init actions and without a reader changes neither the module index nor the
notes of the init actions, and of the flags no more than it must. -/
theorem serve_idle {sub : Submission} {form : Form} {o : RequestOptions}
    (hform : readForm sub.source = .ok form) (ho : sub.options.normalize = .ok o)
    (hactions : o.initActions = 0) (hreader : o.reader = none) (w : World) :
    (w.serve sub).1.session.init = w.session.init.passed ∧
      (w.serve sub).1.session.index = w.session.index ∧ (w.serve sub).1.inits = w.inits := by
  have hworld : (w.due sub).world.session = w.session.mark w.session.init.passed ∧
      (w.due sub).world.inits = w.inits := by
    simp only [World.due, hform, ho, World.attend, afterInit_idle hactions hreader]
    exact ⟨trivial, trivial⟩
  rw [serve_eq_deliver]
  simp only [Due.deliver, deliver_init, deliver_index, hworld.1, hworld.2]
  exact ⟨rfl, rfl, trivial⟩

/-- A submission that calls a directive adds no value to the history. -/
lemma due_silent {sub : Submission} {form : Form} {o : RequestOptions} {d : Directive}
    (hform : readForm sub.source = .ok form) (ho : sub.options.normalize = .ok o)
    (hd : Directive.classify? form = some d) (w : World) (success : Bool) :
    (w.due sub).delivery.effect.value? success = none := by
  have hrequest : Directive.classify? (w.request sub form o).form = some d := hd
  rw [(due_of_request hform ho).1]
  simp only [serve, hrequest]
  exact (silent_directive d _ _).2 success

/-- Unless somebody becomes the owner of initialization, no init action is run. -/
lemma inits_serve_other {w : World} (hclaim : w.session.init.claim.1 ≠ .owner)
    (sub : Submission) : (w.serve sub).1.inits = w.inits := by
  have hmark : w = w.mark w.session.init w.inits := rfl
  rw [serve_other hclaim, hmark, entry_mark]
  rfl

/-! ### The history behind a reset -/

namespace World

variable {options : Options} {o : RequestOptions}

/-- The request that clears the latest error is remembered with its value. -/
theorem history_clearError (ho : options.normalize = .ok o) (w : World) :
    (w.serve (clearError options)).1.session.history =
      { w.session.history.push .nil with error := none } := by
  have hform := readForm_clearError options
  have hserve := serve_clearError (w.request (clearError options) clearErrorForm o) rfl hform
  have hhistory := (afterInit_frame w clearErrorForm o).2.2
  have ho' : (clearError options).options.normalize = .ok o := ho
  rw [serve_eq_deliver]
  simp only [due, hform, ho', attend, hserve, Due.deliver, deliver_history, hhistory]
  rfl

/-- The request that enters the default namespace adds no value to the history. -/
theorem history_enterDefault (ho : options.normalize = .ok o) (w : World) :
    (w.serve (enterDefault options)).1.session.history =
      { w.session.history with
        error := (w.serve (enterDefault options)).1.session.history.error } := by
  have hsilent := due_silent (readForm_enterDefault options) ho (enters_quote defaultNamespace).1 w
    (w.serve (enterDefault options)).2.reply.isSuccess
  have hhistory := serve_history w (enterDefault options)
  rw [hsilent] at hhistory
  conv_lhs => rw [hhistory]
  rw [hhistory]
  rfl

/-- What the two requests of a reset leave of the history, of initialization and of the module
index. -/
lemma settle_keeps (ho : options.normalize = .ok o) (hactions : o.initActions = 0)
    (hreader : o.reader = none) (w : World) :
    (w.settle options).session.history =
        { w.session.history.push .nil with
          error := (w.settle options).session.history.error } ∧
      (w.settle options).session.init = w.session.init.passed ∧
      (w.settle options).session.index = w.session.index ∧
      (w.settle options).inits = w.inits := by
  have hfirst := serve_idle (readForm_clearError options) ho hactions hreader
    { w with session := w.session.clearWarning }
  have hsecond := serve_idle (readForm_enterDefault options) ho hactions hreader
    (World.serve { w with session := w.session.clearWarning } (clearError options)).1
  have hhistory := history_enterDefault ho
    (World.serve { w with session := w.session.clearWarning } (clearError options)).1
  rw [history_clearError ho] at hhistory
  rw [hfirst.1, hfirst.2.1, hfirst.2.2] at hsecond
  refine ⟨hhistory, hsecond.1.trans (passed_passed _), hsecond.2⟩

end World

/-- What a reset with no options leaves, if it reports success. The history is that of before with
nil in front, the value of the request that clears the latest error. Initialization that was
pending is over, without any init action, so that a later request runs none either; only somebody
who is at it stays so. The module index is the same. -/
theorem reset_keeps {w : World} {names : List Symbol} (hok : (w.reset {} names).1 = .ok ()) :
    let reset := (w.reset {} names).2
    (reset.session.history.one = some .nil ∧ reset.session.history.two = w.session.history.one ∧
        reset.session.history.three = w.session.history.two) ∧
      reset.session.init = (if w.session.init.initializing then w.session.init else ⟨false, false⟩) ∧
      reset.session.index = w.session.index ∧ reset.inits = w.inits ∧
      ∀ sub, (reset.serve sub).1.inits = w.inits := by
  intro reset
  have hreset : reset = (w.purge names).settle {} := by
    rcases w.reset_cases {} names with ⟨-, hrefused⟩ | ⟨-, hreset⟩
    · rw [hrefused] at hok
      cases hok
    · exact congrArg Prod.snd hreset
  have ho : ({} : Options).normalize = .ok ⟨{}, 0, none, .nothing⟩ := rfl
  obtain ⟨hhistory, hinit, hindex, hinits⟩ := World.settle_keeps ho rfl rfl (w.purge names)
  rw [← hreset] at hhistory hinit hindex hinits
  have hother : reset.session.init.claim.1 ≠ .owner := by
    rw [hinit]
    exact claim_passed _
  refine ⟨?_, hinit, hindex, hinits, fun sub => (inits_serve_other hother sub).trans hinits⟩
  rw [hhistory]
  exact ⟨rfl, rfl, rfl⟩

/-- A reset of a session that is initializing and remembers a value. -/
theorem reset_keeps_busy :
    let w : World :=
      { session := { init := ⟨true, true⟩, history := { one := some (.data (.int 42)) } } }
    let reset := w.reset {} [defaultNamespace]
    reset.1 = .ok () ∧ reset.2.session.history.two = some (.data (.int 42)) ∧
      reset.2.session.init = ⟨true, true⟩ := by
  intro w reset
  have hok : reset.1 = .ok () := by
    rcases w.reset_cases {} [defaultNamespace] with ⟨hleft, -⟩ | ⟨-, hreset⟩
    · exact absurd rfl hleft
    · exact congrArg Prod.fst hreset
  obtain ⟨⟨-, htwo, -⟩, hinit, -⟩ := reset_keeps hok
  exact ⟨hok, htwo, hinit⟩

/-- A reset does not leave all but the namespace, the latest error and the warning slot alone. A new
session remembers nil after it, and is not initialized any more by the next caller, whose init
action would have been run without the reset. -/
theorem reset_remembered :
    let fresh : World := {}
    let sub : Submission := ⟨":ready", { initActions := 1 }⟩
    let reset := fresh.reset {} []
    reset.1 = .ok () ∧
      fresh.session.history.one = none ∧ reset.2.session.history.one = some .nil ∧
      fresh.session.init.needsInit = true ∧ reset.2.session.init.needsInit = false ∧
      (fresh.serve sub).1.inits.length = 1 ∧ (reset.2.serve sub).1.inits.length = 0 := by
  intro fresh sub reset
  have hreset : reset = (.ok (), (fresh.purge []).settle {}) := by
    rcases fresh.reset_cases {} [] with ⟨hleft, -⟩ | ⟨-, hreset⟩
    · exact absurd rfl hleft
    · exact hreset
  have ho : ({} : Options).normalize = .ok ⟨{}, 0, none, .nothing⟩ := rfl
  obtain ⟨hhistory, hinit, -, hinits⟩ := World.settle_keeps ho rfl rfl (fresh.purge [])
  have hread : readForm sub.source = .ok (.keyword "ready") := by
    show readForm ":ready" = _
    cbv
  have howner : (fresh.serve sub).1.inits.length = 1 := by
    have hsub : sub.options.normalize = .ok ⟨{}, 1, none, .nothing⟩ := rfl
    have hundiscovered : RequestOptions.Undiscovered ⟨{}, 1, none, .nothing⟩ :=
      undiscovered_of_none rfl
    rw [serve_first makes_nothing rfl hread hsub, finishInit_undiscovered hundiscovered, entry_mark]
    rfl
  have hother : reset.2.session.init.claim.1 ≠ .owner := by
    rw [hreset, hinit]
    exact claim_passed _
  have hnext : (reset.2.serve sub).1.inits.length = 0 := by
    rw [inits_serve_other hother, hreset, hinits]
    rfl
  refine ⟨congrArg Prod.fst hreset, rfl, ?_, rfl, ?_, howner, hnext⟩
  · rw [hreset, hhistory]
    rfl
  · rw [hreset, hinit]
    rfl

end Listener
