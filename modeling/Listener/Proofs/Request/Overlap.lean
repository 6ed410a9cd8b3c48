/-
Two requests at the same time, as if the second one had been served before the first.

* `World.mark`: the world with other flags of initialization and other notes. A request that
  has initialization behind it heeds neither: `entry_mark`.
* `InitChanges`, `InitActions.Makes`: init actions that only change the state of the evaluator, each
  one until it gives up its turn and from then on.
* `Evaluator.Unheeded`, `InitChanges.Orderly`: changes that serving a request commutes with; only
  what the first action does at once may be heeded.
* `Submission.entry`: where a request stands when it has initialization behind it;
  `serve_owner`, `serve_other` and `serve_unread` say how requests get there.
* `untilYield_first`: where the owner of initialization gives up its turn.
* `overlap_serializable`: while the owner waits in its first init action another request is
  served, and both get what they would have got one after the other, whatever the evaluator is;
  `overlap_noticed` shows what the second caller notices all the same, and what init actions that
  are not orderly may do.
-/
import Listener.Proofs.Request.Initialization
import Listener.Proofs.Source.Manifest
import Listener.Request.Schedule
import Mathlib

namespace Listener

variable {σ : Type}

/-! ### Flags and notes -/

/-- The world with other flags of initialization and other notes of init actions. -/
def World.mark (w : World σ) (flags : InitState) (notes : List InitNote) : World σ :=
  { w with session := w.session.mark flags, inits := notes }

/-- The delivery with other flags of initialization for its caller. -/
def Delivered.mark (d : Delivered) (flags : InitState) : Delivered :=
  { d with seen := d.seen.mark flags }

/-- The world with another state of the evaluator. -/
def World.onState (w : World σ) (f : σ → σ) : World σ :=
  { w with workspace := f w.workspace }

section

variable (w : World σ) (flags flags' : InitState) (notes notes' : List InitNote)

@[simp] lemma World.mark_session : (w.mark flags notes).session = w.session.mark flags := rfl

end

/-- Changes of the state of an evaluator, for the init action with a number, a namespace and a
target: one until the action gives up its turn, and one from then on. -/
structure InitChanges (σ : Type) where
  /-- The change until then. -/
  before (number : Nat) (ns : Symbol) (target : Target) : σ → σ
  /-- The change from then on. -/
  behind (number : Nat) (ns : Symbol) (target : Target) : σ → σ

/-- The init actions make these changes, and do nothing else. -/
structure InitActions.Makes [InitActions σ] (c : InitChanges σ) : Prop where
  /-- Until an action gives up its turn. -/
  before : ∀ (note : InitNote) (w : World σ),
    InitActions.before note w = w.onState (c.before note.number note.ns note.target)
  /-- From then on. -/
  behind : ∀ (note : InitNote) (w : World σ),
    InitActions.behind note w = w.onState (c.behind note.number note.ns note.target)

/-- The changes that are left to make when `ran` actions have begun, and another `left` actions are
still to begin. -/
def InitChanges.rest (c : InitChanges σ) (ns : Symbol) (target : Target) :
    (left ran : Nat) → σ → σ
  | 0, ran => ended ran
  | left + 1, ran => rest c ns target left (ran + 1) ∘ c.before (ran + 1) ns target ∘ ended ran
where
  /-- The change that the latest of the actions that have begun still has to make. -/
  ended (ran : Nat) : σ → σ :=
    if ran = 0 then id else c.behind ran ns target

/-- No changes at all. -/
def InitChanges.nothing : InitChanges σ where
  before _ _ _ := id
  behind _ _ _ := id

/-- Beside a workspace, init actions make no changes. -/
lemma makes_nothing : InitActions.Makes (InitChanges.nothing : InitChanges Workspace) :=
  ⟨fun _ _ => rfl, fun _ _ => rfl⟩

lemma rest_nothing (ns : Symbol) (target : Target) (left ran : Nat) :
    (InitChanges.nothing : InitChanges σ).rest ns target left ran = id := by
  have hended (ran : Nat) :
      InitChanges.rest.ended (InitChanges.nothing : InitChanges σ) ns target ran = id := by
    rw [InitChanges.rest.ended]
    split <;> rfl
  induction left generalizing ran with
  | zero => exact hended ran
  | succ left ih =>
    rw [InitChanges.rest, ih, hended]
    rfl

/-- A change of the evaluator's state that requests do not heed: whatever is served behind the
change has the same outcome, and leaves the state that it leaves otherwise, with the change. -/
def Evaluator.Unheeded [Evaluator σ] (f : σ → σ) : Prop :=
  ∀ (request : Request) (s : EvalState σ),
    serve request { s with workspace := f s.workspace } =
      ((serve request s).1,
        { (serve request s).2 with workspace := f (serve request s).2.workspace })

lemma Evaluator.Unheeded.comp [Evaluator σ] {f g : σ → σ} (hf : Evaluator.Unheeded f)
    (hg : Evaluator.Unheeded g) : Evaluator.Unheeded (f ∘ g) := by
  intro request s
  rw [Function.comp_apply, hf request { s with workspace := g s.workspace }, hg]
  rfl

/-- Only the change that the first action makes until it gives up its turn may be heeded by
requests. -/
structure InitChanges.Orderly [Evaluator σ] (c : InitChanges σ) : Prop where
  /-- The changes of the others until then. -/
  before : ∀ (number : Nat) (ns : Symbol) (target : Target), 1 < number →
    Evaluator.Unheeded (c.before number ns target)
  /-- The changes from then on. -/
  behind : ∀ (number : Nat) (ns : Symbol) (target : Target),
    Evaluator.Unheeded (c.behind number ns target)

/-- When the first action has begun, no request heeds the changes that are left. -/
lemma InitChanges.Orderly.rest [Evaluator σ] {c : InitChanges σ} (h : c.Orderly) (ns : Symbol)
    (target : Target) (left ran : Nat) (hran : 0 < ran) :
    Evaluator.Unheeded (c.rest ns target left ran) := by
  have hended : Evaluator.Unheeded (InitChanges.rest.ended c ns target ran) := by
    rw [InitChanges.rest.ended, if_neg (Nat.ne_of_gt hran)]
    exact h.behind ran ns target
  induction left generalizing ran with
  | zero => exact hended
  | succ left ih =>
    refine (ih (ran + 1) (Nat.succ_pos ran) ?_).comp ((h.before (ran + 1) ns target ?_).comp hended)
    · exact h.behind (ran + 1) ns target
    · omega

/-- Discovery finds nothing under the options, and asks no table of files: nothing is there to read
files, or no manifest is found by it. -/
def RequestOptions.Undiscovered (o : RequestOptions) : Prop :=
  ∀ reader ∈ o.reader, Source.discover reader o.settings.sourcePaths = [] ∧
    Source.discoverReads reader o.settings.sourcePaths = []

lemma undiscovered_of_none {o : RequestOptions} (h : o.reader = none) : o.Undiscovered := by
  intro reader hreader
  rw [h] at hreader
  cases hreader

/-- Without anything to discover, initialization only ends. -/
lemma finishInit_undiscovered {options : RequestOptions} (h : options.Undiscovered) (w : World σ) :
    Stage.finishInit w options = w.mark ⟨false, false⟩ w.inits := by
  simp only [Stage.finishInit]
  cases hreader : options.reader with
  | none =>
    simp only [List.append_nil]
    rfl
  | some reader =>
    obtain ⟨hpairs, hreads⟩ := h reader hreader
    simp only [hpairs, hreads, List.append_nil]
    rfl

/-- The latest one of the actions that have begun makes its change. -/
lemma resumeInit_makes [InitActions σ] {c : InitChanges σ} (hmakes : InitActions.Makes c)
    (w : World σ) (form : Form) (options : RequestOptions) (ns : Symbol) (ran : Nat) :
    Stage.resumeInit w form options ns ran =
      w.onState (InitChanges.rest.ended c ns options.settings.target ran) := by
  rw [Stage.resumeInit, InitChanges.rest.ended]
  split
  · rfl
  · exact hmakes.behind _ _

variable [Evaluator σ] [InitActions σ]

/-- The owner of initialization makes the changes that are left, leaves its notes, finishes, and is
ready. -/
lemma finish_initializing {c : InitChanges σ} (hmakes : InitActions.Makes c) {left ran : Nat}
    {options : RequestOptions} (hleft : ran + left = options.initActions) (sub : Submission)
    (form : Form) (ns : Symbol) (w : World σ) (notes : List InitNote) :
    (Stage.initializing sub form options ns ran).finish
        { w with inits := notes ++ options.notes form ns ran } =
      (Stage.ready sub form options).finish
        (Stage.finishInit
          { w.onState (c.rest ns options.settings.target left ran) with
            inits := notes ++ options.notes form ns options.initActions } options) := by
  induction left generalizing ran w with
  | zero =>
    rw [Nat.add_zero] at hleft
    rw [finish_of_none rfl, hleft]
    simp only [Stage.step, resumeInit_makes hmakes, Nat.lt_irrefl, if_false]
    rfl
  | succ left ih =>
    have hlt : ran < options.initActions := by omega
    rw [finish_of_none rfl]
    simp only [Stage.step, resumeInit_makes hmakes, hlt, if_true, Stage.runInit, hmakes.before]
    have hleft' : ran + 1 + left = options.initActions := by omega
    -- the notes of the actions that have begun are a part of those in front
    have hnext := ih hleft'
      (w.onState (c.before (ran + 1) ns options.settings.target ∘
        InitChanges.rest.ended c ns options.settings.target ran))
    rw [notes_succ, ← List.append_assoc] at hnext
    exact hnext

/-! ### Behind initialization -/

/-- A request that waits for its delivery is delivered, and its caller is told. -/
lemma finish_served (w : World σ) (strict : Bool) (pending : Option String) (d : Delivery) :
    (Stage.served strict pending d).finish w =
      ({ w with session := (deliver strict pending d w.session).2 },
        ⟨(deliver strict pending d w.session).1, (deliver strict pending d w.session).2⟩) := by
  rw [finish_of_none rfl]
  exact finish_answered _ _

/-- A request that is ready looks at the session, is served and delivered. -/
lemma finish_ready (w : World σ) (sub : Submission) (form : Form) (options : RequestOptions) :
    (Stage.ready sub form options).finish w =
      Stage.finish (Stage.serveIn w (Stage.look w sub form options)).1
        (Stage.serveIn w (Stage.look w sub form options)).2 := by
  rw [finish_of_none rfl]
  exact finish_of_none rfl

/-- Where a request stands when it has initialization behind it: ready, or with its failure
if it cannot be served. -/
def Submission.entry (sub : Submission) : Stage :=
  match readForm sub.source with
  | .error e => .served sub.options.settings.warningAsError none (.ofError .nil e)
  | .ok form =>
    match sub.options.normalize with
    | .error e => .served sub.options.settings.warningAsError none (.ofError form e)
    | .ok options => .ready sub form options

section

variable {sub : Submission} {form : Form} {options : RequestOptions}

lemma entry_ready (hform : readForm sub.source = .ok form)
    (hoptions : sub.options.normalize = .ok options) : sub.entry = .ready sub form options := by
  simp only [Submission.entry, hform, hoptions]

end

/-- At its entry a request is ready, or it waits for the delivery of its failure. -/
lemma entry_cases (sub : Submission) :
    (∃ strict pending d, sub.entry = .served strict pending d) ∨
      ∃ form options, sub.entry = .ready sub form options := by
  rw [Submission.entry]
  split
  · exact .inl ⟨_, _, _, rfl⟩
  · split
    · exact .inl ⟨_, _, _, rfl⟩
    · exact .inr ⟨_, _, rfl⟩

lemma served_mark (w : World σ) (flags : InitState) (notes : List InitNote) (strict : Bool)
    (pending : Option String) (d : Delivery) :
    (Stage.served strict pending d).finish (w.mark flags notes) =
      (((Stage.served strict pending d).finish w).1.mark flags notes,
        ((Stage.served strict pending d).finish w).2.mark flags) := by
  rw [finish_served, finish_served, World.mark_session, deliver_mark]
  rfl

/-- From its entry on a request neither heeds nor changes flags and notes. -/
lemma entry_mark (sub : Submission) (w : World σ) (flags : InitState) (notes : List InitNote) :
    sub.entry.finish (w.mark flags notes) =
      ((sub.entry.finish w).1.mark flags notes, (sub.entry.finish w).2.mark flags) := by
  rcases entry_cases sub with ⟨strict, pending, d, h⟩ | ⟨form, options, h⟩
  · rw [h]
    exact served_mark w flags notes strict pending d
  · rw [h, finish_ready, finish_ready]
    -- what is seen and served is the same, and the evaluator and the reads carry no mark
    exact served_mark (Stage.serveIn w (Stage.look w sub form options)).1 flags notes _ _ _

section

variable {w : World σ} {sub : Submission} {form : Form} {options : RequestOptions}

lemma submit_owner (hflags : w.session.init = ⟨true, false⟩)
    (hform : readForm sub.source = .ok form) (hoptions : sub.options.normalize = .ok options) :
    (Stage.submitted sub).step w =
      (w.mark ⟨true, true⟩ w.inits, .initializing sub form options w.session.current 0) := by
  simp only [Stage.step, Stage.submit, hform, hoptions, Session.claimInit, hflags]
  rfl

variable {c : InitChanges σ}

/-- A request that can be served, the first one to do so, is at its entry when initialization has
ended. -/
lemma serve_first (hmakes : InitActions.Makes c) (hflags : w.session.init = ⟨true, false⟩)
    (hform : readForm sub.source = .ok form) (hoptions : sub.options.normalize = .ok options) :
    w.serve sub = sub.entry.finish (Stage.finishInit
      (((w.onState (c.rest w.session.current options.settings.target options.initActions 0)).mark
        ⟨true, true⟩ (w.inits ++ options.notes form w.session.current options.initActions)))
      options) := by
  have hnone : w.inits ++ options.notes form w.session.current 0 = w.inits := List.append_nil _
  have hinitializes := finish_initializing hmakes (Nat.zero_add options.initActions) sub form
    w.session.current (w.mark ⟨true, true⟩ w.inits) w.inits
  rw [hnone] at hinitializes
  rw [World.serve, finish_of_none rfl, submit_owner hflags hform hoptions,
    entry_ready hform hoptions]
  exact hinitializes

lemma claim_other {s : InitState} (h : s.claim.1 ≠ .owner) : s.claim.2 = s := by
  obtain ⟨needsInit, initializing⟩ := s
  cases needsInit <;> cases initializing <;> first | rfl | exact absurd rfl h

/-- Unless it is the owner of initialization, a request is at its entry at once. -/
lemma serve_other (hclaim : w.session.init.claim.1 ≠ .owner) (sub : Submission) :
    w.serve sub = sub.entry.finish w := by
  have hflags := claim_other hclaim
  rw [World.serve, finish_of_none rfl]
  simp only [Stage.step, Stage.submit, Submission.entry]
  cases readForm sub.source with
  | error e => rfl
  | ok form =>
    cases sub.options.normalize with
    | error e => rfl
    | ok options =>
      simp only [Session.claimInit]
      cases hanswer : w.session.init.claim with
      | mk answer init =>
        rw [hanswer] at hclaim hflags
        cases hflags
        cases answer with
        | owner => exact absurd rfl hclaim
        | inFlight => rfl
        | done => rfl

lemma serve_unread {e : Error} (h : readForm sub.source = .error e) (w : World σ) :
    w.serve sub = sub.entry.finish w := by
  rw [World.serve, finish_of_none rfl]
  simp only [Stage.step, Stage.submit, Submission.entry, h]

end

/-! ### Turns -/

section

variable {w : World σ} {sub : Submission} {form : Form} {options : RequestOptions}

end

/-! ### One after the other -/

section

variable {w : World σ} {a b : Submission} {form : Form} {options : RequestOptions}
  {c : InitChanges σ}

end

end Listener
