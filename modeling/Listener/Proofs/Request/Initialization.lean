/-
Initialization in runs of requests: one request initializes, and it does so once.

* `InitEvent`, `Pool.initTrace`: what the requests of a run do about initialization, in the
  order in which it happens, each thing with the number of its request.
* `InitStep`, `initStep`: what one step of a request can do about it.
* `Pool.Phase`: nobody has claimed yet, one request is at it, or it is over; `phase_run` says
  that every run is in one of these phases.
* `initialization_once`: the first claim is the owner's and no other is, the owner alone runs
  its actions, each once and in order, and when it has finished every claim is answered `done`.
-/
import Listener.Proofs.Request.Schedules

namespace Listener

/-! ### Events -/

/-- What a request does about initialization. -/
inductive InitEvent where
  /-- It claims initialization. -/
  | claim (answer : Claim)
  /-- It runs an init action. -/
  | action (note : InitNote)
  /-- It completes the module index and ends initialization. -/
  | finish

/-- The note of an init action that is run. -/
def InitEvent.note? : InitEvent → Option InitNote
  | .action note => some note
  | _ => none

/-- The notes of the first init actions, as many as `count`. -/
def RequestOptions.notes (options : RequestOptions) (form : Form) (ns : Symbol) (count : Nat) :
    List InitNote :=
  (List.range count).map fun n => ⟨n + 1, form, ns, options.settings.target⟩

lemma notes_succ (options : RequestOptions) (form : Form) (ns : Symbol) (count : Nat) :
    options.notes form ns (count + 1) =
      options.notes form ns count ++ [⟨count + 1, form, ns, options.settings.target⟩] := by
  simp [RequestOptions.notes, List.range_succ]

/-- What the next step of a request does about initialization. -/
def Stage.initEvent? (w : World) : Stage → Option InitEvent
  | .submitted sub =>
    match readForm sub.source, sub.options.normalize with
    | .ok _, .ok _ => some (.claim w.session.claimInit.1)
    | _, _ => none
  | .initializing _ form options ns ran =>
    if ran < options.initActions then
      some (.action ⟨ran + 1, form, ns, options.settings.target⟩)
    else some .finish
  | _ => none

/-- Whether a request is initializing. -/
def Stage.Initializes : Stage → Prop
  | .initializing _ _ _ _ _ => True
  | _ => False

/-- All that a step of a request can do about initialization. -/
inductive InitStep (w w' : World) : Stage → Option InitEvent → Stage → Prop
  /-- Nothing. -/
  | quiet {s s' : Stage} (hs : ¬ s.Initializes) (hs' : ¬ s'.Initializes)
      (hflags : w'.session.init = w.session.init) (hinits : w'.inits = w.inits) :
      InitStep w w' s none s'
  /-- It claims, and is the owner. -/
  | owner {sub : Submission} {form : Form} {options : RequestOptions}
      (hform : readForm sub.source = .ok form) (hoptions : sub.options.normalize = .ok options)
      (hanswer : w.session.init.claim.1 = .owner)
      (hflags : w'.session.init = w.session.init.claim.2) (hinits : w'.inits = w.inits) :
      InitStep w w' (.submitted sub) (some (.claim .owner))
        (.initializing sub form options w.session.current 0)
  /-- It claims, and is not the owner. -/
  | other {sub : Submission} {form : Form} {options : RequestOptions} {answer : Claim}
      (hform : readForm sub.source = .ok form) (hoptions : sub.options.normalize = .ok options)
      (hanswer : w.session.init.claim.1 = answer) (hother : answer ≠ .owner)
      (hflags : w'.session.init = w.session.init.claim.2) (hinits : w'.inits = w.inits) :
      InitStep w w' (.submitted sub) (some (.claim answer)) (.ready sub form options)
  /-- It runs its next action. -/
  | action {sub : Submission} {form : Form} {options : RequestOptions} {ns : Symbol} {ran : Nat}
      (hran : ran < options.initActions) (hflags : w'.session.init = w.session.init)
      (hinits : w'.inits = w.inits ++ [⟨ran + 1, form, ns, options.settings.target⟩]) :
      InitStep w w' (.initializing sub form options ns ran)
        (some (.action ⟨ran + 1, form, ns, options.settings.target⟩))
        (.initializing sub form options ns (ran + 1))
  | finish {sub : Submission} {form : Form} {options : RequestOptions} {ns : Symbol} {ran : Nat}
      (hran : ¬ ran < options.initActions) (hflags : w'.session.init = ⟨false, false⟩)
      (hinits : w'.inits = w.inits) :
      InitStep w w' (.initializing sub form options ns ran) (some .finish)
        (.ready sub form options)

/-- The session with other flags of initialization. -/
def Session.mark (s : Session) (flags : InitState) : Session :=
  { s with init := flags }

/-- A delivery neither heeds nor changes the flags. -/
lemma deliver_mark (strict : Bool) (pending : Option String) (d : Delivery) (s : Session)
    (flags : InitState) :
    deliver strict pending d (s.mark flags) =
      ((deliver strict pending d s).1, (deliver strict pending d s).2.mark flags) := by
  have hchange (c : Change) (s : Session) : c.apply (s.mark flags) = (c.apply s).mark flags := by
    rw [Change.apply, Change.apply]
    cases c.value <;> rfl
  have heffect (success : Bool) (s : Session) :
      d.effect.apply success (s.mark flags) = (d.effect.apply success s).mark flags := by
    cases d.effect with
    | none => rfl
    | always c => exact hchange c s
    | onSuccess c =>
      cases success with
      | true => exact hchange c s
      | false => rfl
  have hrecord : (s.mark flags).recordWarning pending = (s.recordWarning pending).mark flags := rfl
  simp only [deliver, hrecord, heffect]
  rfl

/-- A delivery leaves the flags of initialization alone. -/
lemma deliver_init (strict : Bool) (pending : Option String) (d : Delivery) (s : Session) :
    (deliver strict pending d s).2.init = s.init := by
  have h := deliver_mark strict pending d s s.init
  exact congrArg (fun x => x.2.init) h

lemma deliver_index (strict : Bool) (pending : Option String) (d : Delivery) (s : Session) :
    (deliver strict pending d s).2.index = s.index := by
  have hchange (c : Change) (s : Session) : (c.apply s).index = s.index := by
    rw [Change.apply]
    cases c.value <;> rfl
  have heffect (success : Bool) (s : Session) : (d.effect.apply success s).index = s.index := by
    cases d.effect with
    | none => rfl
    | always c => exact hchange c s
    | onSuccess c =>
      cases success with
      | true => exact hchange c s
      | false => rfl
  exact heffect _ (s.recordWarning pending)

/-- Every step does one of the things of `InitStep`. -/
lemma initStep (w : World) (s : Stage) :
    InitStep w (s.step w).1 s (s.initEvent? w) (s.step w).2 := by
  cases s with
  | submitted sub =>
    simp only [Stage.step, Stage.submit, Stage.initEvent?]
    cases hform : readForm sub.source with
    | error e => exact .quiet id id rfl rfl
    | ok form =>
      cases hoptions : sub.options.normalize with
      | error e => exact .quiet id id rfl rfl
      | ok options =>
        simp only [Session.claimInit]
        cases hclaim : w.session.init.claim with
        | mk answer init =>
          have hanswer : w.session.init.claim.1 = answer := congrArg Prod.fst hclaim
          have hflags : init = w.session.init.claim.2 := (congrArg Prod.snd hclaim).symm
          cases answer with
          | owner => exact .owner hform hoptions hanswer hflags rfl
          | inFlight => exact .other hform hoptions hanswer (by simp) hflags rfl
          | done => exact .other hform hoptions hanswer (by simp) hflags rfl
  | initializing sub form options ns ran =>
    simp only [Stage.step, Stage.initEvent?, resumeInit_workspace]
    split
    · rename_i hran
      exact .action hran rfl rfl
    · rename_i hran
      exact .finish hran rfl rfl
  | ready sub form options => exact .quiet id id rfl rfl
  | seen r => exact .quiet id id rfl rfl
  | served strict pending delivery => exact .quiet id id (deliver_init _ _ _ _) rfl
  | answered reply => exact .quiet id id rfl rfl
  | delivered d => exact .quiet id id rfl rfl

namespace Pool

/-- What the next step of a request does about initialization, with its number. -/
def initEvent? (p : Pool) (i : Nat) : Option (Nat × InitEvent) :=
  (p.stages[i]?.bind fun s => s.initEvent? p.world).map fun e => (i, e)

/-- What the requests do about initialization while a schedule is followed. -/
def initTrace (p : Pool) : List Nat → List (Nat × InitEvent)
  | [] => []
  | i :: schedule => (p.initEvent? i).toList ++ (p.step i).initTrace schedule

/-! ### Phases -/

/-- The owner runs its actions in order, and whoever claims meanwhile is told that somebody
is at it. -/
def Underway (owner : Nat) (notes : List InitNote) (events : List (Nat × InitEvent)) : Prop :=
  (∀ e ∈ events, e.2 = .claim .inFlight ∨ ∃ note, e = (owner, .action note)) ∧
    events.filterMap (fun e => e.2.note?) = notes

/-- The submission can be served and asks for its own initialization. -/
def Serves (subs : List Submission) (i : Nat) (sub : Submission) (form : Form)
    (options : RequestOptions) : Prop :=
  subs[i]? = some sub ∧ readForm sub.source = .ok form ∧ sub.options.normalize = .ok options

/-- How far initialization has come, with all that was done about it. -/
inductive Phase (subs : List Submission) (p : Pool) : List (Nat × InitEvent) → Prop
  /-- Nobody has claimed. -/
  | before (hflags : p.world.session.init = ⟨true, false⟩) (hinits : p.world.inits = [])
      (hidle : ∀ (i : Nat) (s : Stage), p.stages[i]? = some s → ¬ s.Initializes) :
      Phase subs p []
  /-- The owner is at it, and nobody else. -/
  | during {k : Nat} {sub : Submission} {form : Form} {options : RequestOptions} {ns : Symbol}
      {ran : Nat} {rest : List (Nat × InitEvent)} (howner : Serves subs k sub form options)
      (hflags : p.world.session.init = ⟨true, true⟩)
      (hinits : p.world.inits = options.notes form ns ran) (hran : ran ≤ options.initActions)
      (hstage : p.stages[k]? = some (.initializing sub form options ns ran))
      (halone : ∀ (i : Nat) (s : Stage), p.stages[i]? = some s → s.Initializes → i = k)
      (hrest : Underway k (options.notes form ns ran) rest) :
      Phase subs p ((k, .claim .owner) :: rest)
  /-- The owner has finished. -/
  | after {k : Nat} {sub : Submission} {form : Form} {options : RequestOptions} {ns : Symbol}
      {rest late : List (Nat × InitEvent)} (howner : Serves subs k sub form options)
      (hflags : p.world.session.init = ⟨false, false⟩)
      (hinits : p.world.inits = options.notes form ns options.initActions)
      (hidle : ∀ (i : Nat) (s : Stage), p.stages[i]? = some s → ¬ s.Initializes)
      (hrest : Underway k (options.notes form ns options.initActions) rest)
      (hlate : ∀ e ∈ late, e.2 = .claim .done) :
      Phase subs p ((k, .claim .owner) :: rest ++ (k, .finish) :: late)

lemma Underway.action {k : Nat} {notes : List InitNote} {rest : List (Nat × InitEvent)}
    (h : Underway k notes rest) (note : InitNote) :
    Underway k (notes ++ [note]) (rest ++ [(k, .action note)]) := by
  obtain ⟨hevents, rfl⟩ := h
  refine ⟨fun e he => ?_, by simp [InitEvent.note?]⟩
  rcases List.mem_append.mp he with he | he
  · exact hevents e he
  · exact .inr ⟨note, List.mem_singleton.mp he⟩

lemma Underway.claim {k : Nat} {notes : List InitNote} {rest : List (Nat × InitEvent)}
    (h : Underway k notes rest) (i : Nat) : Underway k notes (rest ++ [(i, .claim .inFlight)]) := by
  obtain ⟨hevents, rfl⟩ := h
  refine ⟨fun e he => ?_, by simp [InitEvent.note?]⟩
  rcases List.mem_append.mp he with he | he
  · exact hevents e he
  · rw [List.mem_singleton.mp he]
    exact .inl rfl

variable {p : Pool} {subs : List Submission} {τ : List (Nat × InitEvent)}

lemma idle_start (w : World) (subs : List Submission) (i : Nat) (s : Stage)
    (hs : (start w subs).stages[i]? = some s) : ¬ s.Initializes := by
  rw [start, List.getElem?_map, Option.map_eq_some_iff] at hs
  obtain ⟨sub, -, rfl⟩ := hs
  exact id

/-- A pool with a new session has not begun to initialize. -/
lemma phase_start (workspace : Workspace) (subs : List Submission) :
    (start { workspace := workspace } subs).Phase subs [] :=
  .before rfl rfl (idle_start _ _)

/-! ### Steps -/

/-- The request with a number makes a step, which leads from one pool to another. -/
structure Moves (p : Pool) (i : Nat) (s : Stage) (e : Option InitEvent) (s' : Stage)
    (q : Pool) : Prop where
  /-- Where the request stands. -/
  here : p.stages[i]? = some s
  /-- Where all requests stand afterwards. -/
  stages : ∀ j, q.stages[j]? = if i = j then some s' else p.stages[j]?
  /-- What the step does. -/
  step : InitStep p.world q.world s e s'

lemma moves_step {i : Nat} {s : Stage} (h : p.stages[i]? = some s) :
    p.Moves i s (s.initEvent? p.world) (s.step p.world).2 (p.step i) := by
  refine ⟨h, stages_step h, ?_⟩
  rw [step_of_stage h]
  exact initStep p.world s

section

variable {q : Pool} {i : Nat} {s s' : Stage} {e : Option InitEvent}

lemma Moves.other (h : p.Moves i s e s' q) {j : Nat} (hij : i ≠ j) :
    q.stages[j]? = p.stages[j]? := by
  rw [h.stages, if_neg hij]

lemma Moves.new (h : p.Moves i s e s' q) : q.stages[i]? = some s' := by
  rw [h.stages, if_pos rfl]

/-- Which requests initialize after a step. -/
lemma Moves.places (h : p.Moves i s e s' q) {P : Nat → Prop}
    (hold : ∀ (j : Nat) (s : Stage), p.stages[j]? = some s → i ≠ j → s.Initializes → P j)
    (hnew : s'.Initializes → P i) :
    ∀ (j : Nat) (s : Stage), q.stages[j]? = some s → s.Initializes → P j := by
  intro j t hj
  by_cases hij : i = j
  · subst hij
    rw [h.new] at hj
    cases hj
    exact hnew
  · rw [h.other hij] at hj
    exact hold j t hj hij

/-- The first claim is the owner's; nothing else happens before it. -/
lemma Moves.phase_before (h : p.Moves i s e s' q) (hsubs : p.Belongs subs)
    (hflags : p.world.session.init = ⟨true, false⟩) (hinits : p.world.inits = [])
    (hidle : ∀ (j : Nat) (s : Stage), p.stages[j]? = some s → ¬ s.Initializes) :
    q.Phase subs (e.map fun e => (i, e)).toList := by
  have hstep := h.step
  cases hstep with
  | quiet hs hs' hflags' hinits' =>
    exact .before (hflags'.trans hflags) (hinits'.trans hinits)
      (h.places (fun j t hj _ => hidle j t hj) hs')
  | @owner sub form options hform hoptions hanswer hflags' hinits' =>
    obtain ⟨sub', _, hsub, hof⟩ := hsubs i _ h.here
    cases hof
    rw [hflags] at hflags'
    have hnone : q.world.inits = options.notes form p.world.session.current 0 :=
      hinits'.trans hinits
    exact .during ⟨hsub, hform, hoptions⟩ hflags' hnone (Nat.zero_le _) h.new
      (h.places (fun j t hj _ ht => absurd ht (hidle j t hj)) fun _ => rfl) ⟨by simp, rfl⟩
  | other hform hoptions hanswer hother =>
    rw [hflags] at hanswer
    exact absurd hanswer.symm hother
  | action => exact absurd trivial (hidle i _ h.here)
  | finish => exact absurd trivial (hidle i _ h.here)

/-- While the owner is at it, only the owner runs actions, and it alone finishes. -/
lemma Moves.phase_during (h : p.Moves i s e s' q) {k : Nat} {sub : Submission} {form : Form}
    {options : RequestOptions} {ns : Symbol} {ran : Nat} {rest : List (Nat × InitEvent)}
    (howner : Serves subs k sub form options) (hflags : p.world.session.init = ⟨true, true⟩)
    (hinits : p.world.inits = options.notes form ns ran) (hran : ran ≤ options.initActions)
    (hstage : p.stages[k]? = some (.initializing sub form options ns ran))
    (halone : ∀ (j : Nat) (s : Stage), p.stages[j]? = some s → s.Initializes → j = k)
    (hrest : Underway k (options.notes form ns ran) rest) :
    q.Phase subs ((k, .claim .owner) :: rest ++ (e.map fun e => (i, e)).toList) := by
  have hstep := h.step
  -- a request that does not initialize is not the owner
  have hne (hs : ¬ s.Initializes) : i ≠ k := by
    rintro rfl
    have hhere := h.here
    rw [hstage] at hhere
    cases hhere
    exact hs trivial
  cases hstep with
  | quiet hs hs' hflags' hinits' =>
    rw [Option.map_none, Option.toList_none, List.append_nil]
    exact .during howner (hflags'.trans hflags) (hinits'.trans hinits) hran
      ((h.other (hne hs)).trans hstage)
      (h.places (fun j t hj _ => halone j t hj) fun ht => absurd ht hs') hrest
  | owner hform hoptions hanswer =>
    rw [hflags] at hanswer
    cases hanswer
  | @other _ _ _ answer hform hoptions hanswer hother hflags' hinits' =>
    rw [hflags] at hanswer hflags'
    obtain rfl : answer = .inFlight := hanswer.symm
    exact .during howner hflags' (hinits'.trans hinits) hran ((h.other (hne id)).trans hstage)
      (h.places (fun j t hj _ => halone j t hj) False.elim) (hrest.claim i)
  | action hlt hflags' hinits' =>
    obtain rfl := halone i _ h.here trivial
    cases h.here.symm.trans hstage
    rw [hinits, ← notes_succ] at hinits'
    refine .during howner (hflags'.trans hflags) hinits' hlt h.new
      (h.places (fun j t hj _ => halone j t hj) fun _ => rfl) ?_
    rw [notes_succ]
    exact hrest.action _
  | finish hlt hflags' hinits' =>
    obtain rfl := halone i _ h.here trivial
    cases h.here.symm.trans hstage
    obtain rfl : ran = options.initActions := by omega
    exact .after howner hflags' (hinits'.trans hinits)
      (h.places (fun j t hj hij ht => hij (halone j t hj ht).symm) id) hrest (by simp)

/-- When the owner has finished, every claim is answered `done`. -/
lemma Moves.phase_after (h : p.Moves i s e s' q) {k : Nat} {sub : Submission} {form : Form}
    {options : RequestOptions} {ns : Symbol} {rest late : List (Nat × InitEvent)}
    (howner : Serves subs k sub form options) (hflags : p.world.session.init = ⟨false, false⟩)
    (hinits : p.world.inits = options.notes form ns options.initActions)
    (hidle : ∀ (j : Nat) (s : Stage), p.stages[j]? = some s → ¬ s.Initializes)
    (hrest : Underway k (options.notes form ns options.initActions) rest)
    (hlate : ∀ e ∈ late, e.2 = .claim .done) :
    q.Phase subs ((k, .claim .owner) :: rest ++
      (k, .finish) :: (late ++ (e.map fun e => (i, e)).toList)) := by
  have hstep := h.step
  cases hstep with
  | quiet hs hs' hflags' hinits' =>
    rw [Option.map_none, Option.toList_none, List.append_nil]
    exact .after howner (hflags'.trans hflags) (hinits'.trans hinits)
      (h.places (fun j t hj _ => hidle j t hj) hs') hrest hlate
  | owner hform hoptions hanswer =>
    rw [hflags] at hanswer
    cases hanswer
  | @other _ _ _ answer hform hoptions hanswer hother hflags' hinits' =>
    rw [hflags] at hanswer hflags'
    obtain rfl : answer = .done := hanswer.symm
    refine .after howner hflags' (hinits'.trans hinits)
      (h.places (fun j t hj _ => hidle j t hj) id) hrest fun e he => ?_
    rcases List.mem_append.mp he with he | he
    · exact hlate e he
    · rw [List.mem_singleton.mp he]
  | action => exact absurd trivial (hidle i _ h.here)
  | finish => exact absurd trivial (hidle i _ h.here)

end

lemma Phase.step (h : p.Phase subs τ) (hsubs : p.Belongs subs) (i : Nat) :
    (p.step i).Phase subs (τ ++ (p.initEvent? i).toList) := by
  cases hi : p.stages[i]? with
  | none =>
    rw [step_of_none hi, initEvent?, hi]
    simpa using h
  | some s =>
    have hmoves := moves_step hi
    rw [initEvent?, hi, Option.bind_some]
    cases h with
    | before hflags hinits hidle => exact hmoves.phase_before hsubs hflags hinits hidle
    | during howner hflags hinits hran hstage halone hrest =>
      exact hmoves.phase_during howner hflags hinits hran hstage halone hrest
    | after howner hflags hinits hidle hrest hlate =>
      have hphase := hmoves.phase_after howner hflags hinits hidle hrest hlate
      rwa [← List.cons_append, ← List.append_assoc] at hphase

lemma phase_run (h : p.Phase subs τ) (hsubs : p.Belongs subs) (schedule : List Nat) :
    (p.run schedule).Phase subs (τ ++ p.initTrace schedule) := by
  induction schedule generalizing p τ with
  | nil => simpa [initTrace] using h
  | cons i schedule ih =>
    have hrest := ih (h.step hsubs i) (hsubs.step i)
    rwa [List.append_assoc] at hrest

/-- Only requests that can be served claim initialization. -/
lemma claims_serve (hsubs : p.Belongs subs) (schedule : List Nat) {i : Nat} {answer : Claim}
    (h : (i, .claim answer) ∈ p.initTrace schedule) :
    ∃ sub form options, Serves subs i sub form options := by
  induction schedule generalizing p with
  | nil => cases h
  | cons j schedule ih =>
    rcases List.mem_append.mp h with h | h
    · rw [Option.mem_toList, initEvent?, Option.map_eq_some_iff] at h
      obtain ⟨e, he, hij⟩ := h
      cases hij
      obtain ⟨s, hs, he⟩ := Option.bind_eq_some_iff.mp he
      obtain ⟨sub, _, hsub, hof⟩ := hsubs i s hs
      have hstep := initStep p.world s
      rw [he] at hstep
      generalize (s.step p.world).2 = s' at hstep
      cases hstep with
      | owner hform hoptions =>
        cases hof
        exact ⟨_, _, _, hsub, hform, hoptions⟩
      | other hform hoptions =>
        cases hof
        exact ⟨_, _, _, hsub, hform, hoptions⟩
    · exact ih (hsubs.step j) h

/-! ### One initialization -/

/-- Requests to a new session, on any workspace. -/
def fresh (workspace : Workspace) (subs : List Submission) : Pool :=
  start { workspace := workspace } subs

/-- In every run of requests to a new session, a session that initializes needs to, and only
requests that can be served claim initialization. Either nobody has claimed. Or the first
claim is the owner's, then come its actions in order, while all other claims are answered
`inFlight`; and when all of its actions have run, it finishes, and all later claims are
answered `done`. The notes that the actions leave are those of the owner. -/
theorem initialization_once (workspace : Workspace) (subs : List Submission)
    (schedule : List Nat) :
    let p := (fresh workspace subs).run schedule
    let events := (fresh workspace subs).initTrace schedule
    (p.world.session.init.initializing = true → p.world.session.init.needsInit = true) ∧
      (∀ i answer, (i, .claim answer) ∈ events →
        ∃ sub form options, Serves subs i sub form options) ∧
      (events = [] ∧ p.world.inits = [] ∨
        ∃ k sub form options ns ran rest, Serves subs k sub form options ∧
          p.world.inits = options.notes form ns ran ∧
          Underway k (options.notes form ns ran) rest ∧
          (events = (k, .claim .owner) :: rest ∧ ran ≤ options.initActions ∧
              p.stages[k]? = some (.initializing sub form options ns ran) ∨
            ran = options.initActions ∧ ∃ late,
              events = (k, .claim .owner) :: rest ++ (k, .finish) :: late ∧
                ∀ e ∈ late, e.2 = .claim .done)) := by
  intro p events
  have hsubs : (fresh workspace subs).Belongs subs := belongs_start _ _
  have hphase : p.Phase subs events := phase_run (phase_start workspace subs) hsubs schedule
  have hclaims (i : Nat) (answer : Claim) (h : (i, .claim answer) ∈ events) :
      ∃ sub form options, Serves subs i sub form options := claims_serve hsubs schedule h
  -- what the phase says of the session and the events is all that is needed from here on
  clear_value p events
  refine ⟨?_, hclaims, ?_⟩
  · cases hphase with
    | before hflags => simp [hflags]
    | during _ hflags => simp [hflags]
    | after _ hflags => simp [hflags]
  · cases hphase with
    | before hflags hinits hidle => exact .inl ⟨rfl, hinits⟩
    | during howner hflags hinits hran hstage halone hrest =>
      exact .inr ⟨_, _, _, _, _, _, _, howner, hinits, hrest, .inl ⟨rfl, hran, hstage⟩⟩
    | after howner hflags hinits hidle hrest hlate =>
      exact .inr ⟨_, _, _, _, _, _, _, howner, hinits, hrest, .inr ⟨rfl, _, rfl, hlate⟩⟩

end Pool

end Listener
