/-
What evaluations, requests and runs keep of a workspace.

* `Eval.Keeps`: a computation keeps what is true of a workspace, whether it succeeds or fails.
* `Workspace.Lasting`: nothing that an evaluation does to a workspace undoes what is true of it;
  `form_keeps` and `source_keeps` say that then no evaluation does, however deep it loads.
* `Workspace.Permanent`: no purge undoes it either; `serve_keeps` says that then no request does,
  and `Traffic.run_keeps` that no run does, as far as the changes from outside do not.
* `hasDefault_permanent`: the default namespace does not get lost, so that `hasDefault_after` finds
  it at every moment of a run.
-/
import Listener.Proofs.Request.Destination
import Listener.Proofs.Workspace.Passage

namespace Listener

/-! ### Computations -/

/-- What is true of the workspace stays true, whatever comes of the computation. -/
def Eval.Keeps {α : Type} (P : Workspace → Prop) (x : Eval Workspace α) : Prop :=
  ∀ s : EvalState, P s.workspace → P (x s).2.workspace

namespace Eval.Keeps

variable {α β : Type} {P : Workspace → Prop}

lemma pure (a : α) : Keeps P (Pure.pure a : Eval Workspace α) := fun _ h => h

lemma fail (e : Error) : Keeps P (Eval.fail e : Eval Workspace α) := fun _ h => h

/-- What is kept is true of the state that a computation leaves. -/
lemma after {x : Eval Workspace α} (hx : Keeps P x) {s s' : EvalState} {r : Except Error α}
    (hrun : x s = (r, s')) (h : P s.workspace) : P s'.workspace := by
  have hkept := hx s h
  rw [hrun] at hkept
  exact hkept

lemma bind {x : Eval Workspace α} {f : α → Eval Workspace β} (hx : Keeps P x)
    (hf : ∀ a, Keeps P (f a)) : Keeps P (x >>= f) :=
  Leads.bind (R := fun s t => P s.workspace → P t.workspace) hx hf fun hst htu h => htu (hst h)

end Eval.Keeps

/-! ### Evaluation -/

/-- Nothing that an evaluation does to a workspace undoes what is true of it. -/
structure Workspace.Lasting (P : Workspace → Prop) : Prop where
  /-- Namespaces are created. -/
  create {w : Workspace} (h : P w) (name : Symbol) : P (w.createNamespace name)
  /-- Vars are defined. -/
  define {w : Workspace} (h : P w) (info : VarInfo) (value : Value) : P (w.define info value)
  /-- Namespaces are loaded. -/
  load {w : Workspace} (h : P w) (name : Symbol) : P (w.markLoaded name)
  /-- What was asked for is noted down. -/
  note {w : Workspace} (h : P w) (calls : List EvalOptions) (sources : List String) :
    P { w with calls := calls, sources := sources }

section

variable {P : Workspace → Prop}

/-- What lasts is kept on every passage that an evaluation makes. -/
lemma Workspace.Lasting.passage (hP : Workspace.Lasting P) (loader : Source.Loader) :
    EvalState.Passage loader fun s t => P s.workspace → P t.workspace where
  refl _ h := h
  trans hst htu h := htu (hst h)
  create _ name h := hP.create h name
  define _ info value h := hP.define h info value
  warn _ _ h := h
  note _ calls sources h := hP.note h calls sources
  look _ _ h := h
  load {_ _ ns _ _} _ _ hst h := hP.load (hst h) ns

/-- The evaluation of a form for a request keeps what lasts. -/
theorem form_keeps (hP : Workspace.Lasting P) (opts : EvalOptions) (form : Form) :
    (Eval.form opts form).Keeps P :=
  form_leads (hP.passage opts.loader) rfl form

/-- The evaluation of a text for a request keeps what lasts. -/
theorem source_keeps (hP : Workspace.Lasting P) (opts : EvalOptions) (text : String) :
    (Eval.source opts text).Keeps P :=
  source_leads (hP.passage opts.loader) rfl text

end

/-! ### Requests -/

/-- No purge undoes what is true of a workspace either. -/
structure Workspace.Permanent (P : Workspace → Prop) : Prop extends Workspace.Lasting P where
  /-- Namespaces are purged. -/
  purge {w : Workspace} (h : P w) (name : Symbol) : P (w.purge name)

section

variable {P : Workspace → Prop}

lemma purgeAll_keeps (hP : Workspace.Permanent P) {w : Workspace} (h : P w)
    (names : List Symbol) : P (w.purgeAll names) := by
  induction names generalizing w with
  | nil => exact h
  | cons name names ih => exact ih (hP.purge h name)

/-- Finding out which namespace to enter keeps what lasts. -/
lemma enterTarget_keeps (hP : Workspace.Lasting P) (r : Request) : (enterTarget r).Keeps P := by
  have hevaluated (arg : Form) : (enterTarget.evaluated r arg).Keeps P := by
    refine (form_keeps hP _ arg).bind fun evaluated => ?_
    split
    · exact .pure _
    · exact .fail _
  rw [enterTarget.eq_def]
  split
  · split
    · exact .pure _
    · exact .fail _
    · exact hevaluated _
    · exact hevaluated _
    · exact .fail _
  · exact .fail _

lemma serveEnter_keeps (hP : Workspace.Lasting P) (r : Request) {s : EvalState}
    (h : P s.workspace) : P (serveEnter r s).2.workspace := by
  rw [serveEnter]
  split
  · rename_i hrun
    exact (enterTarget_keeps hP r).after hrun h
  · rename_i target s' hrun
    have htarget := (enterTarget_keeps hP r).after hrun h
    dsimp only
    split
    · exact htarget
    · split <;> rename_i hcall <;> exact (form_keeps hP _ _).after hcall htarget

lemma serveRequire_keeps (hP : Workspace.Permanent P) (kind : RequireKind) (r : Request)
    {s : EvalState} (h : P s.workspace) : P (serveRequire kind r s).2.workspace := by
  rw [serveRequire]
  split
  · exact h
  · exact form_keeps hP.toLasting _ _ _ (purgeAll_keeps hP h _)

lemma serveTrace_keeps (hP : Workspace.Lasting P) (r : Request) {s : EvalState}
    (h : P s.workspace) : P (serveTrace r s).2.workspace := by
  rw [serveTrace]
  split
  · exact h
  · split <;> rename_i hrun <;> exact (form_keeps hP _ _).after hrun h

/-- Showing a definition leaves the workspace as it is. -/
lemma serveSource_workspace (r : Request) (s : EvalState) :
    (serveSource r s).2.workspace = s.workspace := by
  have htext (info : VarInfo) : (definitionText r info s).2.workspace = s.workspace := by
    rw [definitionText]
    split <;> rfl
  rw [serveSource]
  split
  · rfl
  · split
    · exact htext _
    · rfl

lemma directive_keeps (hP : Workspace.Permanent P)
    (d : Directive) (r : Request) {s : EvalState} (h : P s.workspace) :
    P (d.serve r s).2.workspace := by
  cases d with
  | enter => exact serveEnter_keeps hP.toLasting r h
  | require kind => exact serveRequire_keeps hP kind r h
  | doc =>
    simp only [Directive.serve, serveDoc]
    split <;> exact h
  | source =>
    simp only [Directive.serve, serveSource_workspace]
    exact h
  | trace => exact serveTrace_keeps hP.toLasting r h
  | listing =>
    simp only [Directive.serve, serveListing]
    split <;> exact h
  | loadFile => exact h

/-- A request keeps what is permanent. -/
theorem serve_keeps (hP : Workspace.Permanent P)
    (r : Request) {s : EvalState} (h : P s.workspace) : P (serve r s).2.workspace := by
  rw [serve]
  split
  · exact directive_keeps hP _ r h
  · rw [serveOrdinary]
    split <;> rename_i hrun <;> exact (source_keeps hP.toLasting _ _).after hrun h

/-! ### Runs -/

lemma Stage.step_keeps (hP : Workspace.Permanent P)
    {w : World} (h : P w.workspace) (s : Stage) : P (s.step w).1.workspace := by
  cases s with
  | submitted sub =>
    simp only [Stage.step, Stage.submit]
    split
    · exact h
    · split
      · exact h
      · split <;> exact h
  | initializing sub form options ns ran =>
    simp only [Stage.step, resumeInit_workspace]
    split <;> exact h
  | ready sub form options => exact h
  | seen r => exact serve_keeps hP r h
  | served strict pending delivery => exact h
  | answered reply => exact h
  | delivered d => exact h

lemma Task.step_keeps (hP : Workspace.Permanent P)
    {w : World} (h : P w.workspace) (task : Task) : P (task.step w).1.workspace := by
  cases task with
  | nil => exact h
  | cons job jobs =>
    cases job with
    | purge name => exact hP.purge h name
    | check => exact h
    | clearWarning => exact h
    | tell arrival => exact h
    | serve sub stage evaluation =>
      have hstep := stage.step_keeps hP h
      simp only [Task.step]
      split <;> exact hstep

/-- An act from outside keeps what is true of the workspace. -/
def Act.Keeps (P : Workspace → Prop) : Act → Prop
  | .host change => ∀ w, P w → P (change w)
  | _ => True

namespace Traffic

/-- Every act keeps what is permanent, if it comes from outside and keeps it. -/
lemma act_keeps (hP : Workspace.Permanent P)
    {t : Traffic} (h : P t.world.workspace) {a : Act} (ha : a.Keeps P) :
    P (t.act a).world.workspace := by
  cases a with
  | begin call => exact h
  | step i =>
    simp only [act]
    split
    · exact Task.step_keeps hP h _
    · exact h
  | forceInit => exact h
  | host change => exact ha _ h

/-- A run keeps what is permanent, if all that comes from outside keeps it. -/
theorem run_keeps (hP : Workspace.Permanent P)
    {t : Traffic} (h : P t.world.workspace) {acts : List Act} (hacts : ∀ a ∈ acts, a.Keeps P) :
    P (t.run acts).world.workspace := by
  induction acts generalizing t with
  | nil => exact h
  | cons a acts ih =>
    rw [List.forall_mem_cons] at hacts
    exact ih (act_keeps hP h hacts.1) hacts.2

end Traffic

end

/-! ### The default namespace -/

/-- What is found under a key is found there after any change. -/
lemma lookup_update_mono {κ α : Type} [DecidableEq κ] {k : κ} (key : κ)
    (change : Option α → α) {ps : List (κ × α)} (h : (ps.lookup k).isSome = true) :
    ((Workspace.update key change ps).lookup k).isSome = true := by
  induction ps with
  | nil => cases h
  | cons p ps ih =>
    obtain ⟨k', a⟩ := p
    by_cases hkey : k' = key
    · by_cases hk : k = key
      · simp [Workspace.update, hkey, hk]
      · have hne : (k == key) = false := beq_eq_false_iff_ne.mpr hk
        simp only [hkey, List.lookup_cons, hne] at h
        simpa [Workspace.update, hkey, List.lookup_cons, hne] using h
    · simp only [Workspace.update, hkey, if_false, List.lookup_cons] at h ⊢
      cases hk : k == k' with
      | true => rfl
      | false =>
        rw [hk] at h
        exact ih h

/-- Namespaces do not get lost in an evaluation. -/
lemma hasNamespace_lasting (ns : Symbol) :
    Workspace.Lasting fun w => w.hasNamespace ns = true where
  create h name := lookup_update_mono name _ h
  define h info _ := lookup_update_mono info.ns _ h
  load h _ := h
  note h _ _ := h

/-- Where keys are filtered, what is found under a key that passes is still found. -/
lemma lookup_filter {κ α : Type} [DecidableEq κ] (keep : κ → Bool) (k : κ) (ps : List (κ × α)) :
    (ps.filter fun p => keep p.1).lookup k = if keep k then ps.lookup k else none := by
  induction ps with
  | nil => simp
  | cons p ps ih =>
    obtain ⟨k', a⟩ := p
    cases hk : k == k' with
    | true =>
      obtain rfl := beq_iff_eq.mp hk
      rw [List.filter_cons]
      split
      · rw [List.lookup_cons_self, List.lookup_cons_self]
      · rename_i hkeep
        rw [ih, if_neg hkeep]
    | false =>
      rw [List.filter_cons, List.lookup_cons, hk]
      split
      · rw [List.lookup_cons, hk, ih]
      · exact ih

/-- The default namespace does not get lost. -/
theorem hasDefault_permanent :
    Workspace.Permanent fun w => w.hasNamespace defaultNamespace = true where
  toLasting := hasNamespace_lasting defaultNamespace
  purge {w} h name := by
    simp only [Workspace.hasNamespace, Workspace.namespace?, Workspace.purge] at h ⊢
    split
    · exact h
    · rename_i hname
      rw [lookup_filter (· != name), if_pos (bne_iff_ne.mpr (Ne.symm hname))]
      exact h

/-- There is always the default namespace, if nothing from outside takes it away. -/
theorem hasDefault_after {acts : List Act}
    (hacts : ∀ a ∈ acts, a.Keeps fun w => w.hasNamespace defaultNamespace = true) :
    (Traffic.after .initial acts).world.workspace.hasNamespace defaultNamespace = true :=
  Traffic.run_keeps hasDefault_permanent (by decide) hacts

end Listener
