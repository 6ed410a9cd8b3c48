/-
What a reset leaves behind.

* `loaded_purgeAll`: the loaded namespaces that a purge leaves.
* `serve_unsettled`: a submission whose options cannot be settled changes nothing but the latest
  error and the warning slot.
* `loaded_settle`, `settle_settled`, `settle_unsettled`: what the two requests of a reset do.
* `reset_refused`: a reset is refused exactly when something stays loaded, and then the session is
  left alone.
* `reset_settled_iff`: a reset that reports success has reset the session exactly when its options
  could be settled.
-/
import Listener.Proofs.Workspace.Keeping

namespace Listener

/-! ### What a purge leaves -/

/-- The loaded namespaces that are not among some names. -/
def Workspace.loadedBut (w : Workspace) (names : List Symbol) : List String :=
  w.loaded.filter fun s => s ∉ names.map Symbol.text

/-- A purge leaves the loaded namespaces that it does not name. -/
theorem loaded_purgeAll (w : Workspace) (names : List Symbol) :
    (w.purgeAll names).loaded = w.loadedBut names := by
  induction names generalizing w with
  | nil => simp [Workspace.purgeAll, Workspace.loadedBut]
  | cons name names ih =>
    rw [Workspace.purgeAll, List.foldl_cons, ← Workspace.purgeAll, ih]
    simp only [Workspace.loadedBut, Workspace.purge, List.filter_filter]
    refine List.filter_congr fun s _ => ?_
    by_cases hs : s = name.text <;> simp [hs]

/-! ### Options that cannot be settled -/

/-- There is a reader, but nothing says where its files are. -/
def Options.Unsettled (o : Options) : Prop :=
  o.loader = none ∧ o.reader.isSome = true ∧ o.settings.sourcePaths = []

/-- The error for options that cannot be settled. -/
def unsettledError : Error :=
  .config "Invalid options: :read-file-fn! requires :src-paths to build a load function"

/-- Options are refused exactly when they cannot be settled, and always with the same error. -/
lemma normalize_cases (o : Options) :
    o.Unsettled ∧ o.normalize = .error unsettledError ∨
      ¬ o.Unsettled ∧ ∃ options, o.normalize = .ok options := by
  simp only [Options.Unsettled, Options.normalize]
  cases hloader : o.loader with
  | some loader => exact .inr ⟨by simp, _, rfl⟩
  | none =>
    cases hreader : o.reader with
    | none =>
      refine .inr ⟨by simp, ?_⟩
      cases o.fileReader with
      | none => exact ⟨_, rfl⟩
      | some reader => by_cases hpaths : o.settings.sourcePaths = [] <;> simp [hpaths]
    | some reader =>
      have hfile : o.fileReader = some reader := by rw [Options.fileReader, hreader]
      rw [hfile]
      by_cases hpaths : o.settings.sourcePaths = []
      · exact .inl ⟨⟨rfl, rfl, hpaths⟩, by simp [hpaths, unsettledError]⟩
      · exact .inr ⟨by simp [hpaths], by simp [hpaths]⟩

/-- A submission whose options cannot be settled clears the warning slot and changes the latest
error, and nothing else. -/
theorem serve_unsettled {sub : Submission} {form : Form} {e : Error}
    (hform : readForm sub.source = .ok form) (he : sub.options.normalize = .error e) (w : World) :
    (w.serve sub).1 = { w with session := w.session.clearWarning.setError (some e) } := by
  rw [serve_eq_deliver]
  simp only [World.due, hform, he]
  rfl

/-! ### The two requests -/

namespace World

variable (options : Options)

/-- The form of the request that clears the latest error. -/
def clearErrorForm : Form :=
  .list [.ofName "set!", .ofName "*e", .nil]

/-- The form of the request that enters the default namespace. -/
def enterDefaultForm : Form :=
  .list [.ofName "in-ns", .quote (.symbol defaultNamespace)]

lemma readForm_clearError : readForm (clearError options).source = .ok clearErrorForm := by
  simp only [clearError]
  cbv

lemma readForm_enterDefault :
    readForm (enterDefault options).source = .ok enterDefaultForm := by
  simp only [enterDefault]
  cbv

end World

/-- An assignment is evaluated to nil where the request began, and the workspace only notes it
down. -/
lemma serve_clearError (r : Request) (hform : r.form = World.clearErrorForm)
    (hsource : readForm r.source = .ok World.clearErrorForm) (s : EvalState) :
    serve r s =
      ({ form := r.form, outcome := .ok .nil, effect := .onSuccess ⟨some .nil, r.ns⟩ },
        { s with
          workspace := { s.workspace with
            calls := s.workspace.calls ++ [r.evalOptions r.ns]
            sources := s.workspace.sources ++ [r.source] } }) := by
  have hd : Directive.classify? r.form = none := by
    rw [hform]
    rfl
  have hremembered : isRemembered r.form = true := by
    rw [hform]
    rfl
  have hhead : Operator.ofHead (.ofName "set!") = .assign := rfl
  simp only [serve, hd, serveOrdinary, Workspace.evalSource_eq, Eval.source, bind, Eval.change,
    Eval.ofExcept, hsource]
  simp only [World.clearErrorForm, evalForm, hhead, hremembered]
  rfl

section

variable {r : Request} {y : Symbol}

/-- A namespace that exists is entered, and nothing else happens. -/
lemma serve_enter_exists (h : r.form.Enters y) {s : EvalState}
    (hexists : s.workspace.hasNamespace y = true) :
    serve r s = ({ form := r.form, outcome := .ok .nil, effect := .always { ns := y } }, s) := by
  simp only [serve, h.1, Directive.serve, serveEnter, enterTarget_of_enters h s,
    Workspace.hasNamespace_eq, hexists, if_true]

lemma serve_enter_loaded (h : r.form.Enters y) (s : EvalState) :
    (serve r s).2.workspace.loaded = s.workspace.loaded := by
  simp only [serve, h.1, Directive.serve, serveEnter, enterTarget_of_enters h s,
    Workspace.hasNamespace_eq, Workspace.evalForm_eq, form_namespaceCall]
  cases s.workspace.hasNamespace y with
  | true => rfl
  | false => cases s.workspace.failing.contains y <;> rfl

end

namespace World

variable {w : World} {options : Options}

/-- A submission leaves the workspace as its request does, if there is one. -/
lemma serve_workspace {sub : Submission} {form : Form} {o : RequestOptions}
    (hform : readForm sub.source = .ok form) (ho : sub.options.normalize = .ok o) (w : World) :
    (w.serve sub).1.workspace =
      (Listener.serve (w.request sub form o) { workspace := w.workspace }).2.workspace := by
  rw [serve_eq_deliver, ← (due_of_request hform ho).2.1]
  rfl

/-- A submission that enters a namespace that exists leads into it, without an error or a
warning. -/
lemma serve_enters {sub : Submission} {form : Form} {o : RequestOptions} {y : Symbol}
    (hform : readForm sub.source = .ok form) (ho : sub.options.normalize = .ok o)
    (henters : form.Enters y) (hexists : w.workspace.hasNamespace y = true) :
    (w.serve sub).1.session.current = y ∧ (w.serve sub).1.session.history.error = none ∧
      (w.serve sub).1.session.warning = none := by
  have hdue : (w.due sub).pending = none ∧
      (w.due sub).delivery = { form, outcome := .ok .nil, effect := .always { ns := y } } := by
    have hworkspace := (afterInit_frame w form o).1
    have hserve := serve_enter_exists (r := w.request sub form o) henters
      (s := { workspace := w.workspace }) hexists
    simp only [due, hform, ho, attend, hworkspace, hserve]
    exact ⟨trivial, rfl⟩
  rw [serve_eq_deliver, Due.deliver, hdue.1, hdue.2]
  exact ⟨rfl, rfl, rfl⟩

/-- A submission that enters a namespace that it names loads nothing. -/
lemma loaded_serve_enters {sub : Submission} {form : Form} {y : Symbol}
    (hform : readForm sub.source = .ok form) (henters : form.Enters y) (w : World) :
    (w.serve sub).1.workspace.loaded = w.workspace.loaded := by
  cases ho : sub.options.normalize with
  | error e => rw [serve_unsettled hform ho]
  | ok o =>
    rw [serve_workspace hform ho]
    exact serve_enter_loaded henters _

/-- Clearing the latest error only takes notes in the workspace. -/
lemma workspace_clearError (w : World) (options : Options) :
    ∃ calls sources, (w.serve (clearError options)).1.workspace =
      { w.workspace with calls := calls, sources := sources } := by
  have hform := readForm_clearError options
  cases ho : options.normalize with
  | error e =>
    rw [serve_unsettled hform ho]
    exact ⟨_, _, rfl⟩
  | ok o =>
    have hserve := serve_clearError (w.request (clearError options) clearErrorForm o) rfl hform
    rw [serve_workspace hform ho, hserve]
    exact ⟨_, _, rfl⟩

lemma loaded_settle (w : World) (options : Options) :
    (w.settle options).workspace.loaded = w.workspace.loaded := by
  have henter := loaded_serve_enters (readForm_enterDefault options)
    (enters_quote defaultNamespace)
  obtain ⟨calls, sources, hclear⟩ :=
    workspace_clearError { w with session := w.session.clearWarning } options
  simp only [settle]
  rw [henter, hclear]

/-- With options that can be settled, the two requests of a reset do reset the session. -/
theorem settle_settled {o : RequestOptions} (ho : options.normalize = .ok o)
    (hdefault : w.workspace.hasNamespace defaultNamespace = true) :
    (w.settle options).session.current = defaultNamespace ∧
      (w.settle options).session.history.error = none ∧
      (w.settle options).session.warning = none := by
  obtain ⟨calls, sources, hclear⟩ :=
    workspace_clearError { w with session := w.session.clearWarning } options
  refine serve_enters (readForm_enterDefault options) ho (enters_quote defaultNamespace) ?_
  rw [hclear]
  exact hdefault

/-- With options that cannot be settled, the two requests of a reset leave their own error
behind. -/
theorem settle_unsettled {e : Error} (he : options.normalize = .error e) (w : World) :
    w.settle options = { w with session := w.session.clearWarning.setError (some e) } := by
  simp only [settle]
  rw [serve_unsettled (readForm_clearError options) he,
    serve_unsettled (readForm_enterDefault options) he]
  rfl

end World

/-! ### Resets -/

namespace World

/-- A reset is refused, and nothing happens but the purge, or the purge leaves nothing loaded and
the two requests are served. -/
lemma reset_cases (w : World) (options : Options) (names : List Symbol) :
    w.workspace.loadedBut names ≠ [] ∧
        w.reset options names =
          (.error (.precondition ("Namespaces still loaded after purge: " ++
            ", ".intercalate (w.workspace.loadedBut names))), w.purge names) ∨
      w.workspace.loadedBut names = [] ∧
        w.reset options names = (.ok (), (w.purge names).settle options) := by
  have hloaded : (w.purge names).workspace.loaded = w.workspace.loadedBut names :=
    loaded_purgeAll w.workspace names
  rw [reset, stillLoaded, hloaded]
  cases hleft : w.workspace.loadedBut names with
  | nil => exact .inr ⟨rfl, rfl⟩
  | cons s rest => exact .inl ⟨List.cons_ne_nil s rest, rfl⟩

end World

/-- Something stays loaded exactly when a loaded namespace is not named. -/
lemma loadedBut_ne_nil_iff (w : Workspace) (names : List Symbol) :
    w.loadedBut names ≠ [] ↔ ∃ s ∈ w.loaded, ∀ name ∈ names, name.text ≠ s := by
  simp [Workspace.loadedBut, List.filter_eq_nil_iff]

/-- A reset is refused exactly when a loaded namespace is not named. Then the error names those
that stay loaded, and the session is left alone. Whatever comes of the reset, the loaded
namespaces are those of before without the named ones. -/
theorem reset_refused (w : World) (options : Options) (names : List Symbol) :
    ((∃ e, (w.reset options names).1 = .error e) ↔
        ∃ s ∈ w.workspace.loaded, ∀ name ∈ names, name.text ≠ s) ∧
      (∀ e, (w.reset options names).1 = .error e →
        e = .precondition ("Namespaces still loaded after purge: " ++
            ", ".intercalate (w.workspace.loadedBut names)) ∧
          (w.reset options names).2.session = w.session) ∧
      (w.reset options names).2.workspace.loaded = w.workspace.loadedBut names := by
  have hpurged : (w.purge names).workspace.loaded = w.workspace.loadedBut names :=
    loaded_purgeAll w.workspace names
  rw [← loadedBut_ne_nil_iff]
  rcases w.reset_cases options names with ⟨hleft, hreset⟩ | ⟨hnone, hreset⟩
  · rw [hreset]
    refine ⟨iff_of_true ⟨_, rfl⟩ hleft, fun e he => ?_, hpurged⟩
    cases he
    exact ⟨rfl, rfl⟩
  · rw [hreset]
    refine ⟨iff_of_false (fun ⟨e, he⟩ => nomatch he) (fun h => h hnone), fun e he => ?_, ?_⟩
    · cases he
    · exact ((w.purge names).loaded_settle options).trans hpurged

/-- A reset that reports success has led to the default namespace, without an error or a warning,
exactly when its options can be settled. Else its own error is the latest one, and the current
namespace stays as it was. -/
theorem reset_settled_iff {acts : List Act}
    (hacts : ∀ a ∈ acts, a.Keeps fun w => w.hasNamespace defaultNamespace = true)
    {options : Options} {names : List Symbol}
    (hok : ((Traffic.after .initial acts).world.reset options names).1 = .ok ()) :
    let before := (Traffic.after .initial acts).world.session
    let session := ((Traffic.after .initial acts).world.reset options names).2.session
    (session.current = defaultNamespace ∧ session.history.error = none ∧ session.warning = none ↔
        ¬ options.Unsettled) ∧
      (options.Unsettled →
        session = { before with
          warning := none
          history := { before.history with error := some unsettledError } }) := by
  have hdefault := hasDefault_after hacts
  generalize (Traffic.after .initial acts).world = w at hdefault hok ⊢
  rcases w.reset_cases options names with ⟨-, hreset⟩ | ⟨-, hreset⟩
  · rw [hreset] at hok
    cases hok
  · rw [hreset]
    have hpurged : (w.purge names).workspace.hasNamespace defaultNamespace = true :=
      purgeAll_keeps hasDefault_permanent hdefault names
    rcases normalize_cases options with ⟨hunsettled, he⟩ | ⟨hsettled, o, ho⟩
    · have hsession := World.settle_unsettled he (w.purge names)
      dsimp only
      rw [hsession]
      refine ⟨iff_of_false (fun ⟨_, herror, _⟩ => nomatch herror) (not_not_intro hunsettled), ?_⟩
      exact fun _ => rfl
    · refine ⟨iff_of_true (World.settle_settled ho hpurged) hsettled, ?_⟩
      exact fun hunsettled => absurd hunsettled hsettled

/-- A reset where the default namespace is purged and cannot be created, and warnings count as
errors. -/
theorem reset_settled_failing :
    let acts : List Act := [.host (·.markFailing defaultNamespace)]
    let options : Options := { settings := { warningAsError := true } }
    let reset := (Traffic.after .initial acts).world.reset options [defaultNamespace]
    (∀ a ∈ acts, a.Keeps fun w => w.hasNamespace defaultNamespace = true) ∧ reset.1 = .ok () ∧
      reset.2.session.current = defaultNamespace ∧ reset.2.session.history.error = none ∧
      reset.2.session.warning = none := by
  intro acts options reset
  have hacts : ∀ a ∈ acts, a.Keeps fun w => w.hasNamespace defaultNamespace = true := by
    rw [List.forall_mem_singleton]
    exact fun w h => h
  have hok : reset.1 = .ok () := rfl
  have hsettled : ¬ options.Unsettled := fun h => nomatch h.2.1
  exact ⟨hacts, hok, (reset_settled_iff hacts hok).1.mpr hsettled⟩

/-- Not every reset that reports success has reset the session: with a reader and no source paths,
the session stays in its namespace and is left with an error. -/
theorem reset_unsettled :
    let sub : Submission := ⟨"(in-ns 'cljs.core)", {}⟩
    let entered := (World.serve {} sub).1
    let options : Options := { reader := some (.disk fun _ => none) }
    (entered.reset options []).1 = .ok () ∧
      (entered.reset options []).2.session.current = Workspace.coreNamespace ∧
      Workspace.coreNamespace ≠ defaultNamespace ∧
      (entered.reset options []).2.session.history.error =
        some (.config
          "Invalid options: :read-file-fn! requires :src-paths to build a load function") := by
  intro sub entered options
  have hform : readForm sub.source =
      .ok (.list [.ofName "in-ns", .quote (.symbol Workspace.coreNamespace)]) := by cbv
  have henters := enters_quote Workspace.coreNamespace
  have hcurrent : entered.session.current = Workspace.coreNamespace :=
    (World.serve_enters hform rfl henters rfl).1
  have hloaded : entered.workspace.loadedBut [] = [] := by
    rw [Workspace.loadedBut, World.loaded_serve_enters hform henters]
    rfl
  have hsettle : (entered.purge []).settle options = _ :=
    World.settle_unsettled (e := unsettledError) rfl (entered.purge [])
  rcases entered.reset_cases options [] with ⟨hleft, -⟩ | ⟨-, hreset⟩
  · exact absurd hloaded hleft
  · rw [hreset, hsettle]
    exact ⟨rfl, hcurrent, by decide, rfl⟩

end Listener
