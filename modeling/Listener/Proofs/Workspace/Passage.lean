/-
What an evaluation can do to the state that it works on.

* `requireNamespace_of_isLoaded`, `requireNamespace_of_missing`, `requireNamespace_of_found`: what
  loading a namespace comes to.
* `Eval.Leads`: a computation leads from every state to one that is related to it.
* `EvalState.Passage`: a relation that admits everything an evaluation can do, one thing after
  another.
* `evalForm_leads`, `requireNamespace_leads`: then every evaluation leads along the relation, and
  so does the loading of namespaces, however deep it goes.
* `form_leads`, `source_leads`: the same for the two ways in.
-/
import Listener.Workspace.Eval
import Mathlib.Tactic.Lemma

namespace Listener

namespace Eval

variable {α β : Type} {x : Eval Workspace α} {s t : EvalState}

lemma bind_of_ok {a : α} (hx : x s = (.ok a, t)) (f : α → Eval Workspace β) :
    (x >>= f) s = f a t := by
  simp only [bind, hx]

lemma bind_of_error {e : Error} (hx : x s = (.error e, t)) (f : α → Eval Workspace β) :
    (x >>= f) s = (.error e, t) := by
  simp only [bind, hx]

end Eval

/-! ### The cases of loading -/

/-- What is done with the source of a namespace before the namespace counts as loaded: the forms
of one that is made of forms are evaluated. -/
def evalSource (require : Requirer) (opts : EvalOptions) (source : Source.LoadedSource) :
    Eval Workspace Unit :=
  if source.language = .forms then
    Eval.ofExcept (readAll source.text) >>= evalFile require opts
  else pure ()

section

variable {opts : EvalOptions} {ns : Symbol} {isMacros : Bool} {s : EvalState}

/-- A namespace that is loaded is left alone. -/
theorem requireNamespace_of_isLoaded (depth : Nat) (opts : EvalOptions) (isMacros : Bool)
    (hloaded : s.workspace.isLoaded ns = true) :
    requireNamespace (depth + 1) opts ns isMacros s = (.ok (), s) := by
  have hask : Eval.ask (·.isLoaded ns) s = (.ok true, s) := by rw [Eval.ask, hloaded]
  rw [requireNamespace, Eval.bind_of_ok hask]
  rfl

/-- One that is not loaded and whose source is not found cannot be loaded. -/
theorem requireNamespace_of_missing (depth : Nat) (hnew : s.workspace.isLoaded ns = false)
    (hmissing : ∀ source, (opts.loader (.ofNamespace ns isMacros)).found ≠ .ok (some source)) :
    ∃ e : Error, requireNamespace (depth + 1) opts ns isMacros s =
      (.error e, (Eval.load opts.loader (.ofNamespace ns isMacros) s).2) := by
  have hask : Eval.ask (·.isLoaded ns) s = (.ok false, s) := by rw [Eval.ask, hnew]
  rw [requireNamespace, Eval.bind_of_ok hask]
  have hload {r : Except Error (Option Source.LoadedSource)}
      (hr : (opts.loader (.ofNamespace ns isMacros)).found = r) :
      Eval.load opts.loader (.ofNamespace ns isMacros) s =
        (r, (Eval.load opts.loader (.ofNamespace ns isMacros) s).2) := by
    rw [Eval.load, hr]
  cases hfound : (opts.loader (.ofNamespace ns isMacros)).found with
  | error e => exact ⟨e, Eval.bind_of_error (hload hfound) _⟩
  | ok found =>
    cases found with
    | none => exact ⟨_, Eval.bind_of_ok (hload hfound) _⟩
    | some source => exact absurd hfound (hmissing source)

/-- One that is not loaded and whose source is found counts as loaded after what is done with the
source. -/
theorem requireNamespace_of_found (depth : Nat) (hnew : s.workspace.isLoaded ns = false)
    {source : Source.LoadedSource}
    (hfound : (opts.loader (.ofNamespace ns isMacros)).found = .ok (some source)) :
    requireNamespace (depth + 1) opts ns isMacros s =
      (evalSource (requireNamespace depth) { opts with ns := ns } source >>= fun _ =>
        Eval.change (·.markLoaded ns)) (Eval.load opts.loader (.ofNamespace ns isMacros) s).2 := by
  have hask : Eval.ask (·.isLoaded ns) s = (.ok false, s) := by rw [Eval.ask, hnew]
  rw [requireNamespace, Eval.bind_of_ok hask]
  refine (Eval.bind_of_ok (by rw [Eval.load, hfound]) _).trans ?_
  dsimp only [evalSource]
  split
  · cases readAll source.text <;> rfl
  · rfl

end

/-! ### Computations -/

/-- The computation leads from every state to one that is related to it, whether it succeeds or
fails. -/
def Eval.Leads {α : Type} (R : EvalState → EvalState → Prop) (x : Eval Workspace α) : Prop :=
  ∀ s : EvalState, R s (x s).2

/-- A relation that admits everything an evaluation can do to a state. Modules are looked for with
one loader. -/
structure EvalState.Passage (loader : Source.Loader) (R : EvalState → EvalState → Prop) :
    Prop where
  /-- Nothing is done. -/
  refl (s : EvalState) : R s s
  /-- One thing is done after another. -/
  trans {s t u : EvalState} (hst : R s t) (htu : R t u) : R s u
  /-- A namespace is created. -/
  create (s : EvalState) (name : Symbol) :
    R s { s with workspace := s.workspace.createNamespace name }
  /-- A var is defined. -/
  define (s : EvalState) (info : VarInfo) (value : Value) :
    R s { s with workspace := s.workspace.define info value }
  /-- A warning is given. -/
  warn (s : EvalState) (w : Warning) : R s { s with warnings := s.warnings.warn w }
  /-- What was asked for is noted down. -/
  note (s : EvalState) (calls : List EvalOptions) (sources : List String) :
    R s { s with workspace := { s.workspace with calls := calls, sources := sources } }
  /-- A namespace that is not loaded is looked for. -/
  look {s : EvalState} {ns : Symbol} (hnew : s.workspace.isLoaded ns = false) (isMacros : Bool) :
    R s (Eval.load loader (.ofNamespace ns isMacros) s).2
  /-- It counts as loaded after its source was found and other things were done. -/
  load {s t : EvalState} {ns : Symbol} {isMacros : Bool} {source : Source.LoadedSource}
    (hnew : s.workspace.isLoaded ns = false)
    (hfound : (loader (.ofNamespace ns isMacros)).found = .ok (some source))
    (hst : R (Eval.load loader (.ofNamespace ns isMacros) s).2 t) :
    R s { t with workspace := t.workspace.markLoaded ns }

section

variable {α β : Type} {loader : Source.Loader} {R : EvalState → EvalState → Prop}
  (hR : EvalState.Passage loader R)

namespace Eval

/-- One computation after another leads along a transitive relation if both do. -/
lemma Leads.bind {x : Eval Workspace α} {f : α → Eval Workspace β} (hx : x.Leads R)
    (hf : ∀ a, (f a).Leads R)
    (htrans : ∀ {s t u : EvalState}, R s t → R t u → R s u) : (x >>= f).Leads R := by
  intro s
  have hfirst := hx s
  cases hrun : x s with
  | mk result t =>
    rw [hrun] at hfirst
    cases result with
    | ok a =>
      rw [bind_of_ok hrun]
      exact htrans hfirst (hf a t)
    | error e =>
      rw [bind_of_error hrun]
      exact hfirst

include hR

lemma leads_pure (a : α) : (Pure.pure a : Eval Workspace α).Leads R := hR.refl

lemma leads_fail (e : Error) : (Eval.fail e : Eval Workspace α).Leads R := hR.refl

lemma leads_ofExcept (r : Except Error α) : (Eval.ofExcept r).Leads R := hR.refl

lemma leads_ask (f : Workspace → α) : (Eval.ask f).Leads R := hR.refl

lemma leads_bind {x : Eval Workspace α} {f : α → Eval Workspace β} (hx : x.Leads R)
    (hf : ∀ a, (f a).Leads R) :
    (x >>= f).Leads R :=
  hx.bind hf hR.trans

end Eval

/-! ### Evaluation -/

/-- Loading a namespace with the loader leads along the relation. -/
def Requirer.Leads (loader : Source.Loader) (R : EvalState → EvalState → Prop)
    (require : Requirer) : Prop :=
  ∀ opts ns isMacros, opts.loader = loader → (require opts ns isMacros).Leads R

include hR

variable {require : Requirer} (hrequire : require.Leads loader R)

open Eval

lemma evalSymbol_leads (opts : EvalOptions) (s : Symbol) : (evalSymbol opts s).Leads R := by
  rw [evalSymbol]
  split
  · exact leads_pure hR _
  · refine leads_bind hR (leads_ask hR _) fun found => ?_
    cases found with
    | some v => exact leads_pure hR _
    | none => exact leads_bind hR (fun t => hR.warn t _) fun _ => leads_pure hR _

include hrequire

lemma requireEach_leads {opts : EvalOptions} (hopts : opts.loader = loader)
    (deps : List (Symbol × Bool)) : (requireEach require opts deps).Leads R := by
  induction deps with
  | nil => exact leads_pure hR ()
  | cons dep deps ih =>
    obtain ⟨ns, isMacros⟩ := dep
    exact leads_bind hR (hrequire opts ns isMacros hopts) fun _ => ih

/-- A call of `ns` creates a namespace and loads others. -/
lemma evalNamespace_leads {opts : EvalOptions} (hopts : opts.loader = loader)
    (args : List Form) : (evalNamespace require opts args).Leads R := by
  rw [evalNamespace.eq_def]
  split
  · exact leads_fail hR _
  · split
    · exact leads_fail hR _
    · rename_i name _
      refine leads_bind hR (leads_ask hR _) fun failing => ?_
      cases failing with
      | true => exact leads_fail hR _
      | false =>
        refine leads_bind hR (fun t => hR.create t name) fun _ => ?_
        exact leads_bind hR (requireEach_leads hR hrequire hopts _) fun _ => leads_pure hR _

/-- Every evaluation of a form leads along the relation, if loading does. -/
theorem evalForm_leads {opts : EvalOptions} (hopts : opts.loader = loader) (form : Form) :
    (evalForm require opts form).Leads R := by
  -- the induction also says it of the second of several forms, of all in order and of their sum
  refine evalForm.induct_unfolding require opts (fun _ x => x.Leads R) (fun _ _ x => x.Leads R)
    (fun _ _ x => x.Leads R) (fun _ x => x.Leads R) ?symbol ?quote ?define ?doAll ?sum ?makeSymbol
    ?throw ?assign ?ns ?unknown ?data ?noSum ?moreSum ?noMore ?more ?second ?noSecond form
  case symbol => exact fun s => evalSymbol_leads hR opts s
  case quote => exact fun _ _ _ => leads_pure hR _
  case define =>
    intro head args _ name hsecond
    refine leads_bind hR hsecond fun value => ?_
    exact leads_bind hR (fun t => hR.define t _ value) fun _ => leads_pure hR _
  case doAll => exact fun _ _ _ hall => hall
  case sum => exact fun _ _ _ hsum => hsum
  case makeSymbol =>
    intro head args _
    rw [evalMakeSymbol.eq_def]
    split
    · exact leads_pure hR _
    · exact leads_fail hR _
  case throw => exact fun _ _ _ => leads_fail hR _
  case assign => exact fun _ _ _ => leads_pure hR _
  case ns => exact fun _ args _ => evalNamespace_leads hR hrequire hopts args
  case unknown => exact fun _ _ _ _ => leads_fail hR _
  case data => exact fun _ _ _ => leads_pure hR _
  case noSum =>
    intro sum
    rw [evalSum]
    exact leads_pure hR _
  case moreSum =>
    intro sum form forms hform hforms
    rw [evalSum]
    refine leads_bind hR hform fun evaluated => ?_
    split
    · exact hforms _
    · exact leads_fail hR _
  case noMore =>
    intro last
    rw [evalAll]
    exact leads_pure hR _
  case more =>
    intro last form forms hform hforms
    rw [evalAll]
    exact leads_bind hR hform hforms
  case second =>
    intro head form forms hform
    rw [evalSecond]
    exact leads_bind hR hform fun _ => leads_pure hR _
  case noSecond =>
    intro forms hforms
    rw [evalSecond.eq_def]
    split
    · exact absurd rfl (hforms _ _ _)
    · exact leads_pure hR _

/-- Every evaluation of a file leads along the relation, if loading does. -/
lemma evalFile_leads {opts : EvalOptions} (hopts : opts.loader = loader) (forms : List Form) :
    (evalFile require opts forms).Leads R := by
  induction forms generalizing opts with
  | nil => exact leads_pure hR ()
  | cons form forms ih =>
    exact leads_bind hR (evalForm_leads hR hrequire hopts form) fun _ => ih hopts

omit hrequire

/-! ### Loading -/

/-- What is done between finding the source of a namespace and counting it as loaded leads along
the relation with both of them. -/
lemma loading_leads {s : EvalState} {ns : Symbol} {isMacros : Bool}
    {source : Source.LoadedSource} (hnew : s.workspace.isLoaded ns = false)
    (hfound : (loader (.ofNamespace ns isMacros)).found = .ok (some source))
    {x : Eval Workspace Unit} (hx : x.Leads R) :
    R s ((x >>= fun _ => Eval.change (·.markLoaded ns))
      (Eval.load loader (.ofNamespace ns isMacros) s).2).2 := by
  have hrest := hx (Eval.load loader (.ofNamespace ns isMacros) s).2
  cases hrun : x (Eval.load loader (.ofNamespace ns isMacros) s).2 with
  | mk result t =>
    rw [hrun] at hrest
    cases result with
    | ok a =>
      rw [bind_of_ok hrun]
      exact hR.load hnew hfound hrest
    | error e =>
      rw [bind_of_error hrun]
      exact hR.trans (hR.look hnew isMacros) hrest

/-- Loading leads along the relation, however deep it goes. -/
theorem requireNamespace_leads (depth : Nat) : (requireNamespace depth).Leads loader R := by
  induction depth with
  | zero => exact fun _ _ _ _ => leads_fail hR _
  | succ depth ih =>
    rintro opts ns isMacros rfl s
    cases hnew : s.workspace.isLoaded ns with
    | true =>
      rw [requireNamespace_of_isLoaded depth opts isMacros hnew]
      exact hR.refl s
    | false =>
      by_cases hsource :
          ∃ source, (opts.loader (.ofNamespace ns isMacros)).found = .ok (some source)
      · obtain ⟨source, hfound⟩ := hsource
        rw [requireNamespace_of_found depth hnew hfound]
        refine loading_leads hR hnew hfound ?_
        rw [evalSource]
        split
        · exact leads_bind hR (leads_ofExcept hR _) (evalFile_leads hR ih rfl)
        · exact leads_pure hR ()
      · obtain ⟨e, he⟩ := requireNamespace_of_missing depth hnew (not_exists.mp hsource)
        rw [he]
        exact hR.look hnew isMacros

lemma loadNamespace_leads : loadNamespace.Leads loader R := fun opts ns isMacros hopts s =>
  requireNamespace_leads hR s.workspace.depth opts ns isMacros hopts s

/-! ### The ways in -/

/-- The evaluation of a form for a request leads along the relation. -/
theorem form_leads {opts : EvalOptions} (hopts : opts.loader = loader) (form : Form) :
    (Eval.form opts form).Leads R :=
  leads_bind hR (fun s => hR.note s _ s.workspace.sources) fun _ =>
    evalForm_leads hR (loadNamespace_leads hR) hopts form

/-- The evaluation of a text for a request leads along the relation. -/
theorem source_leads {opts : EvalOptions} (hopts : opts.loader = loader) (text : String) :
    (Eval.source opts text).Leads R :=
  leads_bind hR (fun s => hR.note s _ _) fun _ => leads_bind hR (leads_ofExcept hR _) fun form =>
    evalForm_leads hR (loadNamespace_leads hR) hopts form

end

end Listener
