/-
Requests that are refused have no effect but their error.

* `Submission.Refused`: a submission whose text cannot be read or whose options cannot be settled.
* `Form.Refused`: a call of a directive that is refused by its arguments alone, or whatever they
  are.
* `serve_refused`: to serve a refused form changes neither the workspace nor the warnings nor the
  notes.
* `deliver_refused`: the delivery of a refusal sets the latest error, and nothing else.
* `refused_without_effect`: what is left of both kinds of refusals.
-/
import Listener.Proofs.Request.Alone
import Listener.Proofs.Request.Memory

namespace Listener

/-! ### What is refused -/

/-- The submission is refused before it claims initialization, with an error and the form to
answer. -/
inductive Submission.Refused (sub : Submission) : Form → Error → Prop
  /-- Its text cannot be read. -/
  | unread {e : Error} (h : readForm sub.source = .error e) : Refused sub .nil e
  /-- Its options cannot be settled. -/
  | unsettled {form : Form} {e : Error} (hform : readForm sub.source = .ok form)
      (h : sub.options.normalize = .error e) : Refused sub form e

/-- The directives that need a symbol as their first argument. -/
def Directive.NeedsSymbol (d : Directive) : Prop :=
  d = .doc ∨ d = .source ∨ d = .listing

/-- The form calls a directive that refuses it, with an error. -/
inductive Form.Refused (form : Form) : Error → Prop
  | loadFile (hd : Directive.classify? form = some .loadFile) :
      Refused form (.unsupported "load-file")
  /-- It asks for namespaces with arguments that have no canonical specs. -/
  | specs {kind : RequireKind} {e : Error}
      (hd : Directive.classify? form = some (.require kind))
      (hargs : canonicalize kind form.args = .error e) : Refused form e
  /-- It is to show something, and its first argument is no symbol. -/
  | noSymbol {d : Directive} (hd : Directive.classify? form = some d) (hneeds : d.NeedsSymbol)
      (hargs : form.args.head?.bind Form.asSymbol? = none) :
      Refused form (.argument ("Argument to " ++ d.name ++ " must be a symbol"))

/-! ### What refusals do -/

/-- Without a symbol as the first argument there is nothing to show. -/
lemma symbolArgument_eq_error {form : Form} (h : form.args.head?.bind Form.asSymbol? = none)
    (d : Directive) :
    symbolArgument d form =
      .error (.argument ("Argument to " ++ d.name ++ " must be a symbol")) := by
  rw [symbolArgument, h]

/-- A refused form is answered with its error, and nothing else happens. -/
theorem serve_refused {r : Request} {e : Error} (h : r.form.Refused e) (s : EvalState) :
    serve r s = (.ofError r.form e, s) := by
  cases h with
  | loadFile hd => simp only [serve, hd, Directive.serve, Directive.name]
  | specs hd hargs => simp only [serve, hd, Directive.serve, serveRequire, hargs]
  | @noSymbol d hd hneeds hargs =>
    have hnone := symbolArgument_eq_error hargs d
    rcases hneeds with rfl | rfl | rfl
    · simp only [serve, hd, Directive.serve, serveDoc, hnone]
    · simp only [serve, hd, Directive.serve, serveSource, hnone]
    · simp only [serve, hd, Directive.serve, serveListing, hnone]

/-- The delivery of a refusal is answered with its error, whatever the say on warnings, and sets
the latest error. -/
theorem deliver_refused (w : World) (form : Form) (e : Error) (strict : Bool) :
    (Due.deliver ⟨w, none, .ofError form e⟩ strict).1 =
        { w with session := w.session.clearWarning.setError (some e) } ∧
      (Due.deliver ⟨w, none, .ofError form e⟩ strict).2.reply = ⟨form, none, .error e⟩ :=
  ⟨rfl, rfl⟩

section

variable {w : World} {sub : Submission} {form : Form} {e : Error}

lemma due_of_refused (h : sub.Refused form e) : w.due sub = ⟨w, none, .ofError form e⟩ := by
  cases h with
  | unread h => simp only [World.due, h]
  | unsettled hform h => simp only [World.due, hform, h]

/-- The finished work for a submission whose form is refused: initialization is behind it. -/
lemma due_of_refused_form {options : RequestOptions} (hform : readForm sub.source = .ok form)
    (hoptions : sub.options.normalize = .ok options) (h : form.Refused e) :
    w.due sub = ⟨w.afterInit form options, none, .ofError form e⟩ := by
  have hserve (s : EvalState) :
      serve (w.request sub form options) s = (.ofError form e, s) := serve_refused h s
  simp only [World.due, hform, hoptions, World.attend, hserve, List.append_nil]

end

/-- A request that is refused has no effect but its error. If its text cannot be read or its
options cannot be settled, only the latest error changes, in the session and elsewhere: there is no
claim to initialize, no init action, no file is asked for and the workspace is the same. If its
form is refused, the same is true from the world on that initialization leaves, where the workspace
is still that of before. The warning slot is emptied by every delivery, and it is always empty
before. -/
theorem refused_without_effect (w : World) (sub : Submission) :
    (∀ form e, sub.Refused form e →
      (w.serve sub).1 = { w with session := w.session.clearWarning.setError (some e) } ∧
        (w.serve sub).2.reply = ⟨form, none, .error e⟩) ∧
    (∀ form options e, readForm sub.source = .ok form → sub.options.normalize = .ok options →
      form.Refused e →
        (w.serve sub).1 =
            { w.afterInit form options with
              session := (w.afterInit form options).session.clearWarning.setError (some e) } ∧
          (w.afterInit form options).workspace = w.workspace ∧
          (w.serve sub).2.reply = ⟨form, none, .error e⟩) ∧
    ∀ workspace acts, (Traffic.after workspace acts).world.session.clearWarning =
      (Traffic.after workspace acts).world.session := by
  refine ⟨fun form e h => ?_, fun form options e hform hoptions h => ?_, fun workspace acts => ?_⟩
  · rw [serve_eq_deliver, due_of_refused h]
    exact deliver_refused w form e _
  · obtain ⟨hworld, hreply⟩ :=
      deliver_refused (w.afterInit form options) form e sub.options.settings.warningAsError
    rw [serve_eq_deliver, due_of_refused_form hform hoptions h]
    exact ⟨hworld, (afterInit_frame w form options).1, hreply⟩
  · have hempty := (Traffic.settled_run (Traffic.settled_fresh workspace)
      (Traffic.sound_fresh workspace) acts).warning
    exact congrArg (fun warning => { (Traffic.after workspace acts).world.session with warning })
      hempty.symm

/-- Options with a reader and no source paths, and a wish to reload a loaded namespace beside an
argument that is not quoted: there is no claim in the one case and no purge in the other. -/
theorem refused_without_effect_reload :
    let w : World := { workspace := { Workspace.initial with loaded := ["a"] } }
    let unsettled : Submission := ⟨":x", { reader := some (.disk fun _ => none) }⟩
    let reload : Submission := ⟨"(require 'a :reload b)", {}⟩
    let form : Form :=
      .list [.ofName "require", .quote (.ofName "a"), .keyword "reload", .ofName "b"]
    let unquoted : Error := .argument "Argument to require must be a symbol"
    (∃ e, unsettled.Refused (.keyword "x") e ∧ (w.serve unsettled).1.session.init = w.session.init ∧
        (w.serve unsettled).1.session.history.error = some e) ∧
      (readForm reload.source = .ok form ∧ form.Refused unquoted) ∧
      (w.serve reload).1.workspace = w.workspace ∧ w.workspace.loaded = ["a"] ∧
      (w.serve reload).1.session.history.error = some unquoted := by
  intro w unsettled reload form unquoted
  have hkeyword : readForm unsettled.source = .ok (.keyword "x") := by
    show readForm ":x" = _
    cbv
  have hform : readForm reload.source = .ok form := by
    show readForm "(require 'a :reload b)" = _
    cbv
  have hrefused : unsettled.Refused (.keyword "x") _ := .unsettled hkeyword rfl
  have hspecs : form.Refused unquoted := .specs rfl rfl
  obtain ⟨hfirst, -⟩ := (refused_without_effect w unsettled).1 _ _ hrefused
  obtain ⟨hsecond, hsame, -⟩ := (refused_without_effect w reload).2.1 _ _ _ hform rfl hspecs
  refine ⟨⟨_, hrefused, ?_, ?_⟩, ⟨hform, hspecs⟩, ?_, rfl, ?_⟩
  · rw [hfirst]
    rfl
  · rw [hfirst]
    rfl
  · rw [hsecond]
    exact hsame
  · rw [hsecond]
    rfl

end Listener
