/-
How each kind of request is served.

* `serveEnter`, `serveRequire`, `serveDoc`, `serveSource`, `serveTrace`,
  `serveListing`: the directives.
* `serveOrdinary`: all other forms, which are evaluated.
* `serve`: the choice between them.
-/
import Listener.Delivery
import Listener.Directive.Definition
import Listener.Directive.Doc
import Listener.Directive.Listing
import Listener.Directive.Require
import Listener.Request.Basic

namespace Listener

/-- What serves requests: it works on the state of an evaluator and leaves a delivery. -/
abbrev Server (σ : Type := Workspace) := Request → EvalState σ → Delivery × EvalState σ

variable {σ : Type} [Evaluator σ]

/-! ### Entering a namespace -/

/-- The error for a wrong argument of `in-ns`. -/
def badNamespace : Error := .argument "Argument to in-ns must be a symbol."

/-- The namespace to enter: a quoted symbol, or a form that evaluates to one. -/
def enterTarget (r : Request) : Eval σ Symbol :=
  match r.form.args with
  | [arg] =>
    match arg.unquoted?, arg with
    | some (.symbol s), _ => pure s
    | some _, _ => Eval.fail badNamespace
    | none, .symbol _ => evaluated arg
    | none, .list _ => evaluated arg
    | none, _ => Eval.fail badNamespace
  | _ => Eval.fail badNamespace
where
  /-- The symbol that a form evaluates to. -/
  evaluated (arg : Form) : Eval σ Symbol := do
    match (← Evaluator.evalForm (r.evalOptions r.ns) arg).value with
    | .data (.symbol s) => return s
    | _ => Eval.fail badNamespace

/-- `in-ns`: a namespace that exists is entered whatever comes; any other one is
created first and entered if that succeeds. -/
def serveEnter : Server σ := fun r s =>
  match enterTarget r s with
  | (.error e, s) => (.ofError r.form e, s)
  | (.ok target, s) =>
    let entered : Change := { ns := target }
    if Evaluator.hasNamespace s.workspace target then
      ({ form := r.form, outcome := .ok .nil, effect := .always entered }, s)
    else
      match Evaluator.evalForm (r.evalOptions r.ns) (.list [.ofName "ns", .symbol target]) s with
      | (.ok _, s) => ({ form := r.form, outcome := .ok .nil, effect := .onSuccess entered }, s)
      | (.error e, s) => (.ofError r.form e, s)

/-! ### Requiring namespaces -/

/-- The namespaces that are purged before specs are loaded. -/
def purgedBefore (kind : RequireKind) (specs : Specs) (w : σ) : List Symbol :=
  match kind, specs.reload with
  | .require, some .named => specs.specs.filterMap specNamespace?
  | .require, some .all => Evaluator.loadedNamespaces w
  | _, _ => []

/-- Whether specs name the current namespace itself. -/
def requiresItself (kind : RequireKind) (specs : Specs) (current : Symbol) : Bool :=
  kind == .require && (specs.specs.filterMap specNamespace?).contains current

/-- `require` and its relatives: the specs are loaded by a call of `ns`. A
namespace that requires itself is loaded from the default namespace, and stays
the current one. -/
def serveRequire (kind : RequireKind) : Server σ := fun r s =>
  match canonicalize kind r.form.args with
  | .error e => (.ofError r.form e, s)
  | .ok specs =>
    let s := { s with
      workspace := Evaluator.purgeAll s.workspace (purgedBefore kind specs s.workspace) }
    let itself := requiresItself kind specs r.ns
    let target := if itself then defaultNamespace else r.ns
    let (outcome, s) :=
      Evaluator.evalForm (r.evalOptions target) (namespaceForm target kind specs.specs) s
    let effect : Effect := if itself then .always { ns := r.ns } else .none
    ({ form := r.form, outcome := outcome.map fun _ => .nil, effect := effect }, s)

/-! ### Showing things -/

/-- The symbol that a directive is about, or the error without one. -/
def symbolArgument (d : Directive) (form : Form) : Except Error Symbol :=
  match form.args.head?.bind Form.asSymbol? with
  | some s => .ok s
  | none => .error (.argument ("Argument to " ++ d.name ++ " must be a symbol"))

/-- `doc` -/
def serveDoc : Server σ := fun r s =>
  match symbolArgument .doc r.form with
  | .error e => (.ofError r.form e, s)
  | .ok name =>
    let text := match docOf s.workspace r.ns name with
      | some entry => entry.render
      | none => "nil"
    (.ofText r.form text, s)

/-- `dir` -/
def serveListing : Server σ := fun r s =>
  match symbolArgument .listing r.form with
  | .error e => (.ofError r.form e, s)
  | .ok ns => (.ofText r.form (listing (Evaluator.varsOf s.workspace ns)), s)

/-- Where the text that defines a var is looked for: in the file of the var if
it is known, and else where the namespace is loaded from. -/
def definingLookup (r : Request) (info : VarInfo) : Source.Lookup :=
  match info.file with
  | some file =>
    match r.options.reader with
    | none => ⟨[], .ok none⟩
    | some reader =>
      let directories := r.options.settings.sourcePaths
      Source.lookupFirst reader
        (if directories.isEmpty then [file] else Source.underEach directories file)
  | none => r.loader (.ofNamespace info.ns false)

/-- The text of the definition of a var, with the files asked for noted down. -/
def definitionText (r : Request) (info : VarInfo) (s : EvalState σ) :
    Option String × EvalState σ :=
  let found := definingLookup r info
  let s := { s with reads := s.reads ++ found.reads }
  match found.found with
  | .ok (some source) => (sourceAtLine source.text (info.line.getD 1), s)
  | _ => (none, s)

/-- `source` -/
def serveSource : Server σ := fun r s =>
  match symbolArgument .source r.form with
  | .error e => (.ofError r.form e, s)
  | .ok name =>
    match Evaluator.resolve? s.workspace r.ns name with
    | some info =>
      let (text, s) := definitionText r info s
      (.ofText r.form (text.getD "nil"), s)
    | none => (.ofText r.form "nil", s)

/-- The form whose value `pst` shows: the argument, or the latest error. A false
argument needs no evaluation. -/
def traceArgument? (form : Form) : Option Form :=
  match form.args.head? with
  | none => some (.ofName "*e")
  | some .nil => none
  | some (.bool false) => none
  | some arg => some arg

/-- `pst` -/
def serveTrace : Server σ := fun r s =>
  match traceArgument? r.form with
  | none => ({ form := r.form, outcome := .ok .nil }, s)
  | some arg =>
    match Evaluator.evalForm (r.evalOptions r.ns) arg s with
    | (.ok evaluated, s) => (.ofText r.form evaluated.value.trace, s)
    | (.error e, s) => (.ofError r.form e, s)

/-! ### All requests -/

/-- Whether the value of a form is remembered. -/
def isRemembered (form : Form) : Bool :=
  !isHistoryReference form && !isNamespaceForm form

/-- Any other form is evaluated. A success is remembered and leads into the
namespace that the evaluation ended in. -/
def serveOrdinary : Server σ := fun r s =>
  match Evaluator.evalSource (r.evalOptions r.ns) r.source s with
  | (.ok evaluated, s) =>
    let value := if isRemembered r.form then some evaluated.value else none
    ({ form := r.form
       outcome := .ok evaluated.value
       effect := .onSuccess ⟨value, evaluated.ns⟩ }, s)
  | (.error e, s) => (.ofError r.form e, s)

/-- A directive is served. -/
def Directive.serve : Directive → Server σ
  | .enter => serveEnter
  | .require kind => serveRequire kind
  | .doc => serveDoc
  | .source => serveSource
  | .trace => serveTrace
  | .listing => serveListing
  | .loadFile => fun r s => (.ofError r.form (.unsupported Directive.loadFile.name), s)

/-- A request is served. -/
def serve : Server σ := fun r s =>
  match Directive.classify? r.form with
  | some d => d.serve r s
  | none => serveOrdinary r s

end Listener
