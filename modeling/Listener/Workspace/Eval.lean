/-
Evaluation in the workspace.

* `evalForm`: the value of a form. Symbols are looked up, lists are calls of a
  few operators, and everything else is its own value.
* `requireNamespace`, `loadNamespace`: a namespace is loaded, with what it
  requires, unless it is loaded already.
* `Eval.form`, `Eval.source`: the two ways in, which note that they were used.
  With them the workspace is an evaluator.
-/
import Listener.Evaluator
import Listener.Reader

namespace Listener

/-! ### Operators -/

/-- What a list calls. -/
inductive Operator where
  /-- The first argument as it stands. -/
  | quote
  /-- A var is defined. -/
  | define
  /-- The arguments are evaluated in order. -/
  | doAll
  /-- The sum of the arguments. -/
  | sum
  /-- A symbol is made of a string. -/
  | symbol
  /-- The evaluation fails. -/
  | throwError
  /-- Nothing is done. -/
  | assign
  /-- A namespace is created. -/
  | ns
  /-- Something unknown. -/
  | unknown (name : String)

namespace Operator

/-- The operator with a name. -/
def ofName (name : String) : Operator :=
  if name = "quote" then .quote
  else if name = "def" then .define
  else if name = "do" then .doAll
  else if name = "+" then .sum
  else if name = "symbol" then .symbol
  else if name = "throw" then .throwError
  else if name = "set!" then .assign
  else if name = "ns" then .ns
  else .unknown name

/-- The operator that the head of a list names. -/
def ofHead (head : Form) : Operator :=
  ofName ((head.asSymbol?.map Symbol.text).getD "")

end Operator

/-! ### Requirements -/

/-- The namespaces that a spec depends on. In an import, a list names classes
after the namespace that they have in common. -/
def specDependencies (isImport : Bool) (spec : Form) : List Symbol :=
  let ofItems : List Form → List Symbol
    | [] => []
    | first :: rest =>
      match first.asSymbol? with
      | none => []
      | some ns =>
        if !isImport || rest.isEmpty then [ns]
        else (rest.filterMap Form.asSymbol?).map fun c => ⟨ns.text ++ "." ++ c.text⟩
  match spec with
  | .symbol s => [s]
  | .vector items => ofItems items
  | .list items => ofItems items
  | _ => []

/-- The namespaces that a clause of `ns` depends on, and whether it is about
macros. A clause is a list that starts with a keyword. -/
def clauseDependencies : Form → List (Symbol × Bool)
  | .list (.keyword k :: specs) =>
    (specs.flatMap (specDependencies (k == "import"))).map fun s => (s, k == "require-macros")
  | _ => []

/-- A way to have namespaces loaded: the options of the evaluation, the
namespace, and whether its macros are wanted. -/
abbrev Requirer := EvalOptions → Symbol → Bool → Eval Workspace Unit

/-- All namespaces are loaded, one after the other. -/
def requireEach (require : Requirer) (opts : EvalOptions) :
    List (Symbol × Bool) → Eval Workspace Unit
  | [] => pure ()
  | (ns, isMacros) :: rest => do
    require opts ns isMacros
    requireEach require opts rest

/-! ### Evaluation -/

/-- A value in the namespace of the evaluation. -/
def EvalOptions.here (opts : EvalOptions) (value : Value) : Evaluated :=
  ⟨value, opts.ns⟩

/-- The value of a symbol: a variable of the history or else a var. One that is
neither is nil, with a warning. -/
def evalSymbol (opts : EvalOptions) (s : Symbol) : Eval Workspace Evaluated :=
  match opts.history.lookup? s with
  | some value => pure (opts.here value)
  | none => do
    match ← Eval.ask (·.lookup? opts.ns s) with
    | some v => return opts.here v.value
    | none =>
      Eval.warn
        { kind := "undeclared-var"
          message := "Use of undeclared Var " ++ opts.ns.text ++ "/" ++ s.text
          line := some 1 }
      return opts.here .nil

/-- A var is defined in the namespace of the evaluation; the value is the symbol
that means the var. -/
def evalDefine (opts : EvalOptions) (name : Symbol) (value : Value) : Eval Workspace Evaluated := do
  Eval.change (·.define { name := .qualified opts.ns.text name.text, ns := opts.ns } value)
  return opts.here (.data (.symbol ⟨"#'" ++ opts.ns.text ++ "/" ++ name.text⟩))

/-- A symbol is made of a literal string. -/
def evalMakeSymbol (opts : EvalOptions) : List Form → Eval Workspace Evaluated
  | .str s :: _ => pure (opts.here (.data (.symbol ⟨s⟩)))
  | _ => Eval.fail (.failed "symbol expects a string")

/-- The error that a call to fail makes of its arguments. -/
def thrownError (args : List Form) : Error :=
  let message := match args with
    | message :: _ => message.rawText
    | [] => "nil"
  let e := (Error.failed message).withStack "at eval (<repl>:1)"
  match args with
  | _ :: cause :: _ => e.withCause (.failed cause.rawText)
  | _ => e

/-- A namespace is created and what its clauses ask for is loaded. -/
def evalNamespace (require : Requirer) (opts : EvalOptions) (args : List Form) :
    Eval Workspace Evaluated := do
  match args with
  | [] => Eval.fail (.failed "ns expects a symbol")
  | first :: clauses =>
    match first.asSymbol? with
    | none => Eval.fail (.failed "ns expects a symbol")
    | some name =>
      if ← Eval.ask fun w => w.failing.contains name then
        Eval.fail (.failed ("Cannot create namespace " ++ name.text))
      else
        Eval.change (·.createNamespace name)
        requireEach require opts (clauses.flatMap clauseDependencies)
        return ⟨.nil, name⟩

mutual

/-- The value of a form. -/
def evalForm (require : Requirer) (opts : EvalOptions) : Form → Eval Workspace Evaluated
  | .symbol s => evalSymbol opts s
  | .list (head :: args) =>
    match Operator.ofHead head with
    | .quote => pure (opts.here (.data (args.head?.getD .nil)))
    | .define => do
      let name := (args.head?.bind Form.asSymbol?).getD ⟨""⟩
      let value ← evalSecond require opts args
      evalDefine opts name value
    | .doAll => evalAll require opts (opts.here .nil) args
    | .sum => evalSum require opts 0 args
    | .symbol => evalMakeSymbol opts args
    | .throwError => Eval.fail (thrownError args)
    | .assign => pure (opts.here .nil)
    | .ns => evalNamespace require opts args
    | .unknown name => Eval.fail (.failed (name ++ " is not a function"))
  | form => pure (opts.here (.data form))

/-- The value of the second of several forms, or nil. -/
def evalSecond (require : Requirer) (opts : EvalOptions) : List Form → Eval Workspace Value
  | _ :: form :: _ => do return (← evalForm require opts form).value
  | _ => pure .nil

/-- The last of the values of forms, which are evaluated in order. -/
def evalAll (require : Requirer) (opts : EvalOptions) (last : Evaluated) :
    List Form → Eval Workspace Evaluated
  | [] => pure last
  | form :: forms => do
    let last ← evalForm require opts form
    evalAll require opts last forms

/-- The sum of the values of forms and a number, in 64 bits with a sign. -/
def evalSum (require : Requirer) (opts : EvalOptions) (sum : Int) :
    List Form → Eval Workspace Evaluated
  | [] => pure (opts.here (.data (.int sum)))
  | form :: forms => do
    match (← evalForm require opts form).value with
    | .data (.int n) => evalSum require opts ((sum + n).bmod 18446744073709551616) forms
    | other => Eval.fail (.failed (other.print ++ " is not a number"))

end

/-! ### Loading -/

/-- Forms are evaluated in order, each in the namespace that the one before it
ended in. -/
def evalFile (require : Requirer) (opts : EvalOptions) : List Form → Eval Workspace Unit
  | [] => pure ()
  | form :: forms => do
    let evaluated ← evalForm require opts form
    evalFile require { opts with ns := evaluated.ns } forms

/-- A namespace is loaded unless it is loaded already. Loading goes at most
`depth` namespaces deep. -/
def requireNamespace : Nat → Requirer
  | 0, _, ns, _ => Eval.fail (.failed ("Too many nested requirements at " ++ ns.text))
  | depth + 1, opts, ns, isMacros => do
    if ← Eval.ask (·.isLoaded ns) then
      return ()
    let request := Source.LoadRequest.ofNamespace ns isMacros
    match ← Eval.load opts.loader request with
    | none =>
      Eval.fail (.failed ("No such namespace: " ++ ns.text ++ ", could not locate " ++
        request.path ++ ".cljs"))
    | some source =>
      if source.language = .forms then
        let forms ← Eval.ofExcept (readAll source.text)
        evalFile (requireNamespace depth) { opts with ns := ns } forms
      Eval.change (·.markLoaded ns)

/-- A namespace is loaded as deep as the workspace allows. -/
def loadNamespace : Requirer := fun opts ns isMacros s =>
  requireNamespace s.workspace.depth opts ns isMacros s

/-! ### The ways in -/

namespace Eval

/-- A form is evaluated, with a note. -/
def form (opts : EvalOptions) (f : Form) : Eval Workspace Evaluated := do
  Eval.change fun w => { w with calls := w.calls ++ [opts] }
  evalForm loadNamespace opts f

/-- The first form of a text is evaluated, with a note. -/
def source (opts : EvalOptions) (text : String) : Eval Workspace Evaluated := do
  Eval.change fun w => { w with calls := w.calls ++ [opts], sources := w.sources ++ [text] }
  let f ← Eval.ofExcept (readForm text)
  evalForm loadNamespace opts f

end Eval

/-- The workspace evaluates code. -/
instance : Evaluator Workspace where
  evalForm := Eval.form
  evalSource := Eval.source
  hasNamespace := Workspace.hasNamespace
  namespaceInfo? := Workspace.namespaceInfo?
  resolve? := Workspace.resolve?
  varsOf := Workspace.varsOf
  loadedNamespaces := Workspace.loadedNamespaces
  purge := Workspace.purge

namespace Workspace

@[simp] theorem evalForm_eq : Evaluator.evalForm = Eval.form := rfl

@[simp] theorem evalSource_eq : Evaluator.evalSource = Eval.source := rfl

@[simp] theorem hasNamespace_eq : Evaluator.hasNamespace = hasNamespace := rfl

@[simp] theorem resolve?_eq : Evaluator.resolve? = resolve? := rfl

@[simp] theorem loadedNamespaces_eq : Evaluator.loadedNamespaces = loadedNamespaces := rfl

end Workspace

end Listener
