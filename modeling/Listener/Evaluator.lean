/-
Evaluators: what is asked of whatever evaluates code.

* `Eval σ`: a computation on the state `σ` of an evaluator that may fail. What it did
  before it failed stays done.
* `Evaluator σ`: the two ways in, and what can be asked of the state and done to it.
-/
import Listener.Warning
import Listener.Workspace.Basic

namespace Listener

/-! ### Computations -/

/-- What an evaluation works on. -/
structure EvalState (σ : Type := Workspace) where
  /-- The state of the evaluator. -/
  workspace : σ
  /-- The warnings of the request. -/
  warnings : WarningSlot := {}
  /-- The paths that tables of files were asked for. -/
  reads : List String := []
  /-- The modules that loaders were asked for. -/
  requests : List Source.LoadRequest := []

/-- A computation that may fail. -/
def Eval (σ α : Type) : Type := EvalState σ → Except Error α × EvalState σ

namespace Eval

variable {σ α : Type}

instance : Monad (Eval σ) where
  pure a := fun s => (.ok a, s)
  bind x f := fun s =>
    match x s with
    | (.ok a, s) => f a s
    | (.error e, s) => (.error e, s)

def fail (e : Error) : Eval σ α := fun s => (.error e, s)

/-- The computation with a result that is known. -/
def ofExcept (r : Except Error α) : Eval σ α := fun s => (r, s)

/-- Something about the state. -/
def ask (f : σ → α) : Eval σ α := fun s => (.ok (f s.workspace), s)

/-- A change of the state. -/
def change (f : σ → σ) : Eval σ Unit :=
  fun s => (.ok (), { s with workspace := f s.workspace })

def warn (w : Warning) : Eval σ Unit :=
  fun s => (.ok (), { s with warnings := s.warnings.warn w })

/-- What a loader finds, with notes of the module and of the paths it asked for. -/
def load (loader : Source.Loader) (request : Source.LoadRequest) :
    Eval σ (Option Source.LoadedSource) :=
  fun s =>
    let found := loader request
    (found.found, { s with
      reads := s.reads ++ found.reads
      requests := s.requests ++ [request] })

end Eval

/-- A value, and the namespace that the evaluation ended in. -/
structure Evaluated where
  value : Value
  /-- The namespace. -/
  ns : Symbol

/-! ### Evaluators -/

/-- An evaluator with the state `σ`. -/
class Evaluator (σ : Type) where
  /-- A form is evaluated. -/
  evalForm (opts : EvalOptions) (form : Form) : Eval σ Evaluated
  /-- The first form of a text is evaluated. -/
  evalSource (opts : EvalOptions) (text : String) : Eval σ Evaluated
  /-- Whether there is a namespace under a name. -/
  hasNamespace (s : σ) (name : Symbol) : Bool
  /-- What is known of a namespace. -/
  namespaceInfo? (s : σ) (name : Symbol) : Option NamespaceInfo
  /-- What is known of the var that a symbol means in a namespace. -/
  resolve? (s : σ) (ns name : Symbol) : Option VarInfo
  /-- What is known of the vars of a namespace. -/
  varsOf (s : σ) (ns : Symbol) : List VarInfo
  loadedNamespaces (s : σ) : List Symbol
  /-- The state without a namespace. -/
  purge (s : σ) (name : Symbol) : σ

/-- The state without several namespaces. -/
def Evaluator.purgeAll {σ : Type} [Evaluator σ] (s : σ) (names : List Symbol) : σ :=
  names.foldl Evaluator.purge s

end Listener
