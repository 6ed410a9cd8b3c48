/-
Directives: the calls that the listener serves itself.

* `Directive.classify?`: the directive that a form calls, told by the head of
  the list; `classify?_eq_some_iff` says that the name decides.
* `isNamespaceForm`, `isHistoryReference`: the forms whose value is not
  remembered.
-/
import Listener.Session.History

namespace Listener

/-- The ways to ask for namespaces, each a clause of `ns`. -/
inductive RequireKind where
  /-- Namespaces of functions. -/
  | require
  /-- Namespaces of macros. -/
  | requireMacros
  /-- Classes of a library. -/
  | classes
  deriving DecidableEq

def RequireKind.name : RequireKind → String
  | .require => "require"
  | .requireMacros => "require-macros"
  | .classes => "import"

/-- A call that the listener serves itself. -/
inductive Directive where
  /-- Another namespace is entered. -/
  | enter
  /-- Namespaces are loaded. -/
  | require (kind : RequireKind)
  /-- Documentation is shown. -/
  | doc
  /-- The text of a definition is shown. -/
  | source
  /-- The trace of an error is shown. -/
  | trace
  /-- The vars of a namespace are listed. -/
  | listing
  /-- A file is loaded, which is not served. -/
  | loadFile
  deriving DecidableEq

namespace Directive

/-- The name under which a directive is called. -/
def name : Directive → String
  | .enter => "in-ns"
  | .require kind => kind.name
  | .doc => "doc"
  | .source => "source"
  | .trace => "pst"
  | .listing => "dir"
  | .loadFile => "load-file"

def all : List Directive :=
  [.enter, .require .require, .require .requireMacros, .require .classes, .doc, .source, .trace,
    .listing, .loadFile]

/-- The directive with a name. -/
def ofName? (name : String) : Option Directive :=
  all.find? fun d => d.name == name

/-- The directive that a form calls. -/
def classify? (form : Form) : Option Directive :=
  form.head?.bind fun s => ofName? s.text

/-- The name of a directive means the directive. -/
theorem ofName?_name (d : Directive) : ofName? d.name = some d := by
  cases d with
  | require kind => cases kind <;> decide
  | _ => decide

/-- A name means a directive only if it is the directive's own. -/
theorem name_of_ofName? {s : String} {d : Directive} (h : ofName? s = some d) : d.name = s := by
  have := List.find?_some h
  simpa using this

/-- A form calls a directive exactly when its head is the directive's name. -/
theorem classify?_eq_some_iff (form : Form) (d : Directive) :
    classify? form = some d ↔ form.head? = some ⟨d.name⟩ := by
  constructor
  · intro h
    obtain ⟨s, hs, hd⟩ := Option.bind_eq_some_iff.mp h
    rw [hs, name_of_ofName? hd]
  · intro h
    simp [classify?, h, ofName?_name]

end Directive

def isNamespaceForm (form : Form) : Bool :=
  form.head?.any fun s => s.text == "ns"

/-- Whether a form is a variable of the history on its own. -/
def isHistoryReference (form : Form) : Bool :=
  form.asSymbol?.any History.isVariable

end Listener
