/-
What `doc` shows.

* `DocEntry`, `DocEntry.render`: documentation with a marker for its kind.
* `docOf`: the entry of a symbol: forms of the language come first, then
  directives, namespaces, and vars.
-/
import Listener.Directive.Documentation
import Listener.Evaluator

namespace Listener

/-- What an entry describes. -/
inductive DocKind where
  /-- A form of the language itself. -/
  | specialForm
  /-- A directive of the listener. -/
  | directive
  /-- A namespace. -/
  | ns
  | macroVar
  /-- Any other var. -/
  | var
  deriving DecidableEq

/-- The documentation of something. -/
structure DocEntry where
  name : String
  /-- What it is. -/
  kind : DocKind
  /-- The lists of parameters, as they are printed. -/
  arglists : Option String
  /-- The documentation itself. -/
  doc : Option String

namespace DocEntry

/-- The line that divides entries. -/
def rule : String := "-------------------------"

/-- The line that marks the kind of an entry. -/
def marker? : DocKind → Option String
  | .specialForm => some "Special Form"
  | .directive => some "REPL Special Function"
  | .macroVar => some "Macro"
  | .ns => none
  | .var => none

/-- The lines of an entry. A form of the language ends with a reference. -/
def lines (e : DocEntry) : List String :=
  [rule, e.name] ++ e.arglists.toList ++ (marker? e.kind).toList ++
    (e.doc.map ("  " ++ ·)).toList ++
    (if e.kind = .specialForm then
      ["", "  Please see http://clojure.org/special_forms#" ++ e.name]
    else [])

def render (e : DocEntry) : String :=
  "\n".intercalate e.lines

/-- The entry of something with a fixed documentation. -/
def ofDocumentation (name : String) (kind : DocKind) (d : Documentation) : DocEntry :=
  ⟨name, kind, some d.arglists, some d.doc⟩

/-- The entry of a var or macro. -/
def ofVar (info : VarInfo) : DocEntry :=
  ⟨info.name.text, if info.isMacro then .macroVar else .var, info.arglists, info.doc⟩

end DocEntry

/-- The entry of a symbol as seen from a namespace. -/
def docOf {σ : Type} [Evaluator σ] (w : σ) (ns s : Symbol) : Option DocEntry :=
  match Documentation.ofSpecialForm? s.text with
  | some d => some (.ofDocumentation s.text .specialForm d)
  | none =>
    match Documentation.ofDirective? s.text with
    | some d => some (.ofDocumentation s.text .directive d)
    | none =>
      match Evaluator.namespaceInfo? w s with
      | some n => some ⟨n.name.text, .ns, none, n.doc⟩
      | none => (Evaluator.resolve? w ns s).map .ofVar

end Listener
