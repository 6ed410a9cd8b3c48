/-
The arguments of `require` and its relatives.

* `canonicalize`: quoted specs without their quotes, a symbol as a vector of
  itself, and the wish to reload that stands among them or at their ends.
* `specNamespace?`: the namespace that a spec names.
* `namespaceForm`: the call of `ns` that loads specs.
-/
import Listener.Directive.Basic

namespace Listener

/-- Which namespaces are loaded again. -/
inductive Reload where
  /-- Those that are named. -/
  | named
  /-- All that are loaded. -/
  | all
  deriving DecidableEq

namespace Reload

/-- The wish that a keyword stands for. -/
def ofForm? (form : Form) : Option Reload :=
  if form.isKeyword "reload" then some .named
  else if form.isKeyword "reload-all" then some .all
  else none

/-- The greater of two wishes. -/
def max : Option Reload → Option Reload → Option Reload
  | some .all, _ => some .all
  | _, some .all => some .all
  | some .named, _ => some .named
  | none, r => r

/-- The greatest wish among forms that stand for wishes. -/
def ofForms (forms : List Form) : Option Reload :=
  forms.foldr (fun form r => max (ofForm? form) r) none

end Reload

/-- Specs without quotes, and the wish to reload. -/
structure Specs where
  /-- The specs in order. -/
  specs : List Form
  /-- The wish to reload. -/
  reload : Option Reload

def isReload (form : Form) : Bool :=
  (Reload.ofForm? form).isSome

/-- A list of forms without the wishes at its end. -/
def dropReloads (items : List Form) : List Form :=
  (items.reverse.dropWhile isReload).reverse

/-- The wishes at the end of a list of forms, the last one first. -/
def trailingReloads (items : List Form) : List Form :=
  items.reverse.takeWhile isReload

/-- The canonical spec of a form, and the wish at its end. -/
def canonicalSpec : Form → Form × Option Reload
  | .symbol s => (.vector [.symbol s], none)
  | .vector items => (.vector (dropReloads items), Reload.ofForms (trailingReloads items))
  | form => (form, none)

/-- The canonical specs of arguments; every one that is not a wish to reload
must be quoted. -/
def canonicalSpecs (kind : RequireKind) : List Form → Except Error Specs
  | [] => .ok ⟨[], none⟩
  | arg :: args =>
    match Reload.ofForm? arg, arg.unquoted? with
    | some r, _ => (canonicalSpecs kind args).map fun s => ⟨s.specs, Reload.max (some r) s.reload⟩
    | none, some quoted =>
      let (spec, r) := canonicalSpec quoted
      (canonicalSpecs kind args).map fun s => ⟨spec :: s.specs, Reload.max r s.reload⟩
    | none, none => .error (.argument ("Argument to " ++ kind.name ++ " must be a symbol"))

/-- The canonical specs of the arguments of a directive, at least one. -/
def canonicalize (kind : RequireKind) (args : List Form) : Except Error Specs :=
  if args.isEmpty then .error (.argument ("Argument to " ++ kind.name ++ " must be a symbol"))
  else canonicalSpecs kind args

/-- The namespace that a spec names. -/
def specNamespace? : Form → Option Symbol
  | .vector items => items.head?.bind Form.asSymbol?
  | .list items => items.head?.bind Form.asSymbol?
  | .symbol s => some s
  | _ => none

/-- The call of `ns` that loads specs into a namespace. -/
def namespaceForm (target : Symbol) (kind : RequireKind) (specs : List Form) : Form :=
  .list [.ofName "ns", .symbol target, .list (.keyword kind.name :: specs)]

end Listener
