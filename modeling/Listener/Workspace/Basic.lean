/-
The workspace: the namespaces that code is evaluated in.

* `VarInfo`, `NamespaceInfo`: what is known of vars and namespaces.
* `Namespace`, `Workspace`: the namespaces with their vars, which of them are
  loaded, and notes of what the workspace was asked to do.
* `Workspace.lookup?`: the var that a symbol means in a namespace.
* `Workspace.purge`: a namespace is forgotten; `mem_loaded_purgeAll` says which
  namespaces stay loaded.
-/
import Listener.Options
import Listener.Session
import Listener.Text.Order

namespace Listener

/-! ### Vars and namespaces -/

/-- What is known of a var or macro. -/
structure VarInfo where
  /-- The name with its namespace. -/
  name : Symbol
  /-- The namespace. -/
  ns : Symbol
  /-- The documentation. -/
  doc : Option String := none
  /-- The lists of parameters, as they are printed. -/
  arglists : Option String := none
  /-- Whether it is a macro. -/
  isMacro : Bool := false
  /-- Whether it is left out of listings. -/
  isPrivate : Bool := false
  /-- The file of its definition. -/
  file : Option String := none
  /-- The line of its definition. -/
  line : Option Nat := none

/-- What is known of a namespace. -/
structure NamespaceInfo where
  name : Symbol
  /-- The documentation. -/
  doc : Option String

/-- A var with its value. -/
structure Var where
  /-- What is known of it. -/
  info : VarInfo
  value : Value

/-- A namespace: its documentation and its vars by name. -/
structure Namespace where
  /-- The documentation. -/
  doc : Option String := none
  /-- The vars, each name once. -/
  vars : List (String × Var) := []

/-! ### Evaluation options -/

/-- Where code stands in the eyes of a compiler. -/
inductive EvalContext where
  /-- Its value is used. -/
  | expression
  /-- Its value is not used. -/
  | statement
  /-- Its value is returned. -/
  | returned
  deriving DecidableEq

/-- What an evaluation is given besides the code. -/
structure EvalOptions where
  /-- The namespace to evaluate in. -/
  ns : Symbol
  /-- Where the code stands. -/
  context : EvalContext := .expression
  /-- Whether to write a source map. -/
  sourceMap : Bool := false
  /-- Whether a definition results in its var. -/
  defEmitsVar : Bool := true
  /-- Whether functions are called without a look at their arity. -/
  staticFns : Bool := false
  /-- Whether to report what is done. -/
  verbose : Bool
  /-- Where the evaluated code runs. -/
  target : Target
  /-- Where sources come from. -/
  loader : Source.Loader
  /-- The history when the request began. -/
  history : History

/-! ### The workspace -/

/-- The namespaces, and notes of what was asked for. -/
structure Workspace where
  /-- The namespaces, each name once. -/
  namespaces : List (Symbol × Namespace) := []
  /-- The names of the loaded namespaces, in ascending order. -/
  loaded : List String := []
  /-- The namespaces that cannot be created. -/
  failing : List Symbol := []
  /-- How deep namespaces may require each other. -/
  depth : Nat := 1000
  /-- The namespaces that were purged. -/
  purged : List Symbol := []
  /-- The options of the evaluations. -/
  calls : List EvalOptions := []
  /-- The texts that were evaluated. -/
  sources : List String := []

namespace Workspace

/-- What is known under a key after a change. -/
def update {κ α : Type} [DecidableEq κ] (key : κ) (change : Option α → α) :
    List (κ × α) → List (κ × α)
  | [] => [(key, change none)]
  | p :: ps => if p.1 = key then (key, change (some p.2)) :: ps else p :: update key change ps

/-- The namespace under a name. -/
def namespace? (w : Workspace) (name : Symbol) : Option Namespace :=
  w.namespaces.lookup name

/-- Whether there is a namespace under a name. -/
def hasNamespace (w : Workspace) (name : Symbol) : Bool :=
  (w.namespace? name).isSome

/-- The workspace with a namespace under a name, as it is or else empty. -/
def createNamespace (w : Workspace) (name : Symbol) : Workspace :=
  { w with namespaces := update name (·.getD {}) w.namespaces }

/-- The workspace with the documentation of a namespace. -/
def documentNamespace (w : Workspace) (name : Symbol) (doc : Option String) : Workspace :=
  { w with namespaces := update name (fun n => { n.getD {} with doc := doc }) w.namespaces }

/-- The workspace with a var, in place of one with the same name. -/
def define (w : Workspace) (info : VarInfo) (value : Value) : Workspace :=
  let addTo (n : Namespace) : Namespace :=
    { n with vars := update info.name.name (fun _ => ⟨info, value⟩) n.vars }
  { w with namespaces := update info.ns (fun n => addTo (n.getD {})) w.namespaces }

/-- The workspace where a namespace counts as loaded. -/
def markLoaded (w : Workspace) (name : Symbol) : Workspace :=
  { w with loaded := Text.insert name.text w.loaded }

/-- The workspace where a namespace cannot be created. -/
def markFailing (w : Workspace) (name : Symbol) : Workspace :=
  { w with failing := name :: w.failing }

/-- Whether a namespace is loaded. -/
def isLoaded (w : Workspace) (name : Symbol) : Bool :=
  w.loaded.contains name.text

/-- The loaded namespaces in ascending order. -/
def loadedNamespaces (w : Workspace) : List Symbol :=
  w.loaded.map Symbol.mk

/-- The var under a name in a namespace. -/
def varIn? (w : Workspace) (ns : Symbol) (name : String) : Option Var :=
  (w.namespace? ns).bind fun n => n.vars.lookup name

/-- The namespace whose vars are seen from everywhere. -/
def coreNamespace : Symbol := ⟨"cljs.core"⟩

/-- The var that a symbol means in a namespace. A qualified symbol means a var of
its own namespace; any other one of the namespace or else of the core. -/
def lookup? (w : Workspace) (ns s : Symbol) : Option Var :=
  match s.qualifier? with
  | some owner => w.varIn? ⟨owner⟩ s.name
  | none => (w.varIn? ns s.name).or (w.varIn? coreNamespace s.name)

/-- What is known of a namespace. -/
def namespaceInfo? (w : Workspace) (name : Symbol) : Option NamespaceInfo :=
  (w.namespace? name).map fun n => ⟨name, n.doc⟩

/-- What is known of the var that a symbol means in a namespace. -/
def resolve? (w : Workspace) (ns s : Symbol) : Option VarInfo :=
  (w.lookup? ns s).map Var.info

/-- What is known of the vars of a namespace. -/
def varsOf (w : Workspace) (ns : Symbol) : List VarInfo :=
  match w.namespace? ns with
  | some n => n.vars.map fun p => p.2.info
  | none => []

/-- The workspace without a namespace. The default namespace is no longer loaded
but stays. -/
def purge (w : Workspace) (name : Symbol) : Workspace :=
  { w with
    loaded := w.loaded.filter (· != name.text)
    purged := w.purged ++ [name]
    namespaces :=
      if name = defaultNamespace then w.namespaces
      else w.namespaces.filter fun p => p.1 != name }

/-- The workspace without several namespaces. -/
def purgeAll (w : Workspace) (names : List Symbol) : Workspace :=
  names.foldl purge w

/-- A namespace stays loaded exactly when it was loaded and is not purged. -/
theorem mem_loaded_purgeAll (w : Workspace) (names : List Symbol) (s : String) :
    s ∈ (w.purgeAll names).loaded ↔ s ∈ w.loaded ∧ ∀ name ∈ names, name.text ≠ s := by
  induction names generalizing w with
  | nil => simp [purgeAll]
  | cons name names ih =>
    rw [purgeAll, List.foldl_cons, ← purgeAll, ih]
    simp only [purge, List.mem_filter, List.mem_cons, forall_eq_or_imp, bne_iff_ne, ne_eq]
    constructor
    · rintro ⟨⟨h, hn⟩, hs⟩
      exact ⟨h, fun he => hn he.symm, hs⟩
    · rintro ⟨h, hn, hs⟩
      exact ⟨⟨h, fun he => hn he.symm⟩, hs⟩

/-! ### The workspace at the start -/

/-- The workspace of a new listener: the default namespace, and the core with a
function and a macro. -/
def initial : Workspace :=
  let w : Workspace := {}
  let w := w.documentNamespace defaultNamespace none
  let w := w.documentNamespace coreNamespace (some "Fundamental library of the language.")
  let w := w.define
    { name := ⟨"cljs.core/map"⟩
      ns := coreNamespace
      doc := some "Returns a lazy sequence of f applied to coll."
      arglists := some "([f] [f coll])"
      file := some "cljs/core.cljs"
      line := some 3 } .nil
  w.define
    { name := ⟨"cljs.core/when"⟩
      ns := coreNamespace
      doc := some "Evaluates test."
      arglists := some "([test & body])"
      isMacro := true } .nil

end Workspace

end Listener
