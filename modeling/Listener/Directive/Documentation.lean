/-
The documentation of what no namespace describes.

* `Documentation.ofSpecialForm?`: the forms of the language itself.
* `Documentation.ofDirective?`: the directives that the listener serves before
  the language sees them.
-/
namespace Listener

/-- How a form is called and what it does. -/
structure Documentation where
  /-- The lists of parameters, as they are printed. -/
  arglists : String
  /-- What the form does. -/
  doc : String
  deriving DecidableEq

namespace Documentation

/-- The forms of the language itself. -/
def specialForms : List (String × Documentation) := [
  ("def",
    ⟨"([symbol doc-string? init?])",
      "Creates and interns a global var with the name\n" ++
        "  of symbol in the current namespace (*ns*) or locates such a var if\n" ++
        "  it already exists.  If init is supplied, it is evaluated, and the\n" ++
        "  root binding of the var is set to the resulting value.  If init is\n" ++
        "  not supplied, the root binding of the var is unaffected."⟩),
  ("if",
    ⟨"([test then else?])",
      "Evaluates test. If not the singular values nil or false,\n" ++
        "  evaluates and yields then, otherwise, evaluates and yields else. If\n" ++
        "  else is not supplied it defaults to nil."⟩),
  ("do",
    ⟨"([exprs*])",
      "Evaluates the expressions in order and returns the value of\n" ++
        "  the last. If no expressions are supplied, returns nil."⟩),
  ("let*",
    ⟨"([bindings* exprs*])",
      "binding => binding-form init-expr\n\n" ++
        "  Evaluates the exprs in a lexical context in which the symbols in\n" ++
        "  the binding-forms are bound to their respective init-exprs or parts\n  therein."⟩),
  ("quote",
    ⟨"([form])",
      "Yields the unevaluated form."⟩),
  ("var",
    ⟨"([symbol])",
      "The symbol must resolve to a var, and the Var object\n" ++
        "itself (not its value) is returned. The reader macro #'x expands to (var x)."⟩),
  ("fn*",
    ⟨"([params* exprs*])",
      "Defines a function."⟩),
  ("loop*",
    ⟨"([bindings* exprs*])",
      "Evaluates the exprs in a lexical context in which the symbols in\n" ++
        "  the binding-forms are bound to their respective init-exprs or parts\n" ++
        "  therein. Acts as a recur target."⟩),
  ("recur",
    ⟨"([exprs*])",
      "Evaluates the exprs in order, then, in parallel, rebinds\n" ++
        "  the bindings of the recursion point to the values of the exprs.\n" ++
        "  Execution then jumps back to the recursion point, a loop or fn method."⟩),
  ("throw",
    ⟨"([expr])",
      "The expr is evaluated and thrown."⟩),
  ("try",
    ⟨"([expr* catch-clause* finally-clause?])",
      "catch-clause => (catch classname name expr*)\n" ++
        "  finally-clause => (finally expr*)\n  Catches and handles JavaScript exceptions."⟩),
  ("set!",
    ⟨"([var-symbol expr] [[. instance-expr instanceFieldName-symbol] expr])",
      "Used to set vars and JavaScript object fields"⟩),
  ("new",
    ⟨"([Constructor. args*] [new Constructor args*])",
      "The args, if any, are evaluated from left to right, and\n" ++
        "  passed to the JavaScript constructor. The constructed object is\n  returned."⟩),
  (".",
    ⟨"([.instanceMethod instance args*] [.-instanceField instance])",
      "The instance member form works for methods and fields.\n" ++
        "  They all expand into calls to the dot operator at macroexpansion time."⟩),
  ("ns",
    ⟨"([name docstring? attr-map? references*])",
      "You must currently use the ns form only with the following caveats\n\n" ++
        "    * You must use the :only form of :use\n" ++
        "    * :require supports :as, :refer, and :rename\n" ++
        "    * :require-macros supports :refer-macros, :as, and :rename"⟩)]

/-- The documentation of a form of the language. -/
def ofSpecialForm? (name : String) : Option Documentation :=
  specialForms.lookup name

/-- The directives of the listener. -/
def directives : List (String × Documentation) := [
  ("in-ns",
    ⟨"([name])",
      "Sets *cljs-ns* to the namespace named by the symbol, creating it if needed."⟩),
  ("require",
    ⟨"([& args])",
      "Loads libs, skipping any that are already loaded. Each argument is\n" ++
        "  either a libspec that identifies a lib or a flag that modifies how all " ++
        "the identified\n" ++
        "  libs are loaded. Use :require in the ns macro in preference to calling this\n" ++
        "  directly.\n\n  Recognized flags: :reload, :reload-all"⟩),
  ("require-macros",
    ⟨"([& args])",
      "Similar to the require REPL special function but\n  only for macros."⟩),
  ("import",
    ⟨"([& import-symbols-or-lists])",
      "import-list => (closure-namespace constructor-name-symbols*)\n\n" ++
        "  For each name in constructor-name-symbols, adds a mapping from name to the\n" ++
        "  constructor named by closure-namespace to the current namespace."⟩),
  ("doc",
    ⟨"([name])",
      "Prints documentation for a var or special form given its name"⟩),
  ("source",
    ⟨"([n])",
      "Prints the source code for the given symbol, if it can find it.\n" ++
        "  This requires that the symbol resolve to a Var defined in a\n" ++
        "  namespace for which the source is available."⟩),
  ("pst",
    ⟨"([] [e])",
      "Prints a stack trace of the exception. Defaults to *e."⟩),
  ("dir",
    ⟨"([ns])",
      "Prints a sorted directory of public vars in a namespace"⟩),
  ("load-file",
    ⟨"([name])",
      "Sequentially read and evaluate the set of forms contained in the file."⟩)]

/-- The documentation of a directive. -/
def ofDirective? (name : String) : Option Documentation :=
  directives.lookup name

end Documentation

end Listener
