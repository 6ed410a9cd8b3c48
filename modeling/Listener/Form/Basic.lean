/-
Symbols and forms, the data that text is read into and values are printed from.

* `Symbol.qualifier?`, `Symbol.name`: the two parts of a qualified symbol, cut
  at the first slash; `Symbol.text_of_qualifier?` puts them together again.
* `Symbol.path`: the path of the file that defines a namespace.
* `Form`: the data, with views that see through metadata (`stripMeta`,
  `asSymbol?`, `head?`, `args`).
-/
import Listener.Number.Binary64
import Listener.Text.Blank

namespace Listener

/-! ### Symbols -/

/-- A symbol, given by its text; a slash divides the qualifier from the name. -/
structure Symbol where
  /-- The text as it is printed. -/
  text : String
  deriving DecidableEq, Inhabited

namespace Symbol

/-- The symbol `qualifier/name`. -/
def qualified (qualifier name : String) : Symbol :=
  ⟨qualifier ++ "/" ++ name⟩

/-- The two sides of the first slash. A slash on its own is a name. -/
def parts? (s : Symbol) : Option (List Char × List Char) :=
  if s.text = "/" then none else Text.splitFirst '/' s.text.toList

/-- The part before the first slash of a qualified symbol. -/
def qualifier? (s : Symbol) : Option String :=
  s.parts?.map fun p => String.ofList p.1

/-- The part after the first slash, or the whole text without one. -/
def name (s : Symbol) : String :=
  match s.parts? with
  | some p => String.ofList p.2
  | none => s.text

/-- A qualified symbol consists of its qualifier, a slash and its name. -/
theorem text_of_qualifier? {s : Symbol} {q : String} (h : s.qualifier? = some q) :
    s.text = q ++ "/" ++ s.name := by
  obtain ⟨⟨before, after⟩, hp, rfl⟩ := Option.map_eq_some_iff.mp h
  have hs : Text.splitFirst '/' s.text.toList = some (before, after) := by
    simp only [parts?] at hp
    split at hp
    · cases hp
    · exact hp
  have ht := Text.append_of_splitFirst hs
  apply String.toList_inj.mp
  simp [name, hp, ht]

/-- The path, without an extension, of the file that defines the namespace:
dots divide directories, and a dash is written as an underscore. -/
def path (s : Symbol) : String :=
  String.ofList (s.text.toList.map fun c =>
    if c = '.' then '/' else if c = '-' then '_' else c)

end Symbol

instance : ToString Symbol := ⟨Symbol.text⟩

/-! ### Forms -/

/-- A piece of data as it is read. -/
inductive Form where
  /-- The empty value. -/
  | nil
  /-- A truth value. -/
  | bool (b : Bool)
  /-- An integer. -/
  | int (n : Int)
  /-- A floating-point number. -/
  | float (x : Binary64)
  /-- A string, by its contents. -/
  | str (contents : String)
  /-- A character. -/
  | char (c : Char)
  /-- A keyword, by its text without the first colon. -/
  | keyword (text : String)
  | symbol (s : Symbol)
  /-- `( … )` -/
  | list (items : List Form)
  /-- `[ … ]` -/
  | vector (items : List Form)
  /-- A map, in the order of its entries. -/
  | map (entries : List (Form × Form))
  /-- A set, in the order of its members. -/
  | set (items : List Form)
  /-- A regular expression, by its pattern as written. -/
  | regex (pattern : String)
  /-- The body of a function literal. -/
  | anonFn (items : List Form)
  /-- `^meta target`, with the metadata as written. -/
  | annotated (metadata target : Form)
  /-- `#tag form`. A map with an auto-resolved namespace has a tag that starts
  with two colons. -/
  | tagged (tag : String) (form : Form)

instance : Inhabited Form := ⟨.nil⟩

namespace Form

/-- The form of a symbol with the given text. -/
def ofName (text : String) : Form :=
  .symbol ⟨text⟩

def quote (form : Form) : Form :=
  .list [ofName "quote", form]

/-- The form under all metadata. -/
def stripMeta : Form → Form
  | .annotated _ target => target.stripMeta
  | form => form

/-- What is left after stripping carries no metadata. -/
theorem stripMeta_stripMeta (form : Form) : form.stripMeta.stripMeta = form.stripMeta := by
  induction form using stripMeta.induct with
  | case1 m target ih => simpa [stripMeta] using ih
  | case2 form h =>
    have hs : form.stripMeta = form := stripMeta.eq_2 form h
    rw [hs, hs]

/-- The symbol that the form is, metadata aside. -/
def asSymbol? (form : Form) : Option Symbol :=
  match form.stripMeta with
  | .symbol s => some s
  | _ => none

/-- Whether the form is the keyword with the given text. -/
def isKeyword (text : String) : Form → Bool
  | .keyword k => k == text
  | _ => false

/-- All forms but nil and false count as true. -/
def isTruthy : Form → Bool
  | .nil => false
  | .bool b => b
  | _ => true

/-- The symbol at the head of a list, metadata aside. -/
def head? (form : Form) : Option Symbol :=
  match form.stripMeta with
  | .list (first :: _) => first.asSymbol?
  | _ => none

/-- What follows the head of a list, metadata aside. -/
def args (form : Form) : List Form :=
  match form.stripMeta with
  | .list (_ :: rest) => rest
  | _ => []

/-- The form inside of `(quote form)`. -/
def unquoted? : Form → Option Form
  | .list [.symbol s, form] => if s.text = "quote" then some form else none
  | _ => none

/-- A quoted form is recovered. -/
theorem unquoted?_quote (form : Form) : (quote form).unquoted? = some form := by
  simp [quote, ofName, unquoted?]

/-- A form is recovered from its quoted form only. -/
theorem unquoted?_eq_some_iff {form quoted : Form} :
    form.unquoted? = some quoted ↔ form = quote quoted := by
  constructor
  · intro h
    unfold unquoted? at h
    split at h
    · split at h
      · rename_i s x hs
        rw [quote, ofName, ← hs, Option.some.inj h]
      · cases h
    · cases h
  · rintro rfl
    exact unquoted?_quote quoted

end Form

end Listener
