/-
Forms whose parts are what the grammar has for them.

* `isSymbolText`, `isKeywordText`, `isTagText`, `isQuotable`: the texts that the
  grammar has for symbols, keywords, tags and between quotes.
* `Form.WellFormedUpTo`: at every depth all texts are of these kinds and all
  integers in range; some keys of maps may be exempt.
* `Form.WellFormed`: no key is exempt.
-/
import Listener.Reader.Numeral
import Mathlib.Tactic.Lemma

namespace Listener

namespace Reader

/-! ### Texts -/

/-- A character that a symbol may start with. -/
def isSymbolStart (c : Char) : Bool :=
  isWord c && !(c.isDigit || c == ':' || c == '#' || c == '\'')

/-- A text that the grammar takes for a symbol and not for a number. -/
def isNameText (w : List Char) : Bool :=
  w.head?.any isSymbolStart && w.all isWord && (Numeral.ofWord? w).isNone

/-- The words that stand for nil and the truth values. -/
def reservedWords : List String := ["nil", "true", "false"]

/-- A text that is read as the symbol with this text. -/
def isSymbolText (w : List Char) : Bool :=
  isNameText w && !reservedWords.contains (String.ofList w)

/-- A text that the grammar has for a keyword behind the first colon. -/
def isKeywordText (w : List Char) : Bool :=
  w.all isWord && w != [] && w != [':']

/-- A text that the grammar has for a tag. -/
def isTagText (w : List Char) : Bool :=
  w.head?.any Char.isAlpha && w.all isWord

/-- A text that may stand between quotes: none of its own quotes is bare, and
something follows each backslash. -/
def isQuotable : List Char → Bool
  | [] => true
  | '\\' :: [] => false
  | '\\' :: _ :: cs => isQuotable cs
  | c :: cs => c != '"' && isQuotable cs

/-- The texts of symbols start like one, and consist of word characters. -/
lemma isNameText_iff {w : List Char} :
    isNameText w = true ↔ (∃ c cs, w = c :: cs ∧ isSymbolStart c = true) ∧
      (∀ c ∈ w, isWord c = true) ∧ Numeral.ofWord? w = none := by
  cases w <;> simp [isNameText, and_assoc]

/-- The texts of keywords are not empty, and not a colon alone. -/
lemma isKeywordText_iff {w : List Char} :
    isKeywordText w = true ↔ (∀ c ∈ w, isWord c = true) ∧ w ≠ [] ∧ w ≠ [':'] := by
  simp [isKeywordText, and_assoc]

lemma isTagText_iff {w : List Char} :
    isTagText w = true ↔ (∃ c cs, w = c :: cs ∧ c.isAlpha = true) ∧
      ∀ c ∈ w, isWord c = true := by
  cases w <;> simp [isTagText]

end Reader

open Reader

namespace Form

/-! ### Forms -/

/-- At every depth, the texts of a form are those that the grammar has for its
parts, and its integers have the sign and 63 bits, the least of them left out. Of
the keys of maps, those with the property `exempt` are not asked for anything. -/
inductive WellFormedUpTo (exempt : Form → Prop) : Form → Prop
  | nil : WellFormedUpTo exempt .nil
  | bool (b : Bool) : WellFormedUpTo exempt (.bool b)
  | int {n : Int} (hlow : -9223372036854775808 < n) (hhigh : n ≤ 9223372036854775807) :
      WellFormedUpTo exempt (.int n)
  | float (x : Binary64) : WellFormedUpTo exempt (.float x)
  | str (s : String) : WellFormedUpTo exempt (.str s)
  | char (c : Char) : WellFormedUpTo exempt (.char c)
  | keyword {k : String} (h : isKeywordText k.toList = true) : WellFormedUpTo exempt (.keyword k)
  | symbol {s : Symbol} (h : isSymbolText s.text.toList = true) :
      WellFormedUpTo exempt (.symbol s)
  | list {items : List Form} (h : ∀ f ∈ items, WellFormedUpTo exempt f) :
      WellFormedUpTo exempt (.list items)
  | vector {items : List Form} (h : ∀ f ∈ items, WellFormedUpTo exempt f) :
      WellFormedUpTo exempt (.vector items)
  | map {entries : List (Form × Form)}
      (hkey : ∀ e ∈ entries, ¬exempt e.1 → WellFormedUpTo exempt e.1)
      (hvalue : ∀ e ∈ entries, WellFormedUpTo exempt e.2) : WellFormedUpTo exempt (.map entries)
  | set {items : List Form} (h : ∀ f ∈ items, WellFormedUpTo exempt f) :
      WellFormedUpTo exempt (.set items)
  | regex {pattern : String} (h : isQuotable pattern.toList = true) :
      WellFormedUpTo exempt (.regex pattern)
  | anonFn {items : List Form} (h : ∀ f ∈ items, WellFormedUpTo exempt f) :
      WellFormedUpTo exempt (.anonFn items)
  | annotated {m target : Form} (hm : WellFormedUpTo exempt m)
      (ht : WellFormedUpTo exempt target) : WellFormedUpTo exempt (.annotated m target)
  | tagged {tag : String} {f : Form} (h : isTagText tag.toList = true)
      (hf : WellFormedUpTo exempt f) : WellFormedUpTo exempt (.tagged tag f)
  /-- A map whose qualifier only a namespace can resolve. -/
  | resolved {tag : String} {qualifier : List Char} {entries : List (Form × Form)}
      (htag : tag.toList = ':' :: ':' :: qualifier) (h : ∀ c ∈ qualifier, isWord c = true)
      (hf : WellFormedUpTo exempt (.map entries)) :
      WellFormedUpTo exempt (.tagged tag (.map entries))

/-- All parts of a form are what the grammar has for them, the keys of maps
among them. -/
def WellFormed (f : Form) : Prop :=
  f.WellFormedUpTo fun _ => False

end Form

end Listener
