/-
The text of a form, which reads back as the form.

* `Form.chars`: the text; the forms of a collection are divided by blanks and
  the entries of a map by commas.
* `Form.print`, `Form.rawText`: the text as a string, and the same with strings
  and characters standing for themselves.
* `stringText`, `charText`: literals with their escapes.
-/
import Listener.Form.Basic
import Listener.Number.Decimal

namespace Listener

namespace Form

/-! ### Literals -/

/-- A character inside of a string literal. -/
def escapeChar (c : Char) : List Char :=
  if c = '"' then ['\\', '"']
  else if c = '\\' then ['\\', '\\']
  else if c = '\n' then ['\\', 'n']
  else if c = '\t' then ['\\', 't']
  else if c = '\r' then ['\\', 'r']
  else [c]

def stringText (contents : List Char) : List Char :=
  '"' :: contents.flatMap escapeChar ++ ['"']

/-- A character literal; the blanks are written by name. -/
def charText (c : Char) : List Char :=
  if c = '\n' then "\\newline".toList
  else if c = ' ' then "\\space".toList
  else if c = '\t' then "\\tab".toList
  else if c = '\r' then "\\return".toList
  else ['\\', c]

/-- An integer in decimal digits. -/
def intText (n : Int) : List Char :=
  (if n < 0 then ['-'] else []) ++ Nat.toDigits 10 n.natAbs

/-- A floating-point number; the values without digits have names. -/
def floatText (x : Binary64) : List Char :=
  match x with
  | .nan => "##NaN".toList
  | .infinite negative => if negative then "##-Inf".toList else "##Inf".toList
  | .finite _ _ _ _ => x.decimalText

/-! ### Forms -/

mutual

/-- The text of a form. -/
def chars : Form → List Char
  | .nil => "nil".toList
  | .bool b => if b then "true".toList else "false".toList
  | .int n => intText n
  | .float x => floatText x
  | .str s => stringText s.toList
  | .char c => charText c
  | .keyword k => ':' :: k.toList
  | .symbol s => s.text.toList
  | .list items => '(' :: charsList items ++ [')']
  | .vector items => '[' :: charsList items ++ [']']
  | .map entries => '\x7b' :: charsEntries entries ++ ['\x7d']
  | .set items => '#' :: '\x7b' :: charsList items ++ ['\x7d']
  | .regex pattern => '#' :: '"' :: pattern.toList ++ ['"']
  | .anonFn items => '#' :: '(' :: charsList items ++ [')']
  | .annotated m target => '^' :: chars m ++ ' ' :: chars target
  | .tagged tag form =>
    '#' :: tag.toList ++ (if tag.toList.head? = some ':' then [] else [' ']) ++ chars form

/-- The texts of forms, divided by blanks. -/
def charsList : List Form → List Char
  | [] => []
  | [form] => chars form
  | form :: form' :: forms => chars form ++ ' ' :: charsList (form' :: forms)

/-- The texts of the entries of a map, divided by commas. -/
def charsEntries : List (Form × Form) → List Char
  | [] => []
  | [(k, v)] => chars k ++ ' ' :: chars v
  | (k, v) :: entry :: entries =>
    chars k ++ ' ' :: chars v ++ ',' :: ' ' :: charsEntries (entry :: entries)

end

def print (form : Form) : String :=
  String.ofList form.chars

/-- The text of a form, where strings and characters stand for themselves. -/
def rawText : Form → String
  | .str s => s
  | .char c => String.singleton c
  | form => form.print

end Form

instance : ToString Form := ⟨Form.print⟩

end Listener
