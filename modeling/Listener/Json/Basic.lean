/-
JSON values and their compact text.

* `Json`: a value. Members of an object keep their order and may repeat a key.
  A string whose escapes hold half of a surrogate pair is no text, so it has no
  contents; the same goes for the keys of members.
* `Json.chars`, `Json.print`: the text without blanks.
-/
namespace Listener

/-- A JSON value. -/
inductive Json where
  /-- `null` -/
  | null
  /-- A truth value. -/
  | bool (b : Bool)
  /-- A number as it is written. -/
  | number (text : List Char)
  /-- A string, with its contents if they are a text. -/
  | string (contents : Option (List Char))
  /-- A list of values. -/
  | array (items : List Json)
  /-- Members with their keys, in order. -/
  | object (members : List (Option (List Char) × Json))
  deriving Inhabited

namespace Json

def ofString (s : String) : Json :=
  .string (some s.toList)

def ofMembers (members : List (String × Json)) : Json :=
  .object (members.map fun (k, v) => (some k.toList, v))

/-! ### Strings -/

/-- A hexadecimal digit in lower case. -/
def hexDigit (n : Nat) : Char :=
  if n < 10 then Char.ofNat ('0'.toNat + n) else Char.ofNat ('a'.toNat + (n - 10))

/-- A character inside of a string. Quotes, backslashes and the control
characters below the blank are escaped, and nothing else is. -/
def escapeChar (c : Char) : List Char :=
  if c = '"' then ['\\', '"']
  else if c = '\\' then ['\\', '\\']
  else if c = '\x08' then ['\\', 'b']
  else if c = '\x0c' then ['\\', 'f']
  else if c = '\n' then ['\\', 'n']
  else if c = '\r' then ['\\', 'r']
  else if c = '\t' then ['\\', 't']
  else if c.toNat < 0x20 then
    ['\\', 'u', '0', '0', hexDigit (c.toNat / 16), hexDigit (c.toNat % 16)]
  else [c]

/-- A string with its quotes; one without contents is written as half of a
surrogate pair. -/
def stringText : Option (List Char) → List Char
  | some contents => '"' :: contents.flatMap escapeChar ++ ['"']
  | none => "\"\\ud800\"".toList

/-! ### Values -/

mutual

/-- The text of a value, without blanks. -/
def chars : Json → List Char
  | .null => "null".toList
  | .bool b => if b then "true".toList else "false".toList
  | .number text => text
  | .string contents => stringText contents
  | .array items => '[' :: charsItems items ++ [']']
  | .object members => '\x7b' :: charsMembers members ++ ['\x7d']

/-- The texts of values, divided by commas. -/
def charsItems : List Json → List Char
  | [] => []
  | [v] => chars v
  | v :: w :: vs => chars v ++ ',' :: charsItems (w :: vs)

/-- The texts of members, divided by commas. -/
def charsMembers : List (Option (List Char) × Json) → List Char
  | [] => []
  | [(k, v)] => stringText k ++ ':' :: chars v
  | (k, v) :: m :: ms => stringText k ++ ':' :: chars v ++ ',' :: charsMembers (m :: ms)

end

def print (v : Json) : String :=
  String.ofList v.chars

end Json

end Listener
