/-
YAML values.

* `Yaml`: scalars, lists and mappings. A scalar is plain or quoted; the
  difference matters to what it may stand for.
* `Yaml.empty`: the value where nothing is written.
-/
namespace Listener

/-- A YAML value. -/
inductive Yaml where
  /-- A text; `plain` says that it stands without quotes. -/
  | scalar (plain : Bool) (text : List Char)
  /-- A list of values. -/
  | list (items : List Yaml)
  /-- Values with their keys, in order. -/
  | mapping (members : List (Yaml × Yaml))
  deriving Inhabited

namespace Yaml

/-- The value where nothing is written: a plain scalar without text. -/
def empty : Yaml := .scalar true []

end Yaml

end Listener
