/-
Settings: the options of a request that are plain data.

* `Settings.ofJsonText`, `Settings.ofYamlText`, `Settings.ofMap`: the settings
  of a text or a map. Unknown keys are ignored; a known key may occur once and
  its value must have the right shape.
* `Settings.ofMembers?`: the settings of the members of a mapping, whatever the
  values are; `ofMembers?_filter_known` says that members with unknown keys do
  not matter.
-/
import Listener.Error
import Listener.Json.Parse
import Listener.Yaml.Document

namespace Listener

/-- Where the evaluated code runs. -/
inductive Target where
  | browser
  /-- On a server. -/
  | nodejs
  deriving DecidableEq, Inhabited

namespace Target

def name : Target → String
  | .browser => "browser"
  | .nodejs => "nodejs"

/-- The target that a word stands for. -/
def ofName? (s : String) : Option Target :=
  if s = "browser" then some .browser
  else if s = "nodejs" then some .nodejs
  else none

/-- The word for a target stands for the target. -/
theorem ofName?_name (t : Target) : ofName? t.name = some t := by
  cases t <;> decide

end Target

/-- The options that are plain data. -/
structure Settings where
  /-- Whether to report what is done. -/
  verbose : Bool := false
  /-- Whether a warning counts as an error. -/
  warningAsError : Bool := false
  /-- Where the evaluated code runs. -/
  target : Target := .browser
  /-- The directories to look for sources in. -/
  sourcePaths : List String := []
  deriving DecidableEq, Inhabited

/-- How the values of a format are understood. -/
structure Shapes (V : Type) where
  /-- The truth value that a value is. -/
  bool? : V → Option Bool
  /-- The target that a value names. -/
  target? : V → Option Target
  /-- The texts that a value lists. -/
  texts? : V → Option (List String)

namespace Settings

/-! ### Members and fields -/

/-- The keys that mean something. -/
def knownKeys : List String :=
  ["verbose", "warning-as-error", "target", "src-paths"]

/-- The value of a key among members: the default where the key is missing, and
nothing where it is repeated or where its value has the wrong shape. -/
def member? {V α : Type} (read : V → Option α) (default : α) (key : String)
    (members : List (String × V)) : Option α :=
  match members.filter (·.1 == key) with
  | [] => some default
  | [(_, v)] => read v
  | _ => none

/-- The settings of the members of a mapping. -/
def ofMembers? {V : Type} (n : Shapes V) (members : List (String × V)) : Option Settings := do
  let verbose ← member? n.bool? false "verbose" members
  let warningAsError ← member? n.bool? false "warning-as-error" members
  let target ← member? n.target? .browser "target" members
  let sourcePaths ← member? n.texts? [] "src-paths" members
  return { verbose, warningAsError, target, sourcePaths }

/-- Members with other keys do not matter for a known key. -/
theorem member?_filter {V α : Type} (read : V → Option α) (default : α) (key : String)
    (members : List (String × V)) (keep : String → Bool) (hkey : keep key = true) :
    member? read default key (members.filter fun m => keep m.1) =
      member? read default key members := by
  have h : (members.filter fun m => keep m.1).filter (·.1 == key) =
      members.filter (·.1 == key) := by
    rw [List.filter_filter]
    refine List.filter_congr fun m _ => ?_
    by_cases hm : m.1 = key
    · simp [hm, hkey]
    · simp [hm]
  rw [member?, h, member?]

/-- Members with unknown keys do not matter. -/
theorem ofMembers?_filter_known {V : Type} (n : Shapes V) (members : List (String × V)) :
    ofMembers? n (members.filter fun m => decide (m.1 ∈ knownKeys)) = ofMembers? n members := by
  simp only [ofMembers?]
  rw [member?_filter _ _ _ _ (fun k => decide (k ∈ knownKeys)) (by decide),
    member?_filter _ _ _ _ (fun k => decide (k ∈ knownKeys)) (by decide),
    member?_filter _ _ _ _ (fun k => decide (k ∈ knownKeys)) (by decide),
    member?_filter _ _ _ _ (fun k => decide (k ∈ knownKeys)) (by decide)]

/-- The settings of a list of values in the order of the fields. Fields at the
end may be missing. -/
def ofFields? {V : Type} (n : Shapes V) (fields : List V) : Option Settings :=
  if 4 < fields.length then none
  else
    ofMembers? n (knownKeys.zip fields)

/-! ### JSON -/

/-- How JSON values are understood. A target may also be the only key of an
object, with `null` behind it. -/
def jsonShapes : Shapes Json where
  bool?
    | .bool b => some b
    | _ => none
  target?
    | .string (some s) => Target.ofName? (String.ofList s)
    | .object [(some k, .null)] => Target.ofName? (String.ofList k)
    | _ => none
  texts?
    | .array items => items.mapM fun
      | .string (some s) => some (String.ofList s)
      | _ => none
    | _ => none

/-- A member under the text of its key. -/
def namedMember? : Option (List Char) × Json → Option (String × Json)
  | (some k, v) => some (String.ofList k, v)
  | (none, _) => none

/-- The settings of a JSON value, which is an object or a list of fields. -/
def ofJson? : Json → Option Settings
  | .object members =>
    (members.mapM namedMember?).bind (ofMembers? jsonShapes)
  | .array fields => ofFields? jsonShapes fields
  | _ => none

/-! ### YAML -/

/-- How YAML values are understood. Only a plain scalar is a truth value, every
scalar is a text, and nothing is an empty list. -/
def yamlShapes : Shapes Yaml where
  bool?
    | .scalar true ['t', 'r', 'u', 'e'] => some true
    | .scalar true ['f', 'a', 'l', 's', 'e'] => some false
    | _ => none
  target?
    | .scalar _ s => Target.ofName? (String.ofList s)
    | _ => none
  texts?
    | .scalar true [] => some []
    | .list items => items.mapM fun
      | .scalar _ s => some (String.ofList s)
      | _ => none
    | _ => none

/-- A member under the text of its key. -/
def scalarMember? : Yaml × Yaml → Option (String × Yaml)
  | (.scalar _ k, v) => some (String.ofList k, v)
  | _ => none

/-- The settings of a YAML value, which is a mapping or nothing. -/
def ofYaml? : Yaml → Option Settings
  | .mapping members =>
    (members.mapM scalarMember?).bind (ofMembers? yamlShapes)
  | .scalar true [] => some {}
  | _ => none

/-! ### Texts -/

def ofJsonText (text : String) : Except Error Settings :=
  match (Json.parse? text.toList).bind ofJson? with
  | some s => .ok s
  | none => .error (.config "Invalid JSON options")

def ofYamlText (text : String) : Except Error Settings :=
  match (Yaml.parse? text.toList).bind ofYaml? with
  | some s => .ok s
  | none => .error (.config "Invalid YAML options")

/-- The settings of a map from texts to JSON values. -/
def ofMap (members : List (String × Json)) : Except Error Settings :=
  match ofMembers? jsonShapes members with
  | some s => .ok s
  | none => .error (.config "Invalid options")

end Settings

end Listener
