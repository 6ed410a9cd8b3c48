/-
The values of YAML documents.

* `node?`: the value that tokens start with. Inside of a flow collection there
  are no blocks; the value of a key may be a list whose dashes stand no deeper
  than the key.
* `Yaml.parse?`: the value of a text that is one document.
-/
import Listener.Yaml.Basic
import Listener.Yaml.Token

namespace Listener

namespace Yaml

/-- Where a value stands. -/
inductive Setting where
  /-- On its own or as an item of a list. -/
  | block
  /-- As a key or as the value of a key. -/
  | member
  /-- Inside of a flow collection. -/
  | flow
  deriving DecidableEq

mutual

/-- The value at the start of the tokens, and what follows. -/
def node? : Nat → Setting → List Token → Option (Yaml × List Token)
  | 0, _, _ => none
  | _ + 1, _, [] => none
  | fuel + 1, setting, t :: ts =>
    match t with
    | .scalar plain text => some (.scalar plain text, ts)
    | .flowListStart => (flowItems? fuel ts).map fun (vs, ts) => (.list vs, ts)
    | .flowMappingStart => (flowMembers? fuel ts).map fun (ms, ts) => (.mapping ms, ts)
    | .listStart =>
      if setting = .flow then none
      else (blockItems? fuel ts).map fun (vs, ts) => (.list vs, ts)
    | .mappingStart =>
      if setting = .flow then none
      else (blockMembers? fuel ts).map fun (ms, ts) => (.mapping ms, ts)
    | .item =>
      if setting = .member then
        (memberItems? fuel (t :: ts)).map fun (vs, ts) => (.list vs, ts)
      else none
    | _ => none

/-- The value at the start of the tokens, or the empty value in front of some
tokens, and what follows. -/
def nodeBefore? : Nat → Setting → List Token → List Token → Option (Yaml × List Token)
  | 0, _, _, _ => none
  | fuel + 1, setting, stops, ts =>
    if ts.head?.any (stops.contains ·) then some (.empty, ts) else node? fuel setting ts

/-- The value behind a colon, or the empty value without a colon, and what
follows. -/
def valueBefore? : Nat → Setting → List Token → List Token → Option (Yaml × List Token)
  | 0, _, _, _ => none
  | fuel + 1, setting, stops, ts =>
    match ts with
    | .value :: ts => nodeBefore? fuel setting stops ts
    | ts => some (.empty, ts)

/-- The items of a list up to the end of its block, and what follows. -/
def blockItems? : Nat → List Token → Option (List Yaml × List Token)
  | 0, _ => none
  | fuel + 1, ts =>
    match ts with
    | .blockEnd :: ts => some ([], ts)
    | .item :: ts => do
      let (v, ts) ← nodeBefore? fuel .block [.item, .blockEnd] ts
      let (vs, ts) ← blockItems? fuel ts
      return (v :: vs, ts)
    | _ => none

/-- The items of a list that is the value of a key and has no block of its own,
and what follows. -/
def memberItems? : Nat → List Token → Option (List Yaml × List Token)
  | 0, _ => none
  | fuel + 1, ts =>
    match ts with
    | .item :: ts => do
      let (v, ts) ← nodeBefore? fuel .block [.item, .key, .value, .blockEnd] ts
      let (vs, ts) ← memberItems? fuel ts
      return (v :: vs, ts)
    | ts => some ([], ts)

/-- The members of a mapping up to the end of its block, and what follows. -/
def blockMembers? : Nat → List Token → Option (List (Yaml × Yaml) × List Token)
  | 0, _ => none
  | fuel + 1, ts =>
    match ts with
    | .blockEnd :: ts => some ([], ts)
    | .key :: ts => do
      let (k, ts) ← nodeBefore? fuel .member [.key, .value, .blockEnd] ts
      let (v, ts) ← valueBefore? fuel .member [.key, .value, .blockEnd] ts
      let (ms, ts) ← blockMembers? fuel ts
      return ((k, v) :: ms, ts)
    | _ => none

/-- The items of a list up to its closing bracket, and what follows. A comma may
stand behind the last one. -/
def flowItems? : Nat → List Token → Option (List Yaml × List Token)
  | 0, _ => none
  | fuel + 1, ts =>
    match ts with
    | .flowListEnd :: ts => some ([], ts)
    | ts => do
      let (v, ts) ← flowItem? fuel ts
      match ts with
      | .comma :: ts =>
        let (vs, ts) ← flowItems? fuel ts
        return (v :: vs, ts)
      | .flowListEnd :: ts => return ([v], ts)
      | _ => none

/-- An item of a list between brackets, and what follows. A key with its value is
a mapping of one member; where the key is empty, the token behind its mark is
passed over. -/
def flowItem? : Nat → List Token → Option (Yaml × List Token)
  | 0, _ => none
  | fuel + 1, ts =>
    match ts with
    | .key :: ts => do
      let (k, ts) ←
        if ts.head?.any ([.value, .comma, .flowListEnd].contains ·) then some (.empty, ts.tail)
        else node? fuel .flow ts
      let (v, ts) ← valueBefore? fuel .flow [.comma, .flowListEnd] ts
      return (.mapping [(k, v)], ts)
    | ts => node? fuel .flow ts

/-- The members of a mapping up to its closing brace, and what follows. A comma
may stand behind the last one. -/
def flowMembers? : Nat → List Token → Option (List (Yaml × Yaml) × List Token)
  | 0, _ => none
  | fuel + 1, ts =>
    match ts with
    | .flowMappingEnd :: ts => some ([], ts)
    | ts => do
      let (k, v, ts) ← flowMember? fuel ts
      match ts with
      | .comma :: ts =>
        let (ms, ts) ← flowMembers? fuel ts
        return ((k, v) :: ms, ts)
      | .flowMappingEnd :: ts => return ([(k, v)], ts)
      | _ => none

/-- A key with its value as a member of a mapping, and what follows. What does
not start as a key has no value. -/
def flowMember? : Nat → List Token → Option (Yaml × Yaml × List Token)
  | 0, _ => none
  | fuel + 1, ts =>
    match ts with
    | .key :: ts => do
      let (k, ts) ← nodeBefore? fuel .flow [.value, .comma, .flowMappingEnd] ts
      let (v, ts) ← valueBefore? fuel .flow [.comma, .flowMappingEnd] ts
      return (k, v, ts)
    | ts => (node? fuel .flow ts).map fun (k, ts) => (k, .empty, ts)

end

/-- The value of the tokens of one document: nothing at all, a value, or a value
or nothing behind the marker of the start; markers of the end may follow. -/
def ofTokens? (ts : List Token) : Option Yaml := do
  let fuel := 4 * ts.length + 4
  let (v, ts) ← match ts with
    | [] => some (.empty, [])
    | [.documentStart] => some (.empty, [])
    | .documentStart :: ts => nodeBefore? fuel .block [.documentStart, .documentEnd] ts
    | ts => node? fuel .block ts
  if (ts.dropWhile (· == .documentEnd)).isEmpty then some v else none

/-- The value of a text that is one document; an empty one is an empty scalar. -/
def parse? (cs : List Char) : Option Yaml :=
  (tokens? cs).bind ofTokens?

end Yaml

end Listener
