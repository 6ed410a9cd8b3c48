/-
The module index: which file provides which namespace.

* `ModuleIndex.get?`, `ModuleIndex.insert`: look-up and replacement;
  `get?_insert` says how they go together.
* `ModuleIndex.merge`: all pairs of a list in order, so the last pair for a
  name stands.
-/
import Listener.Form.Basic

namespace Listener

/-- Paths under the names of the namespaces they provide, each name once. -/
structure ModuleIndex where
  /-- The pairs, the latest new name at the end. -/
  pairs : List (Symbol × String) := []

namespace ModuleIndex

/-- The path under a name. -/
def get? (index : ModuleIndex) (name : Symbol) : Option String :=
  index.pairs.lookup name

/-- The pairs with the path under a name replaced or added. -/
def replace (name : Symbol) (path : String) : List (Symbol × String) → List (Symbol × String)
  | [] => [(name, path)]
  | p :: ps => if p.1 = name then (name, path) :: ps else p :: replace name path ps

/-- The index with a path under a name. -/
def insert (index : ModuleIndex) (name : Symbol) (path : String) : ModuleIndex :=
  ⟨replace name path index.pairs⟩

/-- What is inserted is found, and nothing else changes. -/
theorem get?_insert (index : ModuleIndex) (name other : Symbol) (path : String) :
    (index.insert name path).get? other = if other = name then some path else index.get? other := by
  obtain ⟨pairs⟩ := index
  simp only [insert, get?]
  have hbeq (n : Symbol) (h : other ≠ n) : (other == n) = false := beq_eq_false_iff_ne.mpr h
  induction pairs with
  | nil =>
    by_cases h : other = name
    · simp [replace, h]
    · simp [replace, List.lookup_cons, h, hbeq _ h]
  | cons p ps ih =>
    obtain ⟨n, q⟩ := p
    by_cases hn : n = name
    · subst hn
      by_cases h : other = n
      · simp [replace, h]
      · simp [replace, List.lookup_cons, h, hbeq _ h]
    · by_cases h : other = n
      · subst h
        simp [replace, hn]
      · simp [replace, hn, List.lookup_cons, hbeq _ h, ih]

/-- The index with all pairs of a list, in order. -/
def merge (index : ModuleIndex) (pairs : List (Symbol × String)) : ModuleIndex :=
  pairs.foldl (fun index p => index.insert p.1 p.2) index

/-- The number of names. -/
def size (index : ModuleIndex) : Nat :=
  index.pairs.length

end ModuleIndex

end Listener
