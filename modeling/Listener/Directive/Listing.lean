/-
What `dir` shows.

* `listing`: the names of the public vars in ascending order, each once;
  `mem_publicNames` says which names these are.
-/
import Listener.Workspace.Basic

namespace Listener

/-- The names of the public vars in ascending order, each once. -/
def publicNames (vars : List VarInfo) : List String :=
  Text.sortedSet ((vars.filter fun v => !v.isPrivate).map fun v => v.name.name)

/-- The names are those of the vars that are not private. -/
theorem mem_publicNames {vars : List VarInfo} {name : String} :
    name ∈ publicNames vars ↔ ∃ v ∈ vars, v.isPrivate = false ∧ v.name.name = name := by
  simp [publicNames, Text.mem_sortedSet, and_assoc]

/-- The names of the public vars, one on each line, or nil if there are none. -/
def listing (vars : List VarInfo) : String :=
  match publicNames vars with
  | [] => "nil"
  | names => "\n".intercalate names

end Listener
