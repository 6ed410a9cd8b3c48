/-
Going back to the start.

* `World.reset`: namespaces are purged; if nothing else is loaded, the latest
  error is cleared and the default namespace entered, both by requests.
* `reset_isError_iff`: a reset is refused exactly when something stays loaded.
-/
import Listener.Request.Stage

namespace Listener

namespace World

/-- The world without some namespaces. -/
def purge (w : World) (names : List Symbol) : World :=
  { w with workspace := w.workspace.purgeAll names }

/-- The error that names the namespaces that are still loaded. -/
def stillLoaded (w : World) : Error :=
  .precondition ("Namespaces still loaded after purge: " ++ ", ".intercalate w.workspace.loaded)

/-- The request that clears the latest error. -/
def clearError (options : Options) : Submission :=
  ⟨"(set! *e nil)", options⟩

/-- The request that enters the default namespace. -/
def enterDefault (options : Options) : Submission :=
  ⟨"(in-ns '" ++ defaultNamespace.text ++ ")", options⟩

/-- The two requests of a reset. -/
def settle (w : World) (options : Options) : World :=
  let w := { w with session := w.session.clearWarning }
  let w := (w.serve (clearError options)).1
  (w.serve (enterDefault options)).1

/-- The world after a reset, which is refused while something is loaded. -/
def reset (w : World) (options : Options) (names : List Symbol) : Except Error Unit × World :=
  let w := w.purge names
  if w.workspace.loaded.isEmpty then (.ok (), w.settle options) else (.error w.stillLoaded, w)

/-- A reset is refused exactly when a loaded namespace is not purged. -/
theorem reset_isError_iff (w : World) (options : Options) (names : List Symbol) :
    (w.reset options names).1 ≠ .ok () ↔
      ∃ s ∈ w.workspace.loaded, ∀ name ∈ names, name.text ≠ s := by
  have hmem := Workspace.mem_loaded_purgeAll w.workspace names
  by_cases h : (w.workspace.purgeAll names).loaded.isEmpty = true
  · simp only [reset, purge, h, if_true]
    have hnil : (w.workspace.purgeAll names).loaded = [] := List.isEmpty_iff.mp h
    constructor
    · intro hne
      exact absurd rfl hne
    · rintro ⟨s, hs, hn⟩
      have := (hmem s).mpr ⟨hs, hn⟩
      rw [hnil] at this
      cases this
  · simp only [reset, purge, h]
    constructor
    · intro _
      obtain ⟨s, hs⟩ := List.exists_mem_of_ne_nil _ fun hnil => h (List.isEmpty_iff.mpr hnil)
      exact ⟨s, (hmem s).mp hs⟩
    · intro _ he
      cases he

end World

end Listener
