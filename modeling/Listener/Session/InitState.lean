/-
Whether the environment of a session is initialized.

* `InitState`: the two flags; one that initializes always needs to.
* `InitState.claim`: the first claim after the start, or after `force`, is the
  owner's; `claim_owner_iff` says when a claim is.
-/
namespace Listener

/-- The answer to the wish to initialize. -/
inductive Claim where
  /-- The claimant initializes and has to finish. -/
  | owner
  /-- Somebody else is initializing. -/
  | inFlight
  /-- The environment is initialized. -/
  | done
  deriving DecidableEq

/-- Whether initialization is needed and whether it is under way. -/
structure InitState where
  /-- Whether initialization is needed. -/
  needsInit : Bool := true
  /-- Whether initialization is under way. -/
  initializing : Bool := false
  deriving DecidableEq

namespace InitState

/-- The answer to a claim, and the flags after it. -/
def claim (s : InitState) : Claim × InitState :=
  if s.initializing then (.inFlight, s)
  else if s.needsInit then (.owner, { s with initializing := true })
  else (.done, s)

/-- The flags when initialization is finished. -/
def finish (_ : InitState) : InitState := ⟨false, false⟩

/-- The flags that make the next claim the owner's. -/
def force (_ : InitState) : InitState := ⟨true, false⟩

/-- A claim is the owner's exactly when initialization is needed and nobody is
at it. -/
theorem claim_owner_iff (s : InitState) :
    s.claim.1 = .owner ↔ s.needsInit = true ∧ s.initializing = false := by
  obtain ⟨n, i⟩ := s
  cases n <;> cases i <;> decide

end InitState

end Listener
