/-
Forcing initialization: whether the next request initializes again.

* `InitOp`, `Tenure.after`: what is done to the flags of a session, one thing after the other,
  with the number of owners that have not finished.
* `Tenure.Orderly`: only an owner that has not finished does so.
* `Tenure.Kept`: no claim is answered `done` before one is the owner's.
* `answer_after_force`: the claim that comes next after a force is the owner's, unless the last
  thing before it is that an owner finishes.
* `force_kept_iff`: a force is kept exactly when this does not happen; it cannot happen to a
  force while nobody initializes.
* `force_lost`: it happens when the initialization that is under way ends after the force.
-/
import Listener.Session
import Mathlib.Tactic.Lemma

namespace Listener

/-- What is done to the flags of initialization. -/
inductive InitOp where
  /-- Initialization is claimed. -/
  | claim
  /-- An owner has finished. -/
  | finish
  /-- The next request is made to initialize. -/
  | force
  deriving DecidableEq

/-- A session, and how many owners of initialization have not finished. -/
structure Tenure where
  session : Session := {}
  /-- The number of owners that have not finished. -/
  owners : Nat := 0

namespace Tenure

def answer (t : Tenure) : Claim :=
  t.session.claimInit.1

def next (t : Tenure) : InitOp → Tenure
  | .claim => ⟨t.session.claimInit.2, if t.answer = .owner then t.owners + 1 else t.owners⟩
  | .finish => ⟨t.session.finishInit, t.owners - 1⟩
  | .force => ⟨t.session.forceInit, t.owners⟩

def after (t : Tenure) (ops : List InitOp) : Tenure :=
  ops.foldl next t

/-- Initialization is finished only by an owner that has not finished yet. -/
def Orderly (t : Tenure) : List InitOp → Prop
  | [] => True
  | op :: ops => (op = .finish → 0 < t.owners) ∧ (t.next op).Orderly ops

instance decidableOrderly : (t : Tenure) → (ops : List InitOp) → Decidable (t.Orderly ops)
  | _, [] => isTrue trivial
  | t, op :: ops =>
    have := decidableOrderly (t.next op) ops
    inferInstanceAs (Decidable ((op = .finish → 0 < t.owners) ∧ (t.next op).Orderly ops))

/-- One of the claims among the operations is the owner's. -/
def Owned (t : Tenure) (ops : List InitOp) : Prop :=
  ∃ before rest, ops = before ++ .claim :: rest ∧ (t.after before).answer = .owner

/-- Before a claim is answered `done`, one is the owner's. -/
def Kept (t : Tenure) (ops : List InitOp) : Prop :=
  ∀ before rest, ops = before ++ .claim :: rest → (t.after before).answer = .done →
    t.Owned before

variable {t : Tenure}

lemma after_append (xs ys : List InitOp) : t.after (xs ++ ys) = (t.after xs).after ys :=
  List.foldl_append

lemma Orderly.right {xs ys : List InitOp} (h : t.Orderly (xs ++ ys)) :
    (t.after xs).Orderly ys := by
  induction xs generalizing t with
  | nil => exact h
  | cons op xs ih => exact ih h.2

/-- While nobody claims and no owner is left, nobody finishes. -/
lemma Orderly.not_finish {gap rest : List InitOp} (h : t.Orderly (gap ++ rest))
    (howners : t.owners = 0) (hgap : .claim ∉ gap) : .finish ∉ gap := by
  induction gap generalizing t with
  | nil => exact List.not_mem_nil
  | cons op gap ih =>
    obtain ⟨hop, hrest⟩ := h
    rw [List.mem_cons, not_or] at hgap
    cases op with
    | claim => exact absurd rfl hgap.1
    | finish => exact absurd (hop rfl) (by omega)
    | force =>
      have hfinish : .finish ∉ gap := ih (t := t.next .force) hrest howners hgap.2
      simpa using hfinish

/-- The claim after a force, with no other claim between them: it is the owner's, unless the
last thing before it is that an owner finishes. -/
theorem answer_after_force {gap : List InitOp} (hgap : .claim ∉ gap) :
    ((t.next .force).after gap).answer =
      if gap.getLast? = some .finish then .done else .owner := by
  rcases List.eq_nil_or_concat gap with h | ⟨gap', op, h⟩
  · rw [h]
    rfl
  · rw [h, List.concat_eq_append] at hgap
    rw [h, List.concat_eq_append, after_append, List.getLast?_append]
    -- the last operation alone decides, whatever the flags were before it
    cases op with
    | claim => simp at hgap
    | finish => rfl
    | force => rfl

/-- Initialization is claimed, and the last thing before the first claim is that an owner
finishes. -/
def Overwritten (ops : List InitOp) : Prop :=
  ∃ gap rest, ops = gap ++ .claim :: rest ∧ .claim ∉ gap ∧ gap.getLast? = some .finish

/-- Unless the force is overwritten, the next claim is the owner's. -/
lemma answer_of_not_overwritten {ops gap rest : List InitOp} (h : ¬ Overwritten ops)
    (hops : ops = gap ++ .claim :: rest) (hgap : .claim ∉ gap) :
    ((t.next .force).after gap).answer = .owner := by
  rw [answer_after_force hgap, if_neg]
  intro hlast
  exact h ⟨gap, rest, hops, hgap, hlast⟩

/-- In orderly operations a force is overwritten only by an owner from before it. -/
lemma Orderly.not_overwritten {ops : List InitOp} (h : t.Orderly (.force :: ops))
    (howners : t.owners = 0) : ¬ Overwritten ops := by
  rintro ⟨gap, rest, rfl, hgap, hlast⟩
  have hfinish : .finish ∉ gap := Orderly.not_finish (t := t.next .force) h.2 howners hgap
  exact hfinish (List.mem_of_getLast? hlast)

/-- A force is kept exactly when it is not overwritten. While no owner is left, nothing can
overwrite it. -/
theorem force_kept_iff {xs ys : List InitOp} (h : t.Orderly (xs ++ .force :: ys)) :
    (((t.after xs).next .force).Kept ys ↔ ¬ Overwritten ys) ∧
      ((t.after xs).owners = 0 → ((t.after xs).next .force).Kept ys) := by
  have hiff : ((t.after xs).next .force).Kept ys ↔ ¬ Overwritten ys := by
    constructor
    · rintro hkept ⟨gap, rest, hys, hgap, hlast⟩
      have hdone : (((t.after xs).next .force).after gap).answer = .done := by
        rw [answer_after_force hgap, if_pos hlast]
      obtain ⟨before, rest', rfl, -⟩ := hkept gap rest hys hdone
      simp at hgap
    · intro hnot before rest hys hdone
      by_cases hmem : .claim ∈ before
      · -- the first claim is the owner's
        obtain ⟨gap, rest', rfl, hgap⟩ := List.eq_append_cons_of_mem hmem
        have hfirst : ys = gap ++ .claim :: (rest' ++ .claim :: rest) := by
          rw [hys, List.append_assoc, List.cons_append]
        exact ⟨gap, rest', rfl, answer_of_not_overwritten hnot hfirst hgap⟩
      · rw [answer_of_not_overwritten hnot hys hmem] at hdone
        cases hdone
  exact ⟨hiff, fun howners => hiff.mpr (h.right.not_overwritten howners)⟩

/-- A force while somebody initializes is kept where the next claim comes before the end of
that initialization. -/
theorem force_kept_before_finish :
    ({} : Tenure).Orderly ([.claim] ++ .force :: [.claim, .finish, .claim]) ∧
      ((({} : Tenure).after [.claim]).next .force).Kept [.claim, .finish, .claim] := by
  have horderly : ({} : Tenure).Orderly ([.claim] ++ .force :: [.claim, .finish, .claim]) := by
    decide
  refine ⟨horderly, (force_kept_iff horderly).1.mpr ?_⟩
  rintro ⟨gap, rest, hops, hgap, hlast⟩
  cases gap with
  | nil => cases hlast
  | cons op gap =>
    have hop : op = .claim := (List.cons.inj hops).1.symm
    simp [hop] at hgap

/-- A force is lost where the initialization that is under way ends before the next claim:
that claim is answered `done`, and none was the owner's. -/
theorem force_lost :
    ({} : Tenure).Orderly ([.claim] ++ .force :: [.finish, .claim]) ∧
      ((((({} : Tenure).after [.claim]).next .force).after [.finish]).answer = .done ∧
        ¬ ((({} : Tenure).after [.claim]).next .force).Owned [.finish]) ∧
      ¬ ((({} : Tenure).after [.claim]).next .force).Kept [.finish, .claim] := by
  have hdone : (((({} : Tenure).after [.claim]).next .force).after [.finish]).answer = .done := rfl
  have howned : ¬ ((({} : Tenure).after [.claim]).next .force).Owned [.finish] := by
    rintro ⟨before, rest, hops, -⟩
    have hmem : InitOp.claim ∈ [InitOp.finish] := by simp [hops]
    simp at hmem
  exact ⟨by decide, ⟨hdone, howned⟩, fun hkept => howned (hkept [.finish] [] rfl hdone)⟩

end Tenure

end Listener
