/-
Errors with their causes.

* `cause_induction`: what holds of an error if it holds of its cause holds of all errors.
* `Chain e es`: the errors `es` are `e` and its causes, each the cause of the one before.
* `IsHead`: what a trace shows of one error of a chain.
* `appendCauses_some`: going through the causes one by one writes the trace of the first of them.
* `trace_chain`: the trace of an error is that of its cause behind its own head, so it has the heads
  of all errors of its chain, each once and in order.
-/
import Listener.Error
import Mathlib.Tactic.Lemma

namespace Listener

namespace Error

/-! ### Causes -/

/-- What holds of the errors without a cause and of every error whose cause it
holds of, holds of all errors. -/
theorem cause_induction {P : Error → Prop} (root : ∀ e, e.cause? = none → P e)
    (caused : ∀ e c, e.cause? = some c → P c → P e) : ∀ e, P e
  | .eval _ (some c) _ _ => caused _ c rfl (cause_induction root caused c)
  | .eval _ none _ _ => root _ rfl
  | .reader _ _ _ => root _ rfl
  | .argument _ => root _ rfl
  | .unsupported _ => root _ rfl
  | .config _ => root _ rfl
  | .warning _ => root _ rfl
  | .precondition _ => root _ rfl

/-- `Chain e es`: the errors `es` are `e` and its causes, each the cause of the one before. -/
inductive Chain : Error → List Error → Prop
  /-- Nothing comes behind an error without a cause. -/
  | root {e : Error} (h : e.cause? = none) : Chain e [e]
  /-- The cause comes behind the error, with its own causes. -/
  | caused {e c : Error} {es : List Error} (h : e.cause? = some c) (hc : Chain c es) :
    Chain e (e :: es)

lemma exists_chain (e : Error) : ∃ es, Chain e es := by
  induction e using cause_induction with
  | root e h => exact ⟨[e], .root h⟩
  | caused e c h ih =>
    obtain ⟨es, hes⟩ := ih
    exact ⟨e :: es, .caused h hes⟩

/-! ### Heads -/

/-- `IsHead e text`: the text is the message of the error and below it the stack, if there is one,
up to the last character of the stack that is no white space. -/
inductive IsHead (e : Error) : String → Prop
  /-- An error without a stack. -/
  | bare (h : e.stack? = none) : IsHead e e.message
  /-- An error with a stack. -/
  | stacked {kept cut : String} (h : e.stack? = some (kept ++ cut))
      (hcut : ∀ c ∈ cut.toList, Text.isWhite c = true)
      (hkept : ∀ c, kept.toList.getLast? = some c → Text.isWhite c = false) :
    IsHead e (e.message ++ "\n" ++ kept)

/-- What is left behind trimming does not end with a character of the class. -/
lemma getLast?_trimEnd {p : Char → Bool} {cs : List Char} {c : Char}
    (h : (Text.trimEnd p cs).getLast? = some c) : p c = false := by
  rw [Text.trimEnd, List.getLast?_reverse] at h
  have hnot := List.head?_dropWhile_not p cs.reverse
  rw [h] at hnot
  simpa using hnot

/-- The head of an error is its message and its stack. -/
lemma isHead_headText (e : Error) : e.IsHead e.headText := by
  rw [headText]
  cases h : e.stack? with
  | none => exact .bare h
  | some stack =>
    obtain ⟨cut, hstack, hcut⟩ := Text.trimEnd_append Text.isWhite stack.toList
    have hparts : stack = String.ofList (Text.trimEnd Text.isWhite stack.toList) ++
        String.ofList cut := by
      rw [← String.ofList_append, ← hstack, String.ofList_toList]
    refine .stacked (h.trans (congrArg some hparts)) ?_ fun c hc => ?_
    · rwa [String.toList_ofList]
    · rw [String.toList_ofList] at hc
      exact getLast?_trimEnd hc

/-! ### Traces -/

lemma trace_root {e : Error} (h : e.cause? = none) : e.trace = e.headText := by
  rw [trace, h, appendCauses]

/-- What is appended for a cause is its trace, whatever is written already. -/
lemma appendCauses_some (out : String) (c : Error) :
    appendCauses out (some c) = out ++ "\nCaused by: " ++ c.trace := by
  -- the text in front grows on the way down the chain, so it is any text
  induction c using cause_induction generalizing out with
  | root c h => rw [appendCauses, h, appendCauses, trace_root h]
  | caused c d h ih =>
    have htrace : c.trace = c.headText ++ "\nCaused by: " ++ d.trace := by rw [trace, h, ih]
    rw [appendCauses, h, ih, htrace]
    simp only [String.append_assoc]

/-- The trace of the cause comes behind the head of an error. -/
lemma trace_caused {e c : Error} (h : e.cause? = some c) :
    e.trace = e.headText ++ "\nCaused by: " ++ c.trace := by
  rw [trace, h, appendCauses_some]

lemma trace_eq_intercalate {e : Error} {es : List Error} (h : Chain e es) :
    e.trace = "\nCaused by: ".intercalate (es.map headText) := by
  induction h with
  | root h => rw [trace_root h, List.map_singleton, String.intercalate_singleton]
  | @caused e c es h hc ih =>
    have hne : es.map headText ≠ [] := by
      cases hc <;> exact List.cons_ne_nil _ _
    rw [trace_caused h, ih, List.map_cons, String.intercalate_cons_of_ne_nil hne]

/-- The trace of an error follows its causes. With a cause, a failed evaluation has the trace of the
cause behind its own head, whatever cause it had before. An error without a cause has its head as
its trace, and any other one its head and behind it the trace of its cause. So the heads of all
errors of a chain stand in the trace, each once and in order, which is what going through the causes
one by one writes. -/
theorem trace_chain :
    (∀ message old stack data (c : Error),
      ((eval message old stack data).withCause c).trace =
        (eval message old stack data).headText ++ "\nCaused by: " ++ c.trace) ∧
    ∀ e : Error, e.IsHead e.headText ∧ (e.cause? = none → e.trace = e.headText) ∧
      (∀ c, e.cause? = some c → e.trace = e.headText ++ "\nCaused by: " ++ c.trace) ∧
      (∃ es, Chain e es) ∧
      (∀ es, Chain e es → e.trace = "\nCaused by: ".intercalate (es.map headText)) ∧
      e.trace = appendCauses e.headText e.cause? := by
  refine ⟨fun message old stack data c => ?_, fun e =>
    ⟨e.isHead_headText, trace_root, fun _ => trace_caused, e.exists_chain, ?_, rfl⟩⟩
  · have hcause : ((eval message old stack data).withCause c).cause? = some c := rfl
    exact trace_caused hcause
  · exact fun _ => trace_eq_intercalate

/-- A text that does not read, as the cause of a failed evaluation with a stack, which gets another
failed evaluation around it. -/
theorem trace_chain_three :
    let unread : Error := .reader "EOF while reading" "(" (some 1)
    let inner : Error := .eval "é" none (some "at f\n\n\x0c") none
    let outer : Error := .eval "failed" (some unread) none none
    unread.cause? = none ∧ unread.trace = "EOF while reading" ∧
      (inner.withCause unread).trace = "é\nat f\nCaused by: EOF while reading" ∧
      (outer.withCause (inner.withCause unread)).trace =
        "failed\nCaused by: é\nat f\nCaused by: EOF while reading" := by
  intro unread inner outer
  have hnone : unread.cause? = none := rfl
  have hroot := (trace_chain.2 unread).2.1 hnone
  have hinner := trace_chain.1 "é" none (some "at f\n\n\x0c") none unread
  have houter := trace_chain.1 "failed" (some unread) none none (inner.withCause unread)
  rw [hroot] at hinner
  rw [hinner] at houter
  refine ⟨hnone, hroot, hinner.trans ?_, houter.trans ?_⟩ <;> decide

end Error

end Listener
