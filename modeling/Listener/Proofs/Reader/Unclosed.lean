/-
Texts that end before their brackets are closed.

* `unclosed`: openings, each with a text and a line end behind it.
* `run_unclosed`: the machine of the outline takes all tokens of such a text, and as many frames
  are open in the end as there are openings.
* `refused_unclosed`: every reader asks for more text, at the end of the text.
-/
import Listener.Proofs.Reader.Agreement
import Listener.Proofs.Reader.SelfContained

namespace Listener

namespace Reader

/-- Openings without their closings, each with a text behind it that ends its line. -/
def unclosed : List (Bracket × String) → String
  | [] => ""
  | (b, text) :: more => String.ofList b.opening ++ text ++ "\n" ++ unclosed more

/-- The characters of an opening, of the text behind it, and of the further openings. -/
lemma toList_unclosed (b : Bracket) (text : String) (more : List (Bracket × String)) :
    (unclosed ((b, text) :: more)).toList =
      b.opening ++ (text.toList ++ ['\n'] ++ (unclosed more).toList) := by
  simp [unclosed]

/-- All tokens are taken, nothing is completed, and every opening leaves its frame open. -/
theorem run_unclosed {openings : List (Bracket × String)}
    (h : ∀ o ∈ openings, ∃ fs, readAll o.2 = .ok fs) (pos : Nat) (st : State) :
    ∃ ts frames, Cuts (unclosed openings).toList [] pos ts ∧
      st.run ts = (⟨frames ++ st.frames, st.items⟩, none) ∧ frames.length = openings.length := by
  induction openings generalizing pos st with
  | nil => exact ⟨[], [], .nil [] pos, rfl, rfl⟩
  | cons o more ih =>
    obtain ⟨b, text⟩ := o
    rw [List.forall_mem_cons] at h
    obtain ⟨⟨fs, htext⟩, hmore⟩ := h
    have hline := selfContained_line (mapError_eq_ok htext)
    obtain ⟨ts, items, hcut, hread, -⟩ := hline (unclosed more).toList (pos + b.opening.length)
    obtain ⟨us, frames, hcut', hrun, hlength⟩ := ih hmore _
      ⟨.bracket pos b (nodes items) :: st.frames, st.items⟩
    rw [← List.append_nil (unclosed more).toList] at hcut
    have hall := (cuts_opening b _ pos).append (hcut.append hcut')
    rw [← toList_unclosed] at hall
    refine ⟨_, frames ++ [.bracket pos b (nodes items)], hall, ?_, ?_⟩
    · -- the opening begins a frame, which gathers the items of the text
      simp only [List.singleton_append, State.run, State.push]
      rw [run_of_reads (hread us), State.addAll_bracket, List.nil_append, hrun, List.append_assoc]
      rfl
    · rw [List.length_append, List.length_singleton, hlength, List.length_cons]

/-- Input that is not finished is recognized. Where brackets of any kinds are opened inside of each
other, with readable texts between them, and none is closed, every reader finds the end of the text
too early, and reports it at the end of the text. -/
theorem refused_unclosed {openings : List (Bracket × String)} (hne : openings ≠ [])
    (hread : ∀ o ∈ openings, ∃ fs, readAll o.2 = .ok fs) :
    Refused (unclosed openings) (.reader "EOF while reading" (unclosed openings)
      (some (Text.byteLength (unclosed openings).toList))) := by
  obtain ⟨ts, frames, hcut, hrun, hlength⟩ := run_unclosed hread 0 State.start
  have hopen : (frames ++ State.start.frames).isEmpty = false := by
    rw [List.isEmpty_eq_false_iff, ← List.length_pos_iff, List.length_append, hlength]
    exact Nat.lt_of_lt_of_le (List.length_pos_iff.mpr hne) (Nat.le_add_right _ _)
  -- the machine still has the frames of the openings when the text ends
  have houtline : outline (unclosed openings).toList =
      ⟨[], (unclosed openings).toList.length, false⟩ := by
    simp only [outline, hcut.lex_eq, hrun, hopen, Bool.and_false, Nat.zero_add]
    rfl
  have hblank : isBlank Text.isWhite false (unclosed openings).toList = false := by
    cases openings with
    | nil => exact absurd rfl hne
    | cons o more =>
      rw [toList_unclosed]
      exact isBlank_opening o.1 _
  have hrefusal := refusal_end (unclosed openings).toList
  have hfirst : first (unclosed openings).toList =
      .error ⟨.endOfText, (unclosed openings).toList.length⟩ := by
    simp only [first, hblank, houtline, hrefusal]
    rfl
  have hforms : forms (unclosed openings).toList =
      .error ⟨.endOfText, (unclosed openings).toList.length⟩ := by
    simp only [forms, houtline, hrefusal]
    rfl
  have hrefused := refused_of_error hfirst hforms
  rw [toError_end] at hrefused
  exact hrefused

/-- A set inside of a conditional inside of a list, with a comment that has closings in it. The
text has 31 characters, one of which takes two bytes. -/
theorem refused_unclosed_comment :
    readAll "+ 'λx ; ))" = .ok [.ofName "+", .quote (.ofName "λx")] ∧
      readAll ":cljs #_\"(\"" = .ok [.keyword "cljs"] ∧ readAll "" = .ok [] ∧
      Refused "(+ 'λx ; ))\n#?@(:cljs #_\"(\"\n#\x7b\n" (.reader "EOF while reading"
        "(+ 'λx ; ))\n#?@(:cljs #_\"(\"\n#\x7b\n" (some 32)) := by
  have hlist : readAll "+ 'λx ; ))" = .ok [.ofName "+", .quote (.ofName "λx")] := by cbv
  have hchoice : readAll ":cljs #_\"(\"" = .ok [.keyword "cljs"] := by cbv
  have hset : readAll "" = .ok [] := by cbv
  have hread : ∀ o ∈ [(Bracket.list, "+ 'λx ; ))"), (.splice, ":cljs #_\"(\""), (.set, "")],
      ∃ fs, readAll o.2 = .ok fs := by
    simp [hlist, hchoice, hset]
  exact ⟨hlist, hchoice, hset, refused_unclosed (List.cons_ne_nil _ _) hread⟩

end Reader

end Listener
