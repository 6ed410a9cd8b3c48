/-
Definitions recovered from the texts of files.

* `afterLines?_lines`, `afterLines?_eq_none`: a text behind some of its line ends, and what there
  is behind more of them than it has.
* `readText_eq_ok`: the text of the first form stands at the places of the form.
* `readText_line`: a text that is one form is still the first one when another line follows.
* `sourceAtLine_between`: a form is found at its line, whatever stands in the lines around it.
-/
import Listener.Directive.Definition
import Listener.Proofs.Reader.Continuation

namespace Listener

/-! ### Lines -/

/-- The text is empty or its last line is complete. -/
def IsLines (cs : List Char) : Prop :=
  cs = [] ∨ cs.getLast? = some '\n'

/-- Behind its first character, the text still consists of lines, unless that was all of them. -/
lemma IsLines.tail {c : Char} {cs : List Char} (h : IsLines (c :: cs)) :
    IsLines cs ∧ (cs = [] → c = '\n') := by
  cases cs with
  | nil =>
    refine ⟨.inl rfl, fun _ => ?_⟩
    rcases h with h | h
    · cases h
    · exact Option.some.inj h
  | cons d ds =>
    refine ⟨.inr ?_, nofun⟩
    rcases h with h | h
    · cases h
    · rwa [List.getLast?_cons_cons] at h

lemma IsLines.count_pos {cs : List Char} (h : IsLines cs) (hne : cs ≠ []) :
    0 < cs.count '\n' := by
  rcases h with h | h
  · exact absurd h hne
  · exact List.count_pos_iff.mpr (List.mem_of_getLast? h)

/-- A line end counts, and any other character is passed over. -/
lemma afterLines?_cons (n : Nat) (c : Char) (cs : List Char) :
    afterLines? (n + 1) (c :: cs) =
      if c = '\n' then afterLines? n cs else afterLines? (n + 1) cs := by
  simp only [afterLines?, Text.splitFirst]
  split
  · rfl
  · rw [Option.bind_map]
    rfl

/-- Behind all the line ends of its first lines stands the rest of a text. -/
theorem afterLines?_lines {ls : List Char} (h : IsLines ls) (cs : List Char) :
    afterLines? (ls.count '\n') (ls ++ cs) = some cs := by
  induction ls with
  | nil => rfl
  | cons c ls ih =>
    obtain ⟨htail, hlast⟩ := h.tail
    by_cases hc : c = '\n'
    · rw [hc, List.count_cons_self, List.cons_append, afterLines?_cons, if_pos rfl, ih htail]
    · -- the line goes on, so there is another line end
      have hpos := htail.count_pos fun hnil => hc (hlast hnil)
      obtain ⟨n, hn⟩ := Nat.exists_eq_add_of_lt hpos
      rw [Nat.zero_add] at hn
      have hih := ih htail
      rw [hn] at hih
      rw [List.count_cons_of_ne hc, hn, List.cons_append, afterLines?_cons, if_neg hc, hih]

/-- A text has nothing behind more line ends than there are in it. -/
theorem afterLines?_eq_none {n : Nat} {cs : List Char} (h : cs.count '\n' < n) :
    afterLines? n cs = none := by
  induction cs generalizing n with
  | nil =>
    cases n with
    | zero => cases h
    | succ n => rfl
  | cons c cs ih =>
    cases n with
    | zero => cases h
    | succ n =>
      rw [afterLines?_cons]
      split
      · rename_i hc
        rw [hc, List.count_cons_self] at h
        exact ih (Nat.lt_of_succ_lt_succ h)
      · rename_i hc
        rw [List.count_cons_of_ne hc] at h
        exact ih h

/-! ### The text of a form -/

open Reader

/-- The text of the first form is what stands between its places. -/
theorem readText_eq_ok {text s : String} :
    readText text = .ok s ↔ ∃ f ps rs, text.toList = ps ++ s.toList ++ rs ∧
      first text.toList = .ok (f, ps.length, (ps ++ s.toList).length) := by
  constructor
  · intro h
    obtain ⟨⟨f, start, stop⟩, hfirst, rfl⟩ := map_eq_ok (mapError_eq_ok h)
    obtain ⟨ps, cs, rs, htext, rfl, rfl, -⟩ := first_parts hfirst
    have hslice : (text.toList.take (ps ++ cs).length).drop ps.length = cs := by
      rw [htext, List.take_left, List.drop_left]
    simp only [hslice, String.toList_ofList]
    exact ⟨f, ps, rs, htext, hfirst⟩
  · rintro ⟨f, ps, rs, htext, hfirst⟩
    have hslice : (text.toList.take (ps ++ s.toList).length).drop ps.length = s.toList := by
      rw [htext, List.take_left, List.drop_left]
    rw [readText, hfirst]
    simp only [Except.map, Except.mapError, hslice, String.ofList_toList]

/-- A text that is one form from end to end is the text of the first form when another line
follows. -/
theorem readText_line {s : String} (h : readText s = .ok s) (u : String) :
    readText (s ++ "\n" ++ u) = .ok s := by
  obtain ⟨f, ps, rs, htext, hfirst⟩ := readText_eq_ok.mp h
  have hlen := congrArg List.length htext
  simp only [List.length_append] at hlen
  have hps : ps = [] := List.length_eq_zero_iff.mp (by omega)
  subst hps
  have hlonger : (s ++ "\n" ++ u).toList = s.toList ++ '\n' :: u.toList := by simp
  refine readText_eq_ok.mpr ⟨f, [], '\n' :: u.toList, hlonger, ?_⟩
  rw [hlonger]
  exact first_line hfirst u.toList

/-! ### Definitions in files -/

/-- A form is found at its line, exactly as it stands, whatever the lines in front of it and behind
it hold; they need not be readable. Behind the last line there is nothing to be found. -/
theorem sourceAtLine_between :
    (∀ p s r : String, IsLines p.toList → readText s = .ok s →
      (r = "" ∨ r.toList.head? = some '\n') →
        sourceAtLine (p ++ s ++ r) (1 + p.toList.count '\n') = some s) ∧
    ∀ (text : String) (line : Nat), 1 + text.toList.count '\n' < line →
      sourceAtLine text line = none := by
  refine ⟨fun p s r hp hs hr => ?_, fun text line hline => ?_⟩
  · have hrest : fromLine? (p ++ s ++ r) (1 + p.toList.count '\n') = some (s ++ r) := by
      rw [fromLine?, Nat.add_sub_cancel_left, String.append_assoc, String.toList_append,
        afterLines?_lines hp, Option.map_some, String.ofList_toList]
    have htext : readText (s ++ r) = .ok s := by
      rcases hr with rfl | hr
      · rwa [String.append_empty]
      · obtain ⟨u, hu⟩ := List.head?_eq_some_iff.mp hr
        have hline : s ++ r = s ++ "\n" ++ String.ofList u := by
          apply String.toList_inj.mp
          simp [hu]
        rw [hline]
        exact readText_line hs _
    rw [sourceAtLine, hrest, Option.bind_some, htext]
    rfl
  · have hnone : afterLines? (line - 1) text.toList = none := afterLines?_eq_none (by omega)
    rw [sourceAtLine, fromLine?, hnone]
    rfl

/-- A definition over three lines with a comment, a form that is left out and a conditional, between
brackets that nothing closes or opens. -/
theorem sourceAtLine_between_brackets :
    let above := ")\n(é\n"
    let definition := "(def é ; \"\n  #_x\n  #?(:cljs y))"
    IsLines above.toList ∧ readText definition = .ok definition ∧
      sourceAtLine (above ++ definition ++ "\n[") 3 = some definition ∧
      sourceAtLine above 4 = none := by
  intro above definition
  have hlines : IsLines above.toList := .inr (by cbv)
  have hcount : above.toList.count '\n' = 2 := by cbv
  have htext : readText definition = .ok definition := by
    simp only [definition]
    cbv
  have hfound := sourceAtLine_between.1 above definition "\n[" hlines htext (.inr (by cbv))
  rw [hcount] at hfound
  exact ⟨hlines, htext, hfound, sourceAtLine_between.2 above 4 (hcount ▸ Nat.lt_succ_self 3)⟩

end Listener
