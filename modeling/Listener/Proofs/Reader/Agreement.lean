/-
The first form of a text and all forms of a text.

* `LooksEmpty`: what the test for blank texts tests, line by line; `isBlank_iff`.
* `stray_of_looksEmpty`: the test and the grammar agree on texts without carriage returns and
  without white space that the grammar does not know.
* `firstForm_of_itemForms`: the first form of items and all of their forms.
* `readForm_of_readAll`: the first form of a text whose forms can all be read.
* `readForm_comment_return`: a text whose first form is not found.
-/
import Listener.Proofs.Reader.Origin
import Mathlib

namespace Listener

namespace Reader

/-! ### Texts that look empty -/

/-- White space or a comma. -/
def isMargin (c : Char) : Bool :=
  Text.isWhite c || c == ','

/-- The line is empty or a comment, its margin aside. -/
def EmptyLine (line : List Char) : Prop :=
  ∀ c, (line.dropWhile isMargin).head? = some c → c = ';'

/-- Every line of the text is empty or a comment. Only a line feed ends a line. -/
def LooksEmpty (cs : List Char) : Prop :=
  ∀ line ∈ cs.splitOn '\n', EmptyLine line

lemma emptyLine_nil : EmptyLine [] := nofun

/-- The margin of a line does not matter. -/
lemma emptyLine_margin {c : Char} (hc : isMargin c = true) (line : List Char) :
    EmptyLine (c :: line) ↔ EmptyLine line := by
  rw [EmptyLine, EmptyLine, List.dropWhile_cons_of_pos hc]

/-- After its margin a line that is empty goes on with a semicolon. -/
lemma emptyLine_cons {c : Char} (hc : isMargin c = false) (line : List Char) :
    EmptyLine (c :: line) ↔ c = ';' := by
  rw [EmptyLine, List.dropWhile_cons_of_neg (by rw [hc]; decide)]
  exact ⟨fun h => h c rfl, by rintro h _ ⟨⟩; exact h⟩

/-- A text is cut into its first line and the lines that follow. -/
lemma splitOn_cons (c : Char) (cs : List Char) :
    ∃ line lines, cs.splitOn '\n' = line :: lines ∧
      (c :: cs).splitOn '\n' = if c = '\n' then [] :: line :: lines else (c :: line) :: lines := by
  obtain ⟨line, lines, h⟩ := List.exists_cons_of_ne_nil (List.splitOnP_ne_nil (· == '\n') cs)
  refine ⟨line, lines, h, ?_⟩
  rw [List.splitOn, List.splitOnP_cons_eq_if_modifyHead, h]
  simp

/-- The test for blank texts goes line by line; within a comment it starts with the next line. -/
theorem isBlank_iff (inComment : Bool) (cs : List Char) :
    isBlank Text.isWhite inComment cs = true ↔
      ∀ line ∈ if inComment then (cs.splitOn '\n').tail else cs.splitOn '\n', EmptyLine line := by
  induction cs generalizing inComment with
  | nil => cases inComment <;> simp [isBlank, emptyLine_nil]
  | cons c cs ih =>
    obtain ⟨line, lines, hcs, hsplit⟩ := splitOn_cons c cs
    rw [hsplit, isBlank]
    by_cases hc : c = '\n'
    · subst hc
      have hwhite : Text.isWhite '\n' = true := by decide
      cases inComment with
      | true => simpa [hcs] using ih false
      | false => simpa [hcs, hwhite, emptyLine_nil] using ih false
    · cases inComment with
      | true =>
        have hstays : (c != '\n') = true := by simpa using hc
        simpa [hc, hcs, hstays] using ih true
      | false =>
        cases hm : isMargin c with
        | true =>
          have hm' : (Text.isWhite c || c == ',') = true := hm
          simpa [hc, hcs, hm', emptyLine_margin hm] using ih false
        | false =>
          have hm' : (Text.isWhite c || c == ',') = false := hm
          have hline : EmptyLine (c :: line) ↔ c = ';' := emptyLine_cons hm line
          cases hs : c == ';' with
          | true =>
            have hline : EmptyLine (c :: line) := hline.mpr (eq_of_beq hs)
            simpa [hc, hcs, hm', hline, hs] using ih true
          | false =>
            have hline : ¬EmptyLine (c :: line) := fun h => by simp [hline.mp h] at hs
            simp [hc, hm', hline]

lemma looksEmpty_iff (cs : List Char) :
    LooksEmpty cs ↔ isBlank Text.isWhite false cs = true :=
  (isBlank_iff false cs).symm

/-- A character that the test for blank texts and the grammar see in different ways: a carriage
return, which ends a comment in the grammar only, or white space that the grammar has no rule
for. -/
def IsStray (c : Char) : Prop :=
  c = '\r' ∨ (Text.isWhite c = true ∧ isGap c = false)

/-- A text without stray characters that looks empty has no tokens. -/
lemma skip_of_isBlank {cs : List Char} (hcs : ∀ c ∈ cs, ¬IsStray c) {inComment : Bool}
    (h : isBlank Text.isWhite inComment cs = true) : skip inComment cs = [] := by
  induction cs generalizing inComment with
  | nil => rfl
  | cons c cs ih =>
    rw [List.forall_mem_cons] at hcs
    obtain ⟨hc, hcs⟩ := hcs
    have hreturn : c ≠ '\r' := fun he => hc (.inl he)
    rw [isBlank] at h
    rw [skip]
    split
    · rename_i hin
      rw [if_pos hin] at h
      refine ih hcs ?_
      have hend : (c == '\r') = false := by simpa using hreturn
      rw [hend, Bool.or_false]
      exact h
    · rename_i hout
      rw [if_neg hout] at h
      split at h
      · rename_i hm
        have hgap : isGap c = true := by
          cases hw : Text.isWhite c with
          | true =>
            cases hgap : isGap c with
            | true => rfl
            | false => exact absurd (.inr ⟨hw, hgap⟩) hc
          | false =>
            -- of what is trimmed only the comma is no white space
            have : c = ',' := by simpa [hw] using hm
            subst this
            rfl
        rw [if_pos hgap]
        exact ih hcs h
      · split at h
        · rename_i hs
          have hgap : isGap c = false := by
            rw [eq_of_beq hs]
            rfl
          rw [hgap, if_neg (by decide), if_pos hs]
          exact ih hcs h
        · cases h

/-- A text that looks empty and has a token has a stray character. -/
theorem stray_of_looksEmpty {cs : List Char} (h : LooksEmpty cs) (hskip : skip false cs ≠ []) :
    ∃ c ∈ cs, IsStray c := by
  refine Classical.byContradiction fun hno => hskip ?_
  exact skip_of_isBlank (fun c hc hs => hno ⟨c, hc, hs⟩) ((looksEmpty_iff cs).mp h)

/-! ### The first form and all forms -/

/-- The first form of items whose forms can all be read is the first of their forms. -/
theorem firstForm_of_itemForms {items : List Item} {fs : List Form} (h : itemForms items = .ok fs) :
    ∃ found, firstForm items = .ok found ∧ found.map (·.1) = fs.head? := by
  induction items generalizing fs with
  | nil =>
    cases h
    exact ⟨none, rfl, rfl⟩
  | cons i items ih =>
    rw [itemForms] at h
    obtain ⟨gs, hgs, h⟩ := bind_eq_ok h
    obtain ⟨hs, hhs, rfl⟩ := map_eq_ok h
    cases i with
    | discarded =>
      cases hgs
      exact ih hhs
    | datum n stop =>
      have htop : n.topForms = .ok gs := hgs
      rw [firstForm, htop]
      cases gs with
      | nil => exact ih hhs
      | cons g gs => exact ⟨some (g, n.start, stop), rfl, rfl⟩

/-- A text that is cut into tokens completely is cut up to its end. -/
lemma lex_stop {pos : Nat} {cs : List Char} (h : (lex pos cs).complete = true) :
    (lex pos cs).stop = pos + cs.length := by
  fun_induction lex pos cs with
  | case1 => rfl
  | case2 => cases h
  | case3 pos cs c ds hs l rest hf start stop lexed ih =>
    have hrest := scan_length_le hf
    have hskip := skip_length_le false cs
    rw [hs, List.length_cons] at hskip
    rw [show lexed.stop = stop + rest.length from ih h]
    simp only [stop]
    omega

lemma outline_stop {cs : List Char} (h : (outline cs).complete = true) :
    (outline cs).stop = cs.length := by
  obtain ⟨hcomplete, hstop⟩ := lex_complete h
  rw [hstop, lex_stop hcomplete, Nat.zero_add]

/-- A text that is refused at its end is refused for its end. -/
lemma refusal_end (cs : List Char) : refusal cs cs.length = ⟨.endOfText, cs.length⟩ := by
  obtain ⟨tail, hcs, -⟩ := Text.trimEnd_append Text.isWhite cs
  have hle : Text.byteLength (Text.trimEnd Text.isWhite cs) ≤ offsetAt cs cs.length := by
    rw [offsetAt, List.take_length]
    conv => rhs; rw [hcs, Text.byteLength_append]
    exact Nat.le_add_right _ _
  rw [refusal, if_pos hle]

/-- What is found at the start of a text whose forms can all be read: nothing if it looks empty,
and else the first of the forms. -/
lemma first_of_forms {cs : List Char} {fs : List Form} (h : forms cs = .ok fs) :
    (first cs).map (·.1) =
      if isBlank Text.isWhite false cs then .error ⟨.endOfText, cs.length⟩
      else match fs with
        | [] => .error ⟨.endOfText, cs.length⟩
        | f :: _ => .ok f := by
  simp only [forms] at h
  split at h
  · rename_i hcomplete
    rw [first]
    split
    · rfl
    · obtain ⟨found, hfound, hhead⟩ := firstForm_of_itemForms h
      dsimp only
      split
      · rename_i hempty
        rw [List.isEmpty_iff] at hempty
        rw [hempty] at h
        cases h
        rw [outline_stop hcomplete, refusal_end]
        rfl
      · rw [hfound]
        cases fs with
        | nil =>
          cases found with
          | none => rfl
          | some found => cases hhead
        | cons f fs =>
          cases found with
          | none => cases hhead
          | some found =>
            cases hhead
            rfl
  · cases h

lemma stray_of_forms {cs : List Char} {f : Form} {fs : List Form} (h : forms cs = .ok (f :: fs))
    (hempty : LooksEmpty cs) : ∃ c ∈ cs, IsStray c := by
  refine stray_of_looksEmpty hempty fun hskip => ?_
  have houtline : outline cs = ⟨[], 0 + cs.length, true⟩ := by
    simp [outline, lex_nil hskip, State.run, State.start]
  rw [forms, houtline] at h
  cases h

/-- The error for a text that ends before its first form. -/
def endError (text : String) : Error :=
  .reader "EOF while reading" text (some (Text.byteLength text.toList))

/-- The end of a text is where the text is missing a form. -/
lemma toError_end (text : String) :
    ReadError.toError text.toList ⟨.endOfText, text.toList.length⟩ = endError text := by
  rw [ReadError.toError, offsetAt, List.take_length, String.ofList_toList]
  rfl

lemma readForm_of_looksEmpty {text : String} (h : LooksEmpty text.toList) :
    readForm text = .error (endError text) := by
  rw [looksEmpty_iff] at h
  rw [readForm, first, if_pos h, ← toError_end]
  rfl

/-- The first form of a text whose forms can all be read. If there are none, the text is missing
one at its end. If there are some, the first of them is found exactly if the text does not look
empty; one that looks empty has a stray character. -/
theorem readForm_of_readAll {text : String} {fs : List Form} (h : readAll text = .ok fs) :
    (fs = [] → readForm text = .error (endError text)) ∧
      ∀ f gs, fs = f :: gs →
        (readForm text = .ok f ↔ ¬LooksEmpty text.toList) ∧
          (LooksEmpty text.toList →
            readForm text = .error (endError text) ∧ ∃ c ∈ text.toList, IsStray c) := by
  have hforms : forms text.toList = .ok fs := mapError_eq_ok h
  have hfirst (hblank : ¬isBlank Text.isWhite false text.toList = true) :
      readForm text = match fs with
        | [] => .error (endError text)
        | f :: _ => .ok f := by
    rw [readForm, first_of_forms hforms, if_neg hblank, ← toError_end]
    cases fs <;> rfl
  by_cases hempty : LooksEmpty text.toList
  · have herror := readForm_of_looksEmpty hempty
    refine ⟨fun _ => herror, ?_⟩
    rintro f gs rfl
    refine ⟨⟨fun hok => ?_, absurd hempty⟩, fun _ => ⟨herror, stray_of_forms hforms hempty⟩⟩
    cases herror.symm.trans hok
  · have hread := hfirst (mt (looksEmpty_iff _).mpr hempty)
    constructor
    · rintro rfl
      exact hread
    · rintro f gs rfl
      exact ⟨⟨fun _ => hempty, fun _ => hread⟩, fun h => absurd h hempty⟩

/-- A form with a comment behind it. -/
theorem readForm_before_comment :
    readAll "foo ; bar" = .ok [.ofName "foo"] ∧ readForm "foo ; bar" = .ok (.ofName "foo") := by
  have hall : readAll "foo ; bar" = .ok [.ofName "foo"] := by cbv
  have hblank : ¬LooksEmpty "foo ; bar".toList := by
    rw [looksEmpty_iff]
    decide
  exact ⟨hall, (((readForm_of_readAll hall).2 _ _ rfl).1).mpr hblank⟩

/-- The form after a comment that a carriage return ends is not found: the test for blank texts
takes the whole text for a comment. A form feed is a symbol, and looks like white space. -/
theorem readForm_comment_return :
    (readAll "; c\rfoo" = .ok [.ofName "foo"] ∧
        readForm "; c\rfoo" = .error (endError "; c\rfoo")) ∧
      readAll "\x0c" = .ok [.ofName "\x0c"] ∧ readForm "\x0c" = .error (endError "\x0c") := by
  have hcomment : LooksEmpty "; c\rfoo".toList := by
    rw [looksEmpty_iff]
    decide
  have hfeed : LooksEmpty "\x0c".toList := by
    rw [looksEmpty_iff]
    decide
  refine ⟨⟨by cbv, ?_⟩, by cbv, ?_⟩
  · exact readForm_of_looksEmpty hcomment
  · exact readForm_of_looksEmpty hfeed

end Reader

end Listener
