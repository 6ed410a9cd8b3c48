/-
The places that the errors of the readers are about.

* `Begins`: the token at the start of a text; `Flawed`: a fault of what begins there.
* `Lexes.begins`, `Node.At`, `reads_at`: tokens and items begin at their places.
* `Answers`: a computation has a result, or an error whose fault stands at its place;
  `yield_answers` and `forms_answers` say that the values of items are computed in this way.
* `IsProgram`, `StartsItem`: the grammar has the text as items, or an item at its start;
  `outline_stop_le`: it breaks off within the text.
* `forms_error`, `first_error`: what an error of the readers is about.
* `error_points`: every error of the readers points into its text.
-/
import Listener.Proofs.Reader.Agreement
import Listener.Proofs.Reader.Composition

namespace Listener

namespace Reader

/-! ### What stands at a place -/

/-- The text begins with the token. -/
def Begins (l : Lexeme) (cs : List Char) : Prop :=
  ∃ c ds rest, cs = c :: ds ∧ scan c ds = .found l rest

/-- The text begins with something that has the fault. -/
inductive Flawed : Fault → List Char → Prop
  /-- A form without parts that has no value. -/
  | value {cs : List Char} {a : Atom} {fault : Fault} (h : Begins (.atom a) cs)
      (hf : a.form = .error fault) : Flawed fault cs
  /-- A map with a key that has no value. -/
  | oddMap {cs : List Char} (h : Begins (.opener .map) cs) : Flawed .oddMap cs
  /-- A conditional with clauses that are none. -/
  | clauses {cs : List Char} {b : Bracket} {fault : Fault} (h : Begins (.opener b) cs)
      (hb : b = .choice ∨ b = .splice) (hf : fault = .oddChoice ∨ fault = .featureNotKeyword) :
      Flawed fault cs
  /-- A conditional that selects nothing where a form is needed. -/
  | noBranch {cs : List Char} (h : Begins (.opener .choice) cs) : Flawed .noBranch cs
  /-- A conditional for several forms where there may be none, or with something else in it. -/
  | splice {cs : List Char} {fault : Fault} (h : Begins (.opener .splice) cs)
      (hf : fault = .spliceAtTop ∨ fault = .spliceHere ∨ fault = .spliceShape) : Flawed fault cs

lemma Flawed.ne_nil {fault : Fault} {cs : List Char} (h : Flawed fault cs) : cs ≠ [] := by
  cases h with
  | value h _ | oddMap h | clauses h _ _ | noBranch h | splice h _ =>
    obtain ⟨c, ds, _, rfl, -⟩ := h
    exact List.cons_ne_nil c ds

/-- Tokens begin at their places. -/
theorem Lexes.begins {pos : Nat} {xs rest : List Char} {ts : List Token}
    (h : Lexes pos xs rest ts) {before : List Char} (hbefore : before.length = pos) :
    ∀ t ∈ ts, Begins t.lexeme ((before ++ (xs ++ rest)).drop t.start) := by
  induction h generalizing before with
  | nil => exact List.forall_mem_nil _
  | @cons pos gap ws xs rest c l ts hgap hscan h ih =>
    rw [List.forall_mem_cons]
    constructor
    · refine ⟨c, ws ++ (xs ++ rest), xs ++ rest, ?_, hscan⟩
      have hstart : pos + gap.length = (before ++ gap).length := by
        rw [List.length_append, hbefore]
      have htext : before ++ (gap ++ c :: ws ++ xs ++ rest) =
          before ++ gap ++ c :: (ws ++ (xs ++ rest)) := by
        simp
      rw [hstart, htext, List.drop_left]
    · have hbehind : (before ++ (gap ++ c :: ws)).length = pos + (gap ++ c :: ws).length := by
        rw [List.length_append, hbefore]
      have htext : before ++ (gap ++ c :: ws ++ xs ++ rest) =
          before ++ (gap ++ c :: ws) ++ (xs ++ rest) := by
        simp
      rw [htext]
      exact ih hbehind

lemma lex_begins (cs : List Char) :
    ∀ t ∈ (lex 0 cs).tokens, Begins t.lexeme (cs.drop t.start) := by
  obtain ⟨xs, rest, rfl, hlexes, -⟩ := exists_lexes (List.append_nil (lex 0 cs).tokens).symm
  exact hlexes.begins List.length_nil

/-- The item and all items in it begin at their places in the text. -/
inductive Node.At (cs : List Char) : Node → Prop
  | atom {start : Nat} {a : Atom} (h : Begins (.atom a) (cs.drop start)) :
      Node.At cs (.atom start a)
  | bracket {start : Nat} {b : Bracket} {items : List Node}
      (h : Begins (.opener b) (cs.drop start)) (hitems : ∀ n ∈ items, n.At cs) :
      Node.At cs (.bracket start b items)
  | sigil (start : Nat) (s : Sigil) {n : Node} (hn : n.At cs) : Node.At cs (.sigil start s n)
  | annotated (start : Nat) {m n : Node} (hm : m.At cs) (hn : n.At cs) :
      Node.At cs (.annotated start m n)

/-- What is read from tokens begins at its place if they do. -/
theorem reads_at {cs : List Char} {ts us : List Token} {items : List Item} (h : Reads ts items us)
    (hts : ∀ t ∈ ts, Begins t.lexeme (cs.drop t.start)) :
    (∀ n ∈ nodes items, n.At cs) ∧ ∀ t ∈ us, Begins t.lexeme (cs.drop t.start) := by
  induction h with
  | nil => exact ⟨List.forall_mem_nil _, hts⟩
  | atom ht _ ih =>
    rw [List.forall_mem_cons, ht] at hts
    obtain ⟨hnodes, hus⟩ := ih hts.2
    exact ⟨List.forall_mem_cons.mpr ⟨.atom hts.1, hnodes⟩, hus⟩
  | bracket ht _ _ _ ihin ih =>
    rw [List.forall_mem_cons, ht] at hts
    obtain ⟨hinner, hbehind⟩ := ihin hts.2
    obtain ⟨hnodes, hvs⟩ := ih (List.forall_mem_cons.mp hbehind).2
    exact ⟨List.forall_mem_cons.mpr ⟨.bracket hts.1 hinner, hnodes⟩, hvs⟩
  | @sigil t s _ n _ _ _ _ _ _ _ _ ihin ih =>
    obtain ⟨hinner, hus⟩ := ihin (List.forall_mem_cons.mp hts).2
    obtain ⟨hnodes, hvs⟩ := ih hus
    have hn : n.At cs := hinner n (by simp)
    exact ⟨List.forall_mem_cons.mpr ⟨.sigil t.start s hn, hnodes⟩, hvs⟩
  | @annotated t _ _ m n _ _ _ _ _ _ _ _ _ _ _ ihm ihn ih =>
    obtain ⟨hm, hus⟩ := ihm (List.forall_mem_cons.mp hts).2
    obtain ⟨hn, hvs⟩ := ihn hus
    obtain ⟨hnodes, hws⟩ := ih hvs
    have hboth : (Node.annotated t.start m n).At cs :=
      .annotated t.start (hm m (by simp)) (hn n (by simp))
    exact ⟨List.forall_mem_cons.mpr ⟨hboth, hnodes⟩, hws⟩
  | discard _ _ _ ihin ih =>
    obtain ⟨-, hus⟩ := ihin (List.forall_mem_cons.mp hts).2
    exact ih hus

lemma outline_at (cs : List Char) : ∀ n ∈ nodes (outline cs).items, n.At cs := by
  obtain ⟨us, hreads⟩ := outline_reads cs
  exact (reads_at hreads (lex_begins cs)).1

/-! ### Results and errors -/

section

variable {α β : Type} {cs : List Char} {P : α → Prop} {Q : β → Prop}

/-- The computation has a result with the property, or an error whose fault stands at its place in
the text. -/
def Answers (cs : List Char) (P : α → Prop) : Except ReadError α → Prop
  | .ok a => P a
  | .error e => Flawed e.fault (cs.drop e.position)

namespace Answers

lemma bind {x : Except ReadError α} {f : α → Except ReadError β} (h : Answers cs P x)
    (hf : ∀ a, P a → Answers cs Q (f a)) : Answers cs Q (x.bind f) := by
  cases x with
  | error e => exact h
  | ok a => exact hf a h

lemma map {x : Except ReadError α} {g : α → β} (h : Answers cs P x) (hg : ∀ a, P a → Q (g a)) :
    Answers cs Q (x.map g) := by
  cases x with
  | error e => exact h
  | ok a => exact hg a h

lemma mapError {x : Except Fault α} {start : Nat}
    (h : ∀ fault, x = .error fault → Flawed fault (cs.drop start)) :
    Answers cs (fun _ => True) (x.mapError (⟨·, start⟩)) := by
  cases x with
  | error fault => exact h fault rfl
  | ok a => trivial

end Answers

end

variable {cs : List Char}

/-- What an item offers begins at its place, if it has one. -/
def Yield.At (cs : List Char) : Yield → Prop
  | .form _ => True
  | .choice start _ => Begins (.opener .choice) (cs.drop start)
  | .splice start _ => Begins (.opener .splice) (cs.drop start)

lemma asForm_answers {y : Yield} (h : y.At cs) : Answers cs (fun _ => True) y.asForm := by
  cases y with
  | form f => trivial
  | choice start branch =>
    cases branch with
    | none => exact .noBranch h
    | some f => trivial
  | splice start branch => exact .splice h (.inr (.inl rfl))

lemma asItems_answers {y : Yield} (h : y.At cs) : Answers cs (fun _ => True) y.asItems := by
  cases y with
  | form f => trivial
  | choice start branch => trivial
  | splice start branch =>
    cases branch with
    | none => trivial
    | some f => cases f <;> first | trivial | exact .splice h (.inr (.inr rfl))

lemma fault_of_firstBranch {clauses : List (Form × Form)} {fault : Fault}
    (h : firstBranch clauses = .error fault) : fault = .featureNotKeyword := by
  fun_induction firstBranch clauses with
  | case1 => cases h
  | case2 => cases h
  | case3 _ _ _ _ ih => exact ih h
  | case4 => exact (Except.error.inj h).symm

/-- What can be wrong with the clauses of a conditional. -/
lemma fault_of_selectBranch {clauses : List Form} {fault : Fault}
    (h : selectBranch clauses = .error fault) :
    fault = .oddChoice ∨ fault = .featureNotKeyword := by
  rw [selectBranch] at h
  split at h
  · exact .inr (fault_of_firstBranch h)
  · exact .inl (Except.error.inj h).symm

/-- The forms between two brackets together. -/
lemma bracket_answers {b : Bracket} {start : Nat} (h : Begins (.opener b) (cs.drop start))
    (fs : List Form) : Answers cs (Yield.At cs) (b.yield start fs) := by
  have hclauses (hb : b = .choice ∨ b = .splice) :
      Answers cs (fun _ => True) ((selectBranch fs).mapError (⟨·, start⟩)) :=
    .mapError fun fault hf => .clauses h hb (fault_of_selectBranch hf)
  cases b with
  | map =>
    rw [Bracket.yield]
    split
    · trivial
    · exact .oddMap h
  | choice => exact (hclauses (.inl rfl)).map fun _ _ => h
  | splice => exact (hclauses (.inr rfl)).map fun _ _ => h
  | _ => trivial

lemma begins_of_isSplice {n : Node} (h : n.At cs) (hsplice : n.isSplice = true) :
    Begins (.opener .splice) (cs.drop n.start) := by
  unfold Node.isSplice at hsplice
  split at hsplice
  · cases h with
    | bracket h _ => exact h
  · cases hsplice

lemma single_answers {n : Node} (h : n.At cs) (hy : Answers cs (Yield.At cs) n.yield) :
    Answers cs (fun _ => True) (n.single n.yield) := by
  rw [Node.single]
  split
  · rename_i hsplice
    exact .splice (begins_of_isSplice h hsplice) (.inr (.inl rfl))
  · exact hy.bind fun _ => asForm_answers

mutual

/-- The value of an item, or a fault of something in it. -/
theorem yield_answers : ∀ n : Node, n.At cs → Answers cs (Yield.At cs) n.yield
  | .atom start a, h => by
    cases h with
    | atom h =>
      rw [Node.yield]
      exact (Answers.mapError fun fault hf => .value h hf).map fun _ _ => trivial
  | .bracket start b items, h => by
    cases h with
    | bracket h hitems =>
      rw [Node.yield]
      exact (forms_answers items hitems).bind fun fs _ => bracket_answers h fs
  | .sigil start s inner, h => by
    cases h with
    | sigil _ _ hn =>
      rw [Node.yield]
      exact (single_answers hn (yield_answers inner hn)).map fun _ _ => trivial
  | .annotated start m n, h => by
    cases h with
    | annotated _ hm hn =>
      rw [Node.yield]
      exact (single_answers hm (yield_answers m hm)).bind fun _ _ =>
        (single_answers hn (yield_answers n hn)).map fun _ _ => trivial

/-- The forms that items contribute, or a fault of something in them. -/
theorem forms_answers : ∀ ns : List Node, (∀ n ∈ ns, n.At cs) →
    Answers cs (fun _ => True) (Node.forms ns)
  | [], _ => trivial
  | n :: ns, h => by
    rw [List.forall_mem_cons] at h
    rw [Node.forms]
    exact ((yield_answers n h.1).bind fun _ => asItems_answers).bind fun _ _ =>
      (forms_answers ns h.2).map fun _ _ => trivial

end

/-- The forms of an item outside of all brackets, or a fault of something in it. -/
lemma topForms_answers {n : Node} (h : n.At cs) : Answers cs (fun _ => True) n.topForms := by
  rw [Node.topForms]
  split
  · rename_i hsplice
    exact .splice (begins_of_isSplice h hsplice) (.inl rfl)
  · exact (yield_answers n h).bind fun _ => asItems_answers

/-- The forms of items outside of all brackets, or a fault of something in them. -/
lemma itemForms_answers {items : List Item} (h : ∀ n ∈ nodes items, n.At cs) :
    Answers cs (fun _ => True) (itemForms items) := by
  induction items with
  | nil => trivial
  | cons i items ih =>
    cases i with
    | discarded => exact (ih h).map fun _ _ => trivial
    | datum n stop =>
      rw [nodes_datum, List.forall_mem_cons] at h
      exact (topForms_answers h.1).bind fun _ _ => (ih h.2).map fun _ _ => trivial

/-- The first form of items, or a fault of something in them. -/
lemma firstForm_answers {items : List Item} (h : ∀ n ∈ nodes items, n.At cs) :
    Answers cs (fun _ => True) (firstForm items) := by
  induction items with
  | nil => trivial
  | cons i items ih =>
    cases i with
    | discarded => exact ih h
    | datum n stop =>
      rw [nodes_datum, List.forall_mem_cons] at h
      refine (topForms_answers h.1).bind fun fs _ => ?_
      cases fs with
      | nil => exact ih h.2
      | cons f fs => trivial

/-! ### Where the grammar breaks off -/

/-- The grammar has the text as items. -/
def IsProgram (cs : List Char) : Prop :=
  (lex 0 cs).complete = true ∧ ∃ items, Reads (lex 0 cs).tokens items []

/-- The grammar has an item at the start of the text. -/
def StartsItem (cs : List Char) : Prop :=
  ∃ i us, Reads (lex 0 cs).tokens [i] us

/-- The outline makes up the text if the grammar has the text. -/
lemma isProgram_iff : IsProgram cs ↔ (outline cs).complete = true := by
  constructor
  · rintro ⟨hcomplete, items, hreads⟩
    rw [outline_of_reads hreads]
    exact hcomplete
  · intro h
    exact ⟨(lex_complete h).1, _, reads_of_complete h⟩

/-- The outline has an item if the grammar has one at the start of the text. -/
lemma startsItem_iff : StartsItem cs ↔ (outline cs).items ≠ [] := by
  constructor
  · rintro ⟨i, us, hreads⟩ hnone
    have hfirst : [i] <+: (outline cs).items := by
      rw [outline_items, run_of_reads hreads, State.start, State.addAll_outside, List.nil_append]
      exact State.items_run ⟨[], [i]⟩ us
    rw [hnone, List.prefix_nil] at hfirst
    cases hfirst
  · intro h
    obtain ⟨us, hreads⟩ := outline_reads cs
    obtain ⟨i, items, hitems⟩ := List.exists_cons_of_ne_nil h
    rw [hitems] at hreads
    obtain ⟨vs, hfirst, -⟩ := reads_split [i] hreads
    exact ⟨i, vs, hfirst⟩

lemma lex_stop_le (pos : Nat) (cs : List Char) : (lex pos cs).stop ≤ pos + cs.length := by
  fun_induction lex pos cs with
  | case1 => exact Nat.le_refl _
  | case2 => simp
  | case3 pos cs c ds hs l rest hf start stop lexed ih =>
    have hrest := scan_length_le hf
    have hskip := skip_length_le false cs
    rw [hs, List.length_cons] at hskip
    refine Nat.le_trans ih ?_
    simp only [stop]
    omega

/-- A token is refused where it starts. -/
lemma State.start_of_refused {st st' : State} {ts : List Token} {k : Nat}
    (h : st.run ts = (st', some k)) : ∃ t ∈ ts, t.start = k := by
  induction ts generalizing st with
  | nil => cases h
  | cons t ts ih =>
    rw [State.run] at h
    split at h
    · obtain ⟨u, hu, hk⟩ := ih h
      exact ⟨u, List.mem_cons_of_mem t hu, hk⟩
    · cases h
      exact ⟨t, List.mem_cons_self, rfl⟩

/-- An outline breaks off within the text. -/
theorem outline_stop_le (cs : List Char) : (outline cs).stop ≤ cs.length := by
  rw [outline]
  split
  · rename_i hrun
    obtain ⟨t, ht, rfl⟩ := State.start_of_refused hrun
    obtain ⟨c, ds, _, hbegins, -⟩ := lex_begins cs t ht
    have hlen := congrArg List.length hbegins
    rw [List.length_drop, List.length_cons] at hlen
    dsimp only
    omega
  · have hstop := lex_stop_le 0 cs
    rwa [Nat.zero_add] at hstop

/-! ### The errors of the readers -/

/-- What an error of all forms is about. -/
theorem forms_error {e : ReadError} (h : forms cs = .error e) :
    e = refusal cs (outline cs).stop ∨ Flawed e.fault (cs.drop e.position) := by
  simp only [forms] at h
  split at h
  · have hanswers := itemForms_answers (outline_at cs)
    rw [h] at hanswers
    exact .inr hanswers
  · cases h
    exact .inl rfl

/-- What an error of the first form is about. -/
theorem first_error {e : ReadError} (h : first cs = .error e) :
    e = refusal cs cs.length ∨ e = refusal cs (outline cs).stop ∨
      Flawed e.fault (cs.drop e.position) := by
  rw [first] at h
  split at h
  · cases h
    exact .inl (refusal_end cs).symm
  · dsimp only at h
    split at h
    · cases h
      exact .inr (.inl rfl)
    · have hanswers := firstForm_answers (outline_at cs)
      cases hfirst : firstForm (outline cs).items with
      | error e' =>
        rw [hfirst] at h hanswers
        cases h
        exact .inr (.inr hanswers)
      | ok found =>
        rw [hfirst] at h
        cases found with
        | some found => cases h
        | none =>
          cases h
          exact .inl (refusal_end cs).symm

/-- A text that the grammar does not have is refused where the outline breaks off. -/
lemma forms_of_not_isProgram (h : ¬IsProgram cs) :
    forms cs = .error (refusal cs (outline cs).stop) := by
  rw [isProgram_iff] at h
  rw [forms, if_neg h]

lemma first_of_not_startsItem (hblank : ¬LooksEmpty cs) (h : ¬StartsItem cs) :
    first cs = .error (refusal cs (outline cs).stop) := by
  rw [looksEmpty_iff] at hblank
  rw [startsItem_iff, not_not] at h
  rw [first, if_neg hblank]
  simp only [h, List.isEmpty_nil, if_true]

end Reader

open Reader

/-! ### Places in bytes -/

/-- The error holds the text and points between two parts of it: its offset is the number of bytes
in front. -/
structure PointsAt (text before after message : String) (e : Error) : Prop where
  /-- The text consists of the two parts. -/
  cut : text = before ++ after
  /-- The offset is within the text. -/
  within : before.utf8ByteSize ≤ text.utf8ByteSize
  /-- The error has the text and the offset. -/
  error : e = .reader message text (some before.utf8ByteSize)

/-- The message for a text that the grammar does not have, by the bytes in front of the place where
it breaks off. -/
def refusalMessage (text : String) (offset : Nat) : String :=
  if Text.byteLength (Text.trimEnd Text.isWhite text.toList) ≤ offset then "EOF while reading"
  else "Unexpected input at position " ++ toString offset

/-- The error for a text that the grammar does not have: it points where the outline breaks off. -/
def IsRefusal (text : String) (e : Error) : Prop :=
  ∃ before after, before.length = (outline text.toList).stop ∧
    PointsAt text before after (refusalMessage text before.utf8ByteSize) e

/-- The error that a caller sees points at the place that the error is about. -/
lemma pointsAt_toError (text : String) (e : ReadError) :
    ∃ before after, before.toList = text.toList.take e.position ∧
      after.toList = text.toList.drop e.position ∧
      PointsAt text before after (e.fault.message before.utf8ByteSize) (e.toError text.toList) := by
  have hcut : text = String.ofList (text.toList.take e.position) ++
      String.ofList (text.toList.drop e.position) := by
    rw [← String.ofList_append, List.take_append_drop, String.ofList_toList]
  refine ⟨_, _, String.toList_ofList, String.toList_ofList, hcut, ?_, ?_⟩
  · conv => rhs; rw [hcut]
    rw [String.utf8ByteSize_append]
    exact Nat.le_add_right _ _
  · rw [ReadError.toError, Text.utf8ByteSize_ofList, String.ofList_toList, offsetAt]

/-- A text that is refused at a place gets an error that points there. -/
lemma pointsAt_refusal (text : String) {position : Nat} (h : position ≤ text.toList.length) :
    ∃ before after, before.length = position ∧
      PointsAt text before after (refusalMessage text before.utf8ByteSize)
        ((refusal text.toList position).toError text.toList) := by
  obtain ⟨before, after, hbefore, -, hpoints⟩ :=
    pointsAt_toError text (refusal text.toList position)
  have hplace : (refusal text.toList position).position = position := by
    rw [refusal]
    split <;> rfl
  rw [hplace] at hbefore
  have hbytes : before.utf8ByteSize = offsetAt text.toList position := by
    rw [offsetAt, ← hbefore, ← Text.utf8ByteSize_ofList, String.ofList_toList]
  have hmessage : (refusal text.toList position).fault.message before.utf8ByteSize =
      refusalMessage text before.utf8ByteSize := by
    rw [refusal, refusalMessage, hbytes]
    split <;> rfl
  rw [hmessage] at hpoints
  refine ⟨before, after, ?_, hpoints⟩
  rw [← String.length_toList, hbefore, List.length_take, Nat.min_eq_left h]

lemma readForm_eq_error {text : String} {e : Error} :
    readForm text = .error e ↔
      ∃ r, first text.toList = .error r ∧ r.toError text.toList = e := by
  rw [readForm]
  cases first text.toList with
  | error r => simp [Except.map, Except.mapError]
  | ok found => simp [Except.map, Except.mapError]

lemma readAll_eq_error {text : String} {e : Error} :
    readAll text = .error e ↔ ∃ r, forms text.toList = .error r ∧ r.toError text.toList = e := by
  rw [readAll]
  cases forms text.toList with
  | error r => simp [Except.mapError]
  | ok fs => simp [Except.mapError]

/-- Every error of the readers points into its text: it holds the text, and its offset is that of a
place between two characters, or at one of the ends. Where the grammar does not have the text, the
error says so for the place where the outline breaks off; any other error is about what begins at
its place. -/
theorem error_points (text : String) :
    (∀ e, readForm text = .error e ∨ readText text = .error e ∨ readAll text = .error e →
      ∃ before after message, PointsAt text before after message e ∧
        (message = refusalMessage text before.utf8ByteSize ∨
          ∃ fault, message = Fault.message before.utf8ByteSize fault ∧
            Flawed fault after.toList)) ∧
    (¬LooksEmpty text.toList → ¬StartsItem text.toList →
      ∃ e, readForm text = .error e ∧ readText text = .error e ∧ IsRefusal text e) ∧
    (¬IsProgram text.toList → ∃ e, readAll text = .error e ∧ IsRefusal text e) := by
  have hrefused := pointsAt_refusal text (outline_stop_le text.toList)
  have hpoints (r : ReadError)
      (hr : r = refusal text.toList text.toList.length ∨
        r = refusal text.toList (outline text.toList).stop ∨
        Flawed r.fault (text.toList.drop r.position)) :
      ∃ before after message, PointsAt text before after message (r.toError text.toList) ∧
        (message = refusalMessage text before.utf8ByteSize ∨
          ∃ fault, message = Fault.message before.utf8ByteSize fault ∧
            Flawed fault after.toList) := by
    -- the end of the text, the place where the outline breaks off, or that of a form
    rcases hr with rfl | rfl | hflawed
    · obtain ⟨before, after, -, hend⟩ := pointsAt_refusal text (Nat.le_refl text.toList.length)
      exact ⟨before, after, _, hend, .inl rfl⟩
    · obtain ⟨before, after, -, hstop⟩ := hrefused
      exact ⟨before, after, _, hstop, .inl rfl⟩
    · obtain ⟨before, after, -, hafter, hplace⟩ := pointsAt_toError text r
      exact ⟨before, after, _, hplace, .inr ⟨r.fault, rfl, hafter ▸ hflawed⟩⟩
  refine ⟨fun e he => ?_, fun hblank hstart => ?_, fun hprogram => ?_⟩
  · rw [readText_error_iff, ← or_assoc, or_self, readForm_eq_error, readAll_eq_error] at he
    rcases he with ⟨r, hr, rfl⟩ | ⟨r, hr, rfl⟩
    · exact hpoints r (first_error hr)
    · exact hpoints r (.inr (forms_error hr))
  · have hform := readForm_eq_error.mpr ⟨_, first_of_not_startsItem hblank hstart, rfl⟩
    exact ⟨_, hform, (readText_error_iff text _).mpr hform, hrefused⟩
  · exact ⟨_, readAll_eq_error.mpr ⟨_, forms_of_not_isProgram hprogram, rfl⟩, hrefused⟩

/-- A map with a key that has no value, behind a character of two bytes; a text in which no item
begins, and one that ends before a bracket is closed. -/
theorem error_points_three :
    (∃ before after message,
      PointsAt "é \x7ba\x7d" before after message
        (.reader "Map literal must contain an even number of forms" "é \x7ba\x7d" (some 3)) ∧
      (message = refusalMessage "é \x7ba\x7d" before.utf8ByteSize ∨
        ∃ fault, message = Fault.message before.utf8ByteSize fault ∧ Flawed fault after.toList)) ∧
    (∃ e, readForm ")é" = .error e ∧ readText ")é" = .error e ∧ IsRefusal ")é" e) ∧
    (∃ e, readAll "é (" = .error e ∧ IsRefusal "é (" e) := by
  have hodd : readAll "é \x7ba\x7d" =
      .error (.reader "Map literal must contain an even number of forms" "é \x7ba\x7d"
        (some 3)) := by
    have hforms : forms "é \x7ba\x7d".toList = .error ⟨.oddMap, 2⟩ := by cbv
    refine readAll_eq_error.mpr ⟨_, hforms, ?_⟩
    rw [ReadError.toError, String.ofList_toList]
    rfl
  have hblank : ¬LooksEmpty ")é".toList := by
    rw [looksEmpty_iff]
    decide
  have hstart : ¬StartsItem ")é".toList := by
    rw [startsItem_iff, not_not]
    cbv
  have hprogram : ¬IsProgram "é (".toList := by
    rw [isProgram_iff, Bool.not_eq_true]
    cbv
  exact ⟨(error_points _).1 _ (.inr (.inr hodd)), (error_points _).2.1 hblank hstart,
    (error_points _).2.2 hprogram⟩

end Listener
