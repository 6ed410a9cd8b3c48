/-
Texts that are put together of readable ones.

* `State.run_advances`, `reads_of_complete`: an outline that makes up the whole text has read all
  tokens.
* `Stands`: wherever a text stands, it is read as items of the same kind, unless its last line
  goes on; `Stands.line` and `Stands.bracket` put such texts together.
* `stands_iff`: a text of which all forms can be read stands for them.
* `forms_line`, `forms_bracket`: the forms of texts below each other, and of a text between
  brackets.
* `readAll_compose`: texts below each other, and a text between brackets of each kind.
-/
import Listener.Proofs.Reader.Continuation
import Listener.Proofs.Reader.RoundTrip

namespace Listener

namespace Reader

/-! ### Outlines of whole texts -/

namespace State

/-- Where a form is placed, a frame is open or one more item is complete. -/
lemma place_advances (n : Node) (stop : Nat) (frames : List Frame) (items : List Item) :
    (place n stop frames items).frames ≠ [] ∨
      items.length < (place n stop frames items).items.length := by
  fun_induction place n stop frames items with
  | case1 => exact .inr (by simp)
  | case2 => exact .inl (List.cons_ne_nil _ _)
  | case3 _ _ _ _ _ ih => exact ih
  | case4 => exact .inl (List.cons_ne_nil _ _)
  | case5 _ _ _ _ _ ih => exact ih
  | case6 _ frames items =>
    cases frames with
    | nil => exact .inr (by simp [leaveOut])
    | cons f frames => exact .inl (List.cons_ne_nil _ _)

/-- After one more token a frame is open or one more item is complete. -/
lemma push_advances {st st' : State} {t : Token} (h : st.push t = some st') :
    st'.frames ≠ [] ∨ st.items.length < st'.items.length := by
  obtain ⟨f, rfl⟩ | ⟨n, frames, rfl⟩ := push_cases h
  · exact .inl (List.cons_ne_nil f st.frames)
  · exact place_advances n t.stop frames st.items

/-- After at least one token a frame is open or more items are complete. -/
theorem run_advances {st st' : State} {t : Token} {ts : List Token}
    (h : st.run (t :: ts) = (st', none)) :
    st'.frames ≠ [] ∨ st.items.length < st'.items.length := by
  induction ts generalizing st t with
  | nil =>
    rw [run] at h
    split at h
    · rename_i hpush
      cases h
      exact push_advances hpush
    · cases h
  | cons u ts ih =>
    rw [run] at h
    split at h
    · rename_i hpush
      have hstay := (items_push hpush).length_le
      exact (ih h).imp_right fun hmore => by omega
    · cases h

end State

/-- An outline that makes up the whole text has read all tokens. -/
theorem reads_of_complete {cs : List Char} (h : (outline cs).complete = true) :
    Reads (lex 0 cs).tokens (outline cs).items [] := by
  obtain ⟨us, hreads⟩ := outline_reads cs
  have hrun : State.start.run (lex 0 cs).tokens = State.run ⟨[], (outline cs).items⟩ us := by
    rw [run_of_reads hreads, State.start, State.addAll_outside, List.nil_append]
  have hitems := outline_items cs
  rw [outline] at h
  cases us with
  | nil => exact hreads
  | cons u us =>
    -- the machine would have something open, or more items than there are
    split at h
    · cases h
    · rename_i st hst
      rw [hst] at hitems
      rw [hrun] at hst
      rcases State.run_advances hst with hopen | hmore
      · rw [List.isEmpty_eq_false_iff.mpr hopen, Bool.and_false] at h
        cases h
      · rw [hitems] at hmore
        exact absurd hmore (Nat.lt_irrefl _)

/-- A text without tokens in which nothing is stuck is skipped. -/
lemma skip_of_complete {pos : Nat} {cs : List Char} (htokens : (lex pos cs).tokens = [])
    (hcomplete : (lex pos cs).complete = true) : skip false cs = [] := by
  cases hs : skip false cs with
  | nil => rfl
  | cons c ds =>
    cases hf : scan c ds with
    | stuck rest =>
      rw [lex_stuck hs hf] at hcomplete
      cases hcomplete
    | found l rest =>
      rw [lex_found hs hf] at htokens
      cases htokens

/-! ### The forms of items -/

/-- Items one behind the other contribute their forms in this order. -/
lemma itemForms_append {is js : List Item} {fs gs : List Form} (h : itemForms is = .ok fs)
    (h' : itemForms js = .ok gs) : itemForms (is ++ js) = .ok (fs ++ gs) := by
  induction is generalizing fs with
  | nil =>
    cases h
    exact h'
  | cons i is ih =>
    rw [itemForms] at h
    obtain ⟨fs₁, hi, h⟩ := bind_eq_ok h
    obtain ⟨fs₂, his, rfl⟩ := map_eq_ok h
    rw [List.cons_append, itemForms, hi, ih his, List.append_assoc]
    rfl

lemma itemForms_move {ρ : Nat → Nat} {items : List Item} {fs : List Form}
    (h : itemForms items = .ok fs) : itemForms (items.map (Item.move ρ)) = .ok fs := by
  induction items generalizing fs with
  | nil => exact h
  | cons i items ih =>
    rw [itemForms] at h
    obtain ⟨gs, hi, h⟩ := bind_eq_ok h
    obtain ⟨hs, hitems, rfl⟩ := map_eq_ok h
    have hmoved : (i.move ρ).forms = .ok gs := by
      cases i with
      | datum n stop => exact topForms_move hi
      | discarded => exact hi
    rw [List.map_cons, itemForms, hmoved, ih hitems]
    rfl

/-- Items contribute the same forms between brackets. -/
lemma nodeForms_of_itemForms {items : List Item} {fs : List Form}
    (h : itemForms items = .ok fs) : Node.forms (nodes items) = .ok fs := by
  induction items generalizing fs with
  | nil => exact h
  | cons i items ih =>
    rw [itemForms] at h
    obtain ⟨gs, hi, h⟩ := bind_eq_ok h
    obtain ⟨hs, hitems, rfl⟩ := map_eq_ok h
    cases i with
    | discarded =>
      cases hi
      exact ih hitems
    | datum n stop =>
      rw [Item.forms, Node.topForms] at hi
      split at hi
      · cases hi
      · rw [nodes_datum, Node.forms, hi, ih hitems]
        rfl

/-! ### Texts wherever they stand -/

/-- A rest that does not go on in the same line. -/
def EndsLine (rest : List Char) : Prop :=
  ∀ c, rest.head? = some c → c = '\n'

lemma endsLine_nil : EndsLine [] := nofun

lemma endsLine_cons (ys : List Char) : EndsLine ('\n' :: ys) := by
  rintro c ⟨⟩
  rfl

/-- What is skipped up to the end of a text is skipped up to the end of its last line. -/
lemma skip_endsLine {cs rest : List Char} (h : skip false cs = []) (hrest : EndsLine rest) :
    skip false (cs ++ rest) = skip false rest := by
  cases rest with
  | nil => rw [List.append_nil, h]; rfl
  | cons c ys =>
    obtain rfl := hrest c rfl
    rw [skip_line h]
    rfl

/-- A start of a text is taken up by the same tokens when the text goes on in another line. -/
lemma Lexes.endsLine {pos : Nat} {xs gap rest : List Char} {ts : List Token}
    (h : Lexes pos xs gap ts) (hrest : EndsLine rest) : Lexes pos xs (gap ++ rest) ts := by
  cases rest with
  | nil => rwa [List.append_nil]
  | cons c ys =>
    obtain rfl := hrest c rfl
    exact h.line ys

/-- `Stands xs P`: behind any characters, and in front of any rest that does not go on in the
same line, the text `xs` is cut into tokens that are read as items with the property `P`. -/
def Stands (xs : List Char) (P : List Item → Prop) : Prop :=
  ∀ rest, EndsLine rest → ∀ pos, ∃ ts items,
    Cuts xs rest pos ts ∧ (∀ us, Reads (ts ++ us) items us) ∧ P items

namespace Stands

variable {xs ys : List Char} {P Q : List Item → Prop}

lemma imp (h : Stands xs P) (hPQ : ∀ items, P items → Q items) : Stands xs Q := by
  intro rest hrest pos
  obtain ⟨ts, items, hcut, hread, hitems⟩ := h rest hrest pos
  exact ⟨ts, items, hcut, hread, hPQ items hitems⟩

/-- Texts below each other are read one after the other. -/
theorem line (h : Stands xs P) (h' : Stands ys Q) :
    Stands (xs ++ '\n' :: ys) fun items => ∃ is js, items = is ++ js ∧ P is ∧ Q js := by
  intro rest hrest pos
  obtain ⟨ts, is, hcut, hread, his⟩ := h _ (endsLine_cons (ys ++ rest)) pos
  have hgap : ∀ c ∈ ['\n'], isGap c = true := List.forall_mem_singleton.mpr rfl
  obtain ⟨us, js, hcut', hread', hjs⟩ := h' rest hrest (pos + xs.length + ['\n'].length)
  refine ⟨ts ++ us, is ++ js, ?_, fun vs => ?_, is, js, rfl, his, hjs⟩
  · exact hcut.append ((cuts_gap hgap (ys ++ rest) _).append hcut')
  · rw [List.append_assoc]
    exact reads_append (hread _) (hread' vs)

/-- A text between brackets, with the closing in a line of its own, is read as one form. -/
theorem bracket (h : Stands xs P) (b : Bracket) (rest : List Char) (pos : Nat) :
    ∃ ts inner stop, Cuts (b.opening ++ (xs ++ ['\n'] ++ [b.closer.text])) rest pos ts ∧
      (∀ us, Reads (ts ++ us) [.datum (.bracket pos b (nodes inner)) stop] us) ∧ P inner := by
  have hgap : ∀ c ∈ ['\n'], isGap c = true := List.forall_mem_singleton.mpr rfl
  obtain ⟨ts, inner, hcut, hread, hinner⟩ :=
    h _ (endsLine_cons ([b.closer.text] ++ rest)) (pos + b.opening.length)
  have hinside := hcut.append (cuts_gap hgap ([b.closer.text] ++ rest) _)
  rw [List.append_nil] at hinside
  obtain ⟨us, htext, hitem⟩ := reads_bracket b hinside hread
  exact ⟨us, inner, _, htext, hitem, hinner⟩

end Stands

/-- The forms of a text can all be read exactly if the text stands for them everywhere. -/
theorem stands_iff {cs : List Char} {fs : List Form} :
    forms cs = .ok fs ↔ Stands cs fun items => itemForms items = .ok fs := by
  constructor
  · intro h
    rw [forms] at h
    split at h
    · rename_i hcomplete
      obtain ⟨ts, htokens, hspans⟩ := reads_spans (reads_of_complete hcomplete)
      obtain ⟨xs, gap, rfl, hlexes, hgap⟩ := exists_lexes htokens
      have hskip : skip false gap = [] := by
        refine skip_of_complete hgap ?_
        have hlex := (lex_complete hcomplete).1
        rw [hlexes.cuts] at hlex
        exact hlex
      intro rest hrest pos
      have hmoved : Lexes pos xs (gap ++ rest) (ts.map (Token.move (pos + ·))) :=
        (hlexes.endsLine hrest).move fun k => by rw [Nat.zero_add]
      have hcuts := hmoved.cuts.append (cuts_skipped (skip_endsLine hskip hrest) _)
      rw [List.append_nil] at hcuts
      exact ⟨_, _, hcuts, (hspans.move (pos + ·)).reads, itemForms_move h⟩
    · cases h
  · intro h
    obtain ⟨ts, items, hcut, hread, hitems⟩ := h [] endsLine_nil 0
    have hreads := hread []
    rw [List.append_nil] at hreads
    rw [forms_of_reads hcut.lex_eq hreads, hitems]

/-- The forms of texts below each other are those of the one and then those of the other. -/
theorem forms_line {cs ds : List Char} {fs gs : List Form} (h : forms cs = .ok fs)
    (h' : forms ds = .ok gs) : forms (cs ++ '\n' :: ds) = .ok (fs ++ gs) := by
  refine stands_iff.mpr (((stands_iff.mp h).line (stands_iff.mp h')).imp ?_)
  rintro _ ⟨is, js, rfl, his, hjs⟩
  exact itemForms_append his hjs

/-- Items between brackets contribute what their forms are together. -/
lemma topForms_bracket {b : Bracket} (hb : b ≠ .splice) {inner : List Item} {fs : List Form}
    (h : itemForms inner = .ok fs) (start : Nat) :
    (Node.bracket start b (nodes inner)).topForms = (b.yield start fs).bind Yield.asItems := by
  have hsplice : (Node.bracket start b (nodes inner)).isSplice = false := by
    cases b with
    | splice => exact absurd rfl hb
    | _ => rfl
  rw [Node.topForms, hsplice, Node.yield, nodeForms_of_itemForms h]
  rfl

lemma itemForms_one (n : Node) (stop : Nat) : itemForms [.datum n stop] = n.topForms := by
  rw [itemForms, Item.forms, itemForms]
  cases n.topForms with
  | error e => rfl
  | ok fs => exact congrArg Except.ok (List.append_nil fs)

/-- The forms of a text are read between any brackets. -/
theorem forms_bracket {cs : List Char} {fs : List Form} (h : forms cs = .ok fs) {b : Bracket}
    (hb : b ≠ .splice) :
    forms (b.opening ++ (cs ++ ['\n'] ++ [b.closer.text])) =
      (b.yield 0 fs).bind Yield.asItems := by
  obtain ⟨ts, inner, stop, hcut, hread, hinner⟩ := (stands_iff.mp h).bracket b [] 0
  have hreads := hread []
  rw [List.append_nil] at hreads
  rw [forms_of_reads hcut.lex_eq hreads, itemForms_one, topForms_bracket hb hinner]

lemma pairUp_eq_none_iff {fs : List Form} : pairUp fs = none ↔ Odd fs.length := by
  fun_induction pairUp fs with
  | case1 => simp
  | case2 => simp
  | case3 a b rest ih =>
    rw [Option.map_eq_none_iff, ih, List.length_cons, List.length_cons, Nat.odd_add_one,
      Nat.odd_add_one, not_not]

/-- A text is read between brackets of its own as one form of all its forms. -/
lemma readAll_bracket {text : String} {fs : List Form} (h : readAll text = .ok fs) (b : Bracket)
    (hb : b ≠ .splice) {opening closing : String} (hopening : opening.toList = b.opening)
    (hclosing : closing.toList = ['\n', b.closer.text]) :
    readAll (opening ++ text ++ closing) =
      ((b.yield 0 fs).bind Yield.asItems).mapError
        (·.toError (opening ++ text ++ closing).toList) := by
  have htext : (opening ++ text ++ closing).toList =
      b.opening ++ (text.toList ++ ['\n'] ++ [b.closer.text]) := by
    simp [hopening, hclosing]
  rw [readAll, htext, forms_bracket (mapError_eq_ok h) hb]

end Reader

open Reader

/-- Reading is compositional. Texts below each other have the forms of both, and between brackets
of any kind the forms of a text are the parts of one form. Between those of a map they are its
keys and values in turn, and an odd number of forms is refused at the start of the map. -/
theorem readAll_compose {a b : String} {fs gs : List Form} (ha : readAll a = .ok fs)
    (hb : readAll b = .ok gs) :
    readAll (a ++ "\n" ++ b) = .ok (fs ++ gs) ∧
      readAll ("(" ++ a ++ "\n)") = .ok [.list fs] ∧
      readAll ("[" ++ a ++ "\n]") = .ok [.vector fs] ∧
      readAll ("#\x7b" ++ a ++ "\n\x7d") = .ok [.set fs] ∧
      readAll ("#(" ++ a ++ "\n)") = .ok [.anonFn fs] ∧
      (Even fs.length → ∃ entries, (entries.flatMap fun e => [e.1, e.2]) = fs ∧
        readAll ("\x7b" ++ a ++ "\n\x7d") = .ok [.map entries]) ∧
      (Odd fs.length → readAll ("\x7b" ++ a ++ "\n\x7d") =
        .error (.reader "Map literal must contain an even number of forms"
          ("\x7b" ++ a ++ "\n\x7d") (some 0))) := by
  have hmap : readAll ("\x7b" ++ a ++ "\n\x7d") = _ := readAll_bracket ha .map (by simp) rfl rfl
  refine ⟨?_, ?_, ?_, ?_, ?_, fun heven => ?_, fun hodd => ?_⟩
  · have htext : (a ++ "\n" ++ b).toList = a.toList ++ '\n' :: b.toList := by simp
    rw [readAll, htext, forms_line (mapError_eq_ok ha) (mapError_eq_ok hb)]
    rfl
  · exact readAll_bracket ha .list (by simp) rfl rfl
  · exact readAll_bracket ha .vector (by simp) rfl rfl
  · exact readAll_bracket ha .set (by simp) rfl rfl
  · exact readAll_bracket ha .anonFn (by simp) rfl rfl
  · cases hpairs : pairUp fs with
    | none => exact absurd (pairUp_eq_none_iff.mp hpairs) (Nat.not_odd_iff_even.mpr heven)
    | some entries =>
      simp only [Bracket.yield, hpairs] at hmap
      exact ⟨entries, flatten_of_pairUp hpairs, hmap⟩
  · simp only [Bracket.yield, pairUp_eq_none_iff.mpr hodd] at hmap
    rw [hmap, Except.bind, Except.mapError, ReadError.toError, String.ofList_toList]
    rfl

/-- Two forms in front of a comment with an opening, and one form behind a conditional that
selects nothing. -/
theorem readAll_compose_comment :
    readAll ":k #_x y ; (" = .ok [.keyword "k", .ofName "y"] ∧
      readAll "#?(:clj y) z" = .ok [.ofName "z"] ∧
      readAll (":k #_x y ; (" ++ "\n" ++ "#?(:clj y) z") =
        .ok [.keyword "k", .ofName "y", .ofName "z"] ∧
      readAll ("#(" ++ ":k #_x y ; (" ++ "\n)") = .ok [.anonFn [.keyword "k", .ofName "y"]] ∧
      (∃ entries, (entries.flatMap fun e => [e.1, e.2]) = [.keyword "k", .ofName "y"] ∧
        readAll ("\x7b" ++ ":k #_x y ; (" ++ "\n\x7d") = .ok [.map entries]) ∧
      readAll ("\x7b" ++ "#?(:clj y) z" ++ "\n\x7d") =
        .error (.reader "Map literal must contain an even number of forms"
          ("\x7b" ++ "#?(:clj y) z" ++ "\n\x7d") (some 0)) := by
  have ha : readAll ":k #_x y ; (" = .ok [.keyword "k", .ofName "y"] := by cbv
  have hb : readAll "#?(:clj y) z" = .ok [.ofName "z"] := by cbv
  obtain ⟨hlines, -, -, -, hanonFn, hmap, -⟩ := readAll_compose ha hb
  obtain ⟨-, -, -, -, -, -, hodd⟩ := readAll_compose hb ha
  have htwo : Even [Form.keyword "k", .ofName "y"].length := ⟨1, rfl⟩
  have hone : Odd [Form.ofName "z"].length := ⟨0, rfl⟩
  exact ⟨ha, hb, hlines, hanonFn, hmap htwo, hodd hone⟩

end Listener
