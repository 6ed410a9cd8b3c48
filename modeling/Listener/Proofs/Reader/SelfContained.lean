/-
Texts that are read in the same way whatever follows them.

* `SelfContained xs P`: the text `xs` is cut into tokens and read as items in front of any rest;
  `P` says what the items are at the place where the text stands.
* `selfContained_line`: a text of which all forms can be read is self-contained once its last line
  has ended.
* `Detached xs P`: the same in front of any rest that is apart; `Detached.gap` says that a blank
  makes such a text self-contained.
* `SelfContained.append`, `SelfContained.append_detached`, `Detached.bracket`: such texts one behind
  the other, and between brackets.
* `Detached.outline_eq`, `SelfContained.items_first`: such a text as the whole of a text and as its
  start.
* `ReadsAs`, `Refused`: a text that both readers read as one form, and one that no reader reads.
* `readsAs_of_datum`, `refused_of_datum`: the cases of a text that is one item; `readsAs_atom` and
  `refused_atom` are those of a text that is one token.
-/
import Listener.Proofs.Reader.Composition

namespace Listener

namespace Reader

/-- `SelfContained xs P`: behind any characters and in front of any rest, the text `xs` is cut into
tokens that are read as items. The items have the property `P` at the place of the text, the number
of characters in front of it. -/
def SelfContained (xs : List Char) (P : Nat → List Item → Prop) : Prop :=
  ∀ rest pos, ∃ ts items,
    Cuts xs rest pos ts ∧ (∀ us, Reads (ts ++ us) items us) ∧ P pos items

/-- Tokens that are read as items on their own are read one after the other. -/
lemma reads_both {ts us : List Token} {is js : List Item} (h : ∀ vs, Reads (ts ++ vs) is vs)
    (h' : ∀ vs, Reads (us ++ vs) js vs) (vs : List Token) :
    Reads (ts ++ us ++ vs) (is ++ js) vs := by
  rw [List.append_assoc]
  exact reads_append (h _) (h' vs)

lemma selfContained_gap {xs : List Char} (h : ∀ c ∈ xs, isGap c = true) :
    SelfContained xs fun _ items => items = [] :=
  fun rest pos => ⟨[], [], cuts_gap h rest pos, .nil, rfl⟩

/-- A text of which all forms can be read is self-contained when its last line has ended. -/
theorem selfContained_line {cs : List Char} {fs : List Form} (h : forms cs = .ok fs) :
    SelfContained (cs ++ ['\n']) fun _ items => itemForms items = .ok fs := by
  intro rest pos
  obtain ⟨ts, items, hcut, hread, hitems⟩ := stands_iff.mp h ('\n' :: rest) (endsLine_cons rest) pos
  have hgap : ∀ c ∈ ['\n'], isGap c = true := List.forall_mem_singleton.mpr rfl
  have hend : Cuts ['\n'] rest (pos + cs.length) [] := cuts_gap hgap rest _
  have hline := hcut.append hend
  rw [List.append_nil] at hline
  exact ⟨ts, items, hline, hread, hitems⟩

/-- `Detached xs P`: behind any characters and in front of any rest that is apart, the text `xs` is
cut into tokens that are read as items. The items have the property `P` at the place of the text. -/
def Detached (xs : List Char) (P : Nat → List Item → Prop) : Prop :=
  ∀ rest, Apart rest → ∀ pos, ∃ ts items,
    Cuts xs rest pos ts ∧ (∀ us, Reads (ts ++ us) items us) ∧ P pos items

section

variable {xs ys : List Char} {P Q : Nat → List Item → Prop}

namespace Detached

lemma imp (h : Detached xs P) (hPQ : ∀ pos items, P pos items → Q pos items) :
    Detached xs Q := by
  intro rest hrest pos
  obtain ⟨ts, items, hcut, hread, hitems⟩ := h rest hrest pos
  exact ⟨ts, items, hcut, hread, hPQ pos items hitems⟩

/-- A detached text is self-contained with a blank behind it. -/
theorem gap (h : Detached xs P) {gap : List Char} (hne : gap ≠ [])
    (hgap : ∀ c ∈ gap, isGap c = true) : SelfContained (xs ++ gap) P := by
  intro rest pos
  have hrest : Apart (gap ++ rest) := by
    obtain ⟨c, cs, rfl⟩ := List.exists_cons_of_ne_nil hne
    exact apart_gap (hgap c List.mem_cons_self) _
  obtain ⟨ts, items, hcut, hread, hitems⟩ := h (gap ++ rest) hrest pos
  have hall := hcut.append (cuts_gap hgap rest _)
  rw [List.append_nil] at hall
  exact ⟨ts, items, hall, hread, hitems⟩

lemma blanks (h : Detached xs P) {gap : List Char} (hgap : ∀ c ∈ gap, isGap c = true) :
    Detached (xs ++ gap) P := by
  intro rest hrest
  by_cases hne : gap = []
  · rw [hne, List.append_nil]
    exact h rest hrest
  · exact h.gap hne hgap rest

/-- A detached text between brackets is read as one form. -/
theorem bracket (h : Detached xs P) (b : Bracket) :
    SelfContained (b.opening ++ (xs ++ [b.closer.text])) fun pos items =>
      ∃ inner stop, items = [.datum (.bracket pos b (nodes inner)) stop] ∧
        P (pos + b.opening.length) inner := by
  intro rest pos
  have hclosing : Apart ([b.closer.text] ++ rest) := by
    cases b <;> exact apart_cons rfl (by decide) _
  obtain ⟨ts, inner, hcut, hread, hinner⟩ := h _ hclosing (pos + b.opening.length)
  obtain ⟨us, htext, hitem⟩ := reads_bracket b hcut hread
  exact ⟨us, _, htext, hitem, inner, _, rfl, hinner⟩

/-- A detached text consists of its items. -/
theorem outline_eq (h : Detached xs P) :
    ∃ items, outline xs = ⟨items, xs.length, true⟩ ∧ P 0 items := by
  obtain ⟨ts, items, hcut, hread, hitems⟩ := h [] apart_nil 0
  have hlex := hcut.lex_eq
  have hreads : Reads (lex 0 xs).tokens items [] := by
    have hall := hread []
    rw [List.append_nil] at hall
    rwa [hlex]
  refine ⟨items, ?_, hitems⟩
  rw [outline_of_reads hreads, hlex, Nat.zero_add]

end Detached

namespace SelfContained

lemma detached (h : SelfContained xs P) : Detached xs P :=
  fun rest _ pos => h rest pos

lemma imp (h : SelfContained xs P) (hPQ : ∀ pos items, P pos items → Q pos items) :
    SelfContained xs Q := by
  intro rest pos
  obtain ⟨ts, items, hcut, hread, hitems⟩ := h rest pos
  exact ⟨ts, items, hcut, hread, hPQ pos items hitems⟩

/-- Self-contained texts are read one after the other. -/
theorem append (h : SelfContained xs P) (h' : SelfContained ys Q) :
    SelfContained (xs ++ ys) fun pos items =>
      ∃ is js, items = is ++ js ∧ P pos is ∧ Q (pos + xs.length) js := by
  intro rest pos
  obtain ⟨ts, is, hcut, hread, his⟩ := h (ys ++ rest) pos
  obtain ⟨us, js, hcut', hread', hjs⟩ := h' rest (pos + xs.length)
  exact ⟨ts ++ us, is ++ js, hcut.append hcut', reads_both hread hread', is, js, rfl, his, hjs⟩

/-- A self-contained text and a detached one are read one after the other. -/
theorem append_detached (h : SelfContained xs P) (h' : Detached ys Q) :
    Detached (xs ++ ys) fun pos items =>
      ∃ is js, items = is ++ js ∧ P pos is ∧ Q (pos + xs.length) js := by
  intro rest hrest pos
  obtain ⟨ts, is, hcut, hread, his⟩ := h (ys ++ rest) pos
  obtain ⟨us, js, hcut', hread', hjs⟩ := h' rest hrest (pos + xs.length)
  exact ⟨ts ++ us, is ++ js, hcut.append hcut', reads_both hread hread', is, js, rfl, his, hjs⟩

/-- A self-contained text between brackets is read as one form. -/
theorem bracket (h : SelfContained xs P) (b : Bracket) :
    SelfContained (b.opening ++ (xs ++ [b.closer.text])) fun pos items =>
      ∃ inner stop, items = [.datum (.bracket pos b (nodes inner)) stop] ∧
        P (pos + b.opening.length) inner :=
  h.detached.bracket b

/-- A self-contained text consists of its items. -/
theorem outline_eq (h : SelfContained xs P) :
    ∃ items, outline xs = ⟨items, xs.length, true⟩ ∧ P 0 items :=
  h.detached.outline_eq

/-- The items of a self-contained text are the first ones of every text that starts with it. -/
theorem items_first (h : SelfContained xs P) (rest : List Char) :
    ∃ items, items <+: (outline (xs ++ rest)).items ∧ P 0 items := by
  obtain ⟨ts, items, hcut, hread, hitems⟩ := h rest 0
  refine ⟨items, ?_, hitems⟩
  rw [outline_items, hcut.tokens_eq, run_of_reads (hread _), State.start, State.addAll_outside,
    List.nil_append]
  exact State.items_run ⟨[], items⟩ _

end SelfContained

end

lemma isBlank_opening (b : Bracket) (cs : List Char) :
    isBlank Text.isWhite false (b.opening ++ cs) = false := by
  cases b <;> rfl

/-! ### Texts with one form -/

/-- Both readers find one form in the text. -/
structure ReadsAs (text : String) (f : Form) : Prop where
  /-- It is the first form. -/
  form : readForm text = .ok f
  /-- It is the only form. -/
  all : readAll text = .ok [f]

/-! ### Texts that are not read -/

/-- No reader reads the text, and all of them give the same error. -/
structure Refused (text : String) (e : Error) : Prop where
  /-- The first form is not found. -/
  form : readForm text = .error e
  /-- The text of the first form is not found. -/
  slice : readText text = .error e
  /-- Not all forms are found. -/
  all : readAll text = .error e

lemma toError_start (text : String) (fault : Fault) :
    ReadError.toError text.toList ⟨fault, 0⟩ = .reader (fault.message 0) text (some 0) := by
  simp only [ReadError.toError, offsetAt, List.take_zero, Text.byteLength, String.ofList_toList]

/-- A text is refused if neither its first form nor all of its forms can be read. -/
lemma refused_of_error {text : String} {e : ReadError} (hfirst : first text.toList = .error e)
    (hforms : forms text.toList = .error e) : Refused text (e.toError text.toList) := by
  have hform : readForm text = .error (e.toError text.toList) := by
    rw [readForm, hfirst]
    rfl
  refine ⟨hform, (readText_error_iff text _).mpr hform, ?_⟩
  rw [readAll, hforms]
  rfl

/-! ### Texts of one item -/

section

variable {text : String} {n : Node} {a : Atom} {start stop k : Nat}

/-- A text that is one item with one form is read as this form. -/
theorem readsAs_of_datum (h : outline text.toList = ⟨[.datum n stop], k, true⟩)
    (hblank : isBlank Text.isWhite false text.toList = false) {f : Form}
    (hn : n.topForms = .ok [f]) : ReadsAs text f := by
  constructor
  · refine readForm_eq_ok.mpr ⟨n.start, stop, ?_⟩
    simp only [first, hblank, h, firstForm, hn]
    rfl
  · simp only [readAll, forms, h, itemForms_one, hn]
    rfl

/-- A text that is one item is refused for what is wrong with the item. -/
theorem refused_of_datum (h : outline text.toList = ⟨[.datum n stop], k, true⟩)
    (hblank : isBlank Text.isWhite false text.toList = false) {e : ReadError}
    (hn : n.topForms = .error e) : Refused text (e.toError text.toList) := by
  refine refused_of_error ?_ ?_
  · simp only [first, hblank, h, firstForm, hn]
    rfl
  · simp only [forms, h, itemForms_one, hn]
    rfl

lemma topForms_atom (start : Nat) (a : Atom) :
    (Node.atom start a).topForms = (a.form.map ([·])).mapError (⟨·, start⟩) := by
  have hsplice : (Node.atom start a).isSplice = false := rfl
  rw [Node.topForms, hsplice, Node.yield]
  cases a.form <;> rfl

lemma outline_atom {cs : List Char} (h : Cuts cs [] 0 [⟨.atom a, start, stop⟩]) :
    outline cs = ⟨[.datum (.atom start a) stop], cs.length, true⟩ := by
  have hlex := h.lex_eq
  have hread : Reads (lex 0 cs).tokens [.datum (.atom start a) stop] [] := by
    rw [hlex]
    exact .atom rfl (.nil [])
  rw [outline_of_reads hread, hlex, Nat.zero_add]

/-- A text that is one token is read as the value of the token. -/
theorem readsAs_atom (h : Cuts text.toList [] 0 [⟨.atom a, start, stop⟩])
    (hblank : isBlank Text.isWhite false text.toList = false) {f : Form} (hf : a.form = .ok f) :
    ReadsAs text f := by
  refine readsAs_of_datum (outline_atom h) hblank ?_
  rw [topForms_atom, hf]
  rfl

/-- A text that is one token without a value is refused where the token starts. -/
theorem refused_atom (h : Cuts text.toList [] 0 [⟨.atom a, start, stop⟩])
    (hblank : isBlank Text.isWhite false text.toList = false) {fault : Fault}
    (hf : a.form = .error fault) :
    Refused text (ReadError.toError text.toList ⟨fault, start⟩) := by
  refine refused_of_datum (outline_atom h) hblank ?_
  rw [topForms_atom, hf]
  rfl

end

end Reader

end Listener
