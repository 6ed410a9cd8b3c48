/-
Marks that leave forms out, one behind the other.

* `Detached.leftOut`: `#_` in front of a text leaves out the first form of the text, with what is
  left out in front of it.
* `Offer`: items that have one form each, in order; `offer_lines` reads texts on lines of their own
  as such items.
* `Remaining`: what is left of items behind `n` marks; `remaining_succ` is one more mark, and
  `detached_discards` any number of them.
* `readAll_discards`: `n` marks leave out the first `n` of the texts behind them.
-/
import Listener.Proofs.Reader.Single

namespace Listener

namespace Reader

/-! ### One mark -/

/-- The text of a mark that leaves a form out, with a blank behind it. -/
def discardText : List Char :=
  ['#', '_', ' ']

lemma cuts_discard (rest : List Char) (pos : Nat) :
    Cuts discardText rest pos [⟨.discard, pos, pos + 2⟩] := by
  have hgap : ∀ c ∈ [' '], isGap c = true := List.forall_mem_singleton.mpr rfl
  have hmark : Cuts ['#', '_'] ([' '] ++ rest) pos [⟨.discard, pos, pos + 2⟩] := cuts_hash rfl pos
  exact hmark.append (cuts_gap hgap rest _)

/-- Behind a mark, what is left out in front of the first form is left out with it. -/
lemma reads_discard {t : Token} {ts us : List Token} {k : Nat} {n : Node} {stop : Nat}
    {items : List Item} (ht : t.lexeme = .discard)
    (h : Reads ts (lone k n stop ++ items) us) : Reads (t :: ts) (.discarded :: items) us := by
  obtain ⟨vs, hlone, hitems⟩ := reads_split _ h
  exact .discard ht hlone hitems

/-- A mark in front of a text leaves out the first form of the text. -/
theorem Detached.leftOut {xs : List Char} {P : List Item → Prop}
    (h : Detached xs fun _ items => ∃ k n stop js, items = lone k n stop ++ js ∧ P js) :
    Detached (discardText ++ xs) fun _ items => ∃ js, items = .discarded :: js ∧ P js := by
  intro rest hrest pos
  obtain ⟨ts, _, hcut, hread, k, n, stop, js, rfl, hjs⟩ := h rest hrest (pos + discardText.length)
  exact ⟨_, _, (cuts_discard _ pos).append hcut, fun us => reads_discard rfl (hread us), js, rfl,
    hjs⟩

/-! ### Several texts -/

/-- The items have one form each, and in this order. -/
def Offer (items : List Item) (fs : List Form) : Prop :=
  List.Forall₂ (fun i f => ∃ n stop, i = .datum n stop ∧ n.topForms = .ok [f]) items fs

/-- Items that have one form each contribute these forms. -/
lemma Offer.itemForms_eq {items : List Item} {fs : List Form} (h : Offer items fs) :
    itemForms items = .ok fs := by
  induction h with
  | nil => rfl
  | cons hi _ ih =>
    obtain ⟨n, stop, rfl, hn⟩ := hi
    rw [itemForms, Item.forms, hn, ih]
    rfl

/-- Texts that are single items, each on its own line, are read as these items. -/
theorem offer_lines (ds : List Single) :
    Detached ("\n".intercalate (ds.map Single.text)).toList fun _ items =>
      Offer items (ds.map Single.form) := by
  induction ds with
  | nil => exact fun rest _ pos => ⟨[], [], .nil rest pos, .nil, .nil⟩
  | cons d ds ih =>
    have hone : Detached d.text.toList fun _ items => Offer items [d.form] := by
      refine d.oneItem.imp ?_
      rintro pos _ ⟨n, rfl, -, hn⟩
      exact .cons ⟨n, _, rfl, hn⟩ .nil
    cases ds with
    | nil => simpa using hone
    | cons e ds =>
      have hline := hone.gap (List.cons_ne_nil '\n' []) (List.forall_mem_singleton.mpr rfl)
      rw [List.map_cons, List.map_cons, String.intercalate_cons_cons, ← List.map_cons,
        String.toList_append, String.toList_append]
      refine (hline.append_detached ih).imp ?_
      rintro pos _ ⟨is, js, rfl, his, hjs⟩
      exact List.rel_append his hjs

/-! ### Several marks -/

/-- What is left of items with the forms `fs` behind `n` marks: the marks leave one trace together,
and the items behind the first `n` ones stay. -/
def Remaining (fs : List Form) (n : Nat) (items : List Item) : Prop :=
  ∃ data, Offer data fs ∧ items = List.replicate (min n 1) .discarded ++ data.drop n

/-- One more mark leaves out the next item. -/
theorem remaining_succ {fs : List Form} {n : Nat} (hn : n < fs.length) {items : List Item}
    (h : Remaining fs n items) :
    ∃ k m stop js, items = lone k m stop ++ js ∧ Remaining fs (n + 1) (.discarded :: js) := by
  obtain ⟨data, hdata, rfl⟩ := h
  have hlt : n < data.length := by rwa [hdata.length_eq]
  obtain ⟨m, stop, hitem, -⟩ := hdata.get hlt hn
  refine ⟨min n 1, m, stop, data.drop (n + 1), ?_, data, hdata, ?_⟩
  · rw [lone, List.append_assoc, List.drop_eq_getElem_cons hlt]
    exact congrArg (fun i => _ ++ i :: _) hitem
  · rw [Nat.min_eq_right (Nat.le_add_left 1 n)]
    rfl

/-- The forms that are left behind `n` marks. -/
lemma Remaining.itemForms_eq {fs : List Form} {n : Nat} {items : List Item}
    (h : Remaining fs n items) : itemForms items = .ok (fs.drop n) := by
  obtain ⟨data, hdata, rfl⟩ := h
  have hfront : ∀ k, itemForms (List.replicate k .discarded) = .ok [] := by
    intro k
    induction k with
    | zero => rfl
    | succ k ih => rw [List.replicate_succ, itemForms, ih]; rfl
  have hdrop : Offer (data.drop n) (fs.drop n) := List.forall₂_drop n hdata
  exact itemForms_append (hfront _) hdrop.itemForms_eq

/-- The text of `n` marks. -/
def discardsText (n : Nat) : String :=
  String.join (List.replicate n "#_ ")

lemma toList_discardsText_succ (n : Nat) :
    (discardsText (n + 1)).toList = discardText ++ (discardsText n).toList := by
  simp [discardsText, List.replicate_succ, discardText]

/-- Behind `n` marks the first `n` items of a text are left out. -/
theorem detached_discards {xs : List Char} {fs : List Form}
    (h : Detached xs fun _ items => Offer items fs) {n : Nat} (hn : n ≤ fs.length) :
    Detached ((discardsText n).toList ++ xs) fun _ items => Remaining fs n items := by
  induction n with
  | zero => exact h.imp fun _ items hitems => ⟨items, hitems, rfl⟩
  | succ n ih =>
    have hnext := (ih (Nat.le_of_succ_le hn)).imp fun _ items hitems => remaining_succ hn hitems
    rw [toList_discardsText_succ, List.append_assoc]
    refine (hnext.leftOut (P := fun js => Remaining fs (n + 1) (.discarded :: js))).imp ?_
    rintro pos _ ⟨js, rfl, hjs⟩
    exact hjs

/-! ### Texts between brackets -/

/-- Between brackets of every kind, a text is read as one collection of the forms `fs`. Between
those of a map they are its keys and values in turn, and an odd number of forms is refused at the
start of the map. -/
structure ReadsBetween (body : String) (fs : List Form) : Prop where
  list : readAll ("(" ++ body ++ ")") = .ok [.list fs]
  vector : readAll ("[" ++ body ++ "]") = .ok [.vector fs]
  set : readAll ("#\x7b" ++ body ++ "\x7d") = .ok [.set fs]
  /-- The body of a function. -/
  anonFn : readAll ("#(" ++ body ++ ")") = .ok [.anonFn fs]
  map : Even fs.length → ∃ entries, (entries.flatMap fun e => [e.1, e.2]) = fs ∧
    readAll ("\x7b" ++ body ++ "\x7d") = .ok [.map entries]
  /-- A key without a value. -/
  oddMap : Odd fs.length → readAll ("\x7b" ++ body ++ "\x7d") =
    .error (.reader "Map literal must contain an even number of forms" ("\x7b" ++ body ++ "\x7d")
      (some 0))

section

variable {body : String} {fs : List Form}

lemma readAll_of_detached (h : Detached body.toList fun _ items => itemForms items = .ok fs) :
    readAll body = .ok fs := by
  obtain ⟨items, houtline, hitems⟩ := h.outline_eq
  simp only [readAll, forms, houtline, if_true, hitems]
  rfl

/-- A detached text is read between brackets of its own as one form of all its forms. -/
lemma readAll_enclosed (h : Detached body.toList fun _ items => itemForms items = .ok fs)
    (b : Bracket) (hb : b ≠ .splice) {opening closing : String}
    (hopening : opening.toList = b.opening) (hclosing : closing.toList = [b.closer.text]) :
    readAll (opening ++ body ++ closing) =
      ((b.yield 0 fs).bind Yield.asItems).mapError
        (·.toError (opening ++ body ++ closing).toList) := by
  have htext : (opening ++ body ++ closing).toList =
      b.opening ++ (body.toList ++ [b.closer.text]) := by
    simp [hopening, hclosing]
  obtain ⟨_, houtline, inner, stop, rfl, hinner⟩ := (h.bracket b).outline_eq
  simp only [readAll, forms, htext, houtline, if_true, itemForms_one, topForms_bracket hb hinner]

/-- Between brackets of every kind, a detached text is read as one collection of its forms. -/
lemma readsBetween_of_detached
    (h : Detached body.toList fun _ items => itemForms items = .ok fs) : ReadsBetween body fs := by
  have hmap : readAll ("\x7b" ++ body ++ "\x7d") = _ := readAll_enclosed h .map (by simp) rfl rfl
  refine ⟨?_, ?_, ?_, ?_, fun heven => ?_, fun hodd => ?_⟩
  · exact readAll_enclosed h .list (by simp) rfl rfl
  · exact readAll_enclosed h .vector (by simp) rfl rfl
  · exact readAll_enclosed h .set (by simp) rfl rfl
  · exact readAll_enclosed h .anonFn (by simp) rfl rfl
  · cases hpairs : pairUp fs with
    | none => exact absurd (pairUp_eq_none_iff.mp hpairs) (Nat.not_odd_iff_even.mpr heven)
    | some entries =>
      simp only [Bracket.yield, hpairs] at hmap
      exact ⟨entries, flatten_of_pairUp hpairs, hmap⟩
  · simp only [Bracket.yield, pairUp_eq_none_iff.mpr hodd] at hmap
    rw [hmap, Except.bind, Except.mapError, ReadError.toError, String.ofList_toList]
    rfl

end

end Reader

open Reader

/-- As many forms are left out as there are marks. Where `n` marks stand in front of texts that are
single items, each on its own line, the first `n` of them are left out, and the forms of the others
are the forms of the whole; they are the elements of every collection between whose brackets the
whole stands. -/
theorem readAll_discards (ds : List Single) {n : Nat} (hn : n ≤ ds.length) {tail : String}
    (htail : ∀ c ∈ tail.toList, isGap c = true) :
    let text := discardsText n ++ "\n".intercalate (ds.map Single.text) ++ tail
    let kept := (ds.drop n).map Single.form
    readAll text = .ok kept ∧ ReadsBetween text kept := by
  intro text kept
  have hle : n ≤ (ds.map Single.form).length := by rwa [List.length_map]
  have hforms : Detached text.toList fun _ items => itemForms items = .ok kept := by
    have hmarks := (detached_discards (offer_lines ds) hle).imp
      fun _ _ hitems => hitems.itemForms_eq
    rw [← List.map_drop, ← String.toList_append] at hmarks
    rw [String.toList_append]
    exact hmarks.blanks htail
  exact ⟨readAll_of_detached hforms, readsBetween_of_detached hforms⟩

/-- Two marks leave out a list with a comment and a conditional, and keep a form with metadata. -/
theorem readAll_discards_two :
    readAll "#_ #_ (a ; #_\n)\n#?(:clj b :cljs #_c d)\n^:k \"]\"" =
        .ok [.annotated (.keyword "k") (.str "]")] ∧
      readAll "[#_ #_ (a ; #_\n)\n#?(:clj b :cljs #_c d)\n^:k \"]\"]" =
        .ok [.vector [.annotated (.keyword "k") (.str "]")]] := by
  have hlist : IsSingle "(a ; #_\n)" (.list [.ofName "a"]) := ⟨by cbv, by cbv⟩
  have hchoice : IsSingle "#?(:clj b :cljs #_c d)" (.ofName "d") := ⟨by cbv, by cbv⟩
  have hkept : IsSingle "^:k \"]\"" (.annotated (.keyword "k") (.str "]")) := ⟨by cbv, by cbv⟩
  have hthree : 2 ≤ [Single.mk _ _ hlist, ⟨_, _, hchoice⟩, ⟨_, _, hkept⟩].length :=
    Nat.le_add_left 2 1
  have htail : ∀ c ∈ "".toList, isGap c = true := List.forall_mem_nil _
  obtain ⟨hall, hbetween⟩ := readAll_discards _ hthree htail
  exact ⟨hall, hbetween.vector⟩

end Listener
