/-
Marks in front of a form, one behind the other.

* `Gap`, `Mark`, `Layer`: blanks, a mark as it is written, and a mark with the blanks and the items
  that are left out behind it; `Mark.form` is what a mark makes of a form.
* `LeadsUpTo xs f`: a text is read as one form, with what is left out in front of it.
* `oneItem_sigil`, `oneItem_metadata`: a mark in front of such a text is one item.
* `Layer.oneItem`: a layer in front of a single item, and what is read then.
* `readForm_layers`: any number of layers in front of a single item.
-/
import Listener.Proofs.Reader.Discards

namespace Listener

namespace Reader

/-! ### Layers -/

/-- Blanks, at least one. -/
structure Gap where
  /-- The blanks. -/
  text : String
  /-- There is one. -/
  ne_empty : text ≠ ""
  /-- There is nothing else. -/
  blank : ∀ c ∈ text.toList, isGap c = true

/-- A single space. -/
def Gap.space : Gap :=
  ⟨" ", by decide, List.forall_mem_singleton.mpr rfl⟩

/-- A mark in front of a form, as it is written. -/
inductive Mark where
  /-- An apostrophe. -/
  | quote
  /-- A grave accent. -/
  | syntaxQuote
  /-- `~` -/
  | unquote
  /-- `~@` -/
  | unquoteSplicing
  /-- `@` -/
  | deref
  /-- A hash sign and an apostrophe. -/
  | var
  /-- A hash sign and a tag. -/
  | tag (text : String) (h : isTagText text.toList = true)
  /-- `^`, a blank, and the metadata. -/
  | metadata (m : Single)

namespace Mark

/-- The text of a mark. -/
def text : Mark → String
  | .quote => "'"
  | .syntaxQuote => "`"
  | .unquote => "~"
  | .unquoteSplicing => "~@"
  | .deref => "@"
  | .var => "#'"
  | .tag text _ => "#" ++ text
  | .metadata m => "^ " ++ m.text

/-- What a mark makes of the form behind it. -/
def form (f : Form) : Mark → Form
  | .quote => .list [.ofName "quote", f]
  | .syntaxQuote => .list [.ofName "syntax-quote", f]
  | .unquote => .list [.ofName "clojure.core/unquote", f]
  | .unquoteSplicing => .list [.ofName "clojure.core/unquote-splicing", f]
  | .deref => .list [.ofName "deref", f]
  | .var => .list [.ofName "var", f]
  | .tag text _ => .tagged text f
  | .metadata m => .annotated m.form f

end Mark

/-- A mark with the blanks and the items that are left out behind it. -/
structure Layer where
  mark : Mark
  /-- The blanks behind the mark. -/
  gap : Gap
  /-- Items that are left out, with the blanks behind each of them. -/
  leftOut : List (Single × Gap)

/-- Items that are left out, with the blanks behind each of them. -/
def leftOutText (ds : List (Single × Gap)) : String :=
  String.join (ds.map fun d => "#_ " ++ d.1.text ++ d.2.text)

/-- The text of a layer. -/
def Layer.text (l : Layer) : String :=
  l.mark.text ++ l.gap.text ++ leftOutText l.leftOut

/-- The text of layers in front of the text `s`. -/
def layersText (layers : List Layer) (s : String) : String :=
  layers.foldr (fun l text => l.text ++ text) s

/-- What layers make of the form `f`, the innermost mark first. -/
def layersForm (layers : List Layer) (f : Form) : Form :=
  layers.foldr (fun l g => l.mark.form g) f

/-! ### What is left out -/

/-- Blanks are self-contained, and more blanks or anything else may follow. -/
lemma Gap.apart (g : Gap) (rest : List Char) : Apart (g.text.toList ++ rest) := by
  cases hg : g.text.toList with
  | nil => exact absurd (String.toList_eq_nil_iff.mp hg) g.ne_empty
  | cons c cs => exact apart_gap (g.blank c (by simp [hg])) _

/-- A single item that is left out, with blanks behind it, leaves one trace. -/
lemma selfContained_leftOut (d : Single) (g : Gap) :
    SelfContained (discardText ++ d.text.toList ++ g.text.toList) fun _ items =>
      items = [.discarded] := by
  have hone : Detached d.text.toList fun _ items =>
      ∃ k n stop js, items = lone k n stop ++ js ∧ js = [] := by
    refine d.oneItem.imp ?_
    rintro pos _ ⟨n, rfl, -, -⟩
    exact ⟨0, n, _, [], rfl, rfl⟩
  have hout : Detached (discardText ++ d.text.toList) fun _ items => items = [.discarded] := by
    refine hone.leftOut.imp ?_
    rintro _ _ ⟨js, rfl, rfl⟩
    rfl
  exact hout.gap (fun h => g.ne_empty (String.toList_eq_nil_iff.mp h)) g.blank

lemma selfContained_leftOutText (ds : List (Single × Gap)) :
    SelfContained (leftOutText ds).toList fun _ items =>
      items = List.replicate ds.length .discarded := by
  induction ds with
  | nil => exact selfContained_gap (List.forall_mem_nil _)
  | cons d ds ih =>
    have htext : (leftOutText (d :: ds)).toList =
        discardText ++ d.1.text.toList ++ d.2.text.toList ++ (leftOutText ds).toList := by
      simp [leftOutText, discardText]
    rw [htext]
    refine ((selfContained_leftOut d.1 d.2).append ih).imp ?_
    rintro _ _ ⟨_, _, rfl, rfl, rfl⟩
    rfl

/-! ### Marks -/

/-- In front of any rest that is apart, the text is read as one form, with what is left out in front
of it, and ends where the form does. -/
def LeadsUpTo (xs : List Char) (f : Form) : Prop :=
  Detached xs fun pos items =>
    ∃ k n, items = lone k n (pos + xs.length) ∧ n.topForms = .ok [f]

/-- Blanks and items that are left out lead up to a single item. -/
lemma leadsUpTo_leftOut (g : Gap) (ds : List (Single × Gap)) {xs : List Char} {f : Form}
    (h : OneItem xs f) :
    LeadsUpTo (g.text.toList ++ ((leftOutText ds).toList ++ xs)) f := by
  have hall := (selfContained_gap g.blank).append_detached
    ((selfContained_leftOutText ds).append_detached h)
  refine hall.imp ?_
  rintro pos _ ⟨_, _, rfl, rfl, _, _, rfl, rfl, n, rfl, -, hn⟩
  refine ⟨ds.length, n, ?_, hn⟩
  simp only [lone, List.length_append, List.nil_append, Nat.add_assoc]

/-- The form of an item outside of all brackets is its form where one is needed. -/
lemma single_of_topForms {n : Node} {f : Form} (h : n.topForms = .ok [f]) :
    n.single n.yield = .ok f := by
  rw [Node.topForms] at h
  rw [Node.single]
  split at h
  · cases h
  · rename_i hsplice
    rw [if_neg hsplice]
    obtain ⟨y, hy, hf⟩ := bind_eq_ok h
    rw [hy]
    cases y with
    | form g =>
      cases hf
      rfl
    | choice start branch =>
      cases branch with
      | none => cases hf
      | some g =>
        cases hf
        rfl
    | splice start branch => exact absurd (isSplice_of_yield hy) hsplice

section

variable {ms ys : List Char} {f : Form}

lemma scan_unquote {rest : List Char} (hrest : Apart rest) :
    scan '~' ([] ++ rest) = .found (.sigil .unquote) rest := by
  have hat : ∀ cs, rest ≠ '@' :: cs := by
    rintro cs rfl
    exact (hrest '@' rfl).2 rfl
  simp [scan, single?]

/-- A mark in front of a form is one item. Which token the mark is may depend on what stands behind
it. -/
theorem oneItem_sigil {s : Sigil} (hy : LeadsUpTo ys f)
    (hcut : ∀ rest pos, ∃ stop, Cuts ms (ys ++ rest) pos [⟨.sigil s, pos, stop⟩]) :
    OneItem (ms ++ ys) (s.form f) := by
  intro rest hrest pos
  obtain ⟨stop, hmark⟩ := hcut rest pos
  obtain ⟨ts, _, hform, hread, k, n, rfl, hn⟩ := hy rest hrest (pos + ms.length)
  refine ⟨_, _, hmark.append hform, fun us => .sigil rfl (hread us) (.nil us), .sigil pos s n, ?_,
    rfl, ?_⟩
  · rw [List.length_append, Nat.add_assoc]
  · exact Node.topForms_eq (by rw [Node.yield, single_of_topForms hn]; rfl)

/-- Metadata in front of a form is one item with it. -/
theorem oneItem_metadata (m : Single) (hy : LeadsUpTo ys f) (hys : ∀ rest, Apart (ys ++ rest)) :
    OneItem (['^', ' '] ++ (m.text.toList ++ ys)) (.annotated m.form f) := by
  have hgap : ∀ c ∈ [' '], isGap c = true := List.forall_mem_singleton.mpr rfl
  intro rest hrest pos
  have hmark : Cuts ['^', ' '] (m.text.toList ++ ys ++ rest) pos [⟨.metadata, pos, pos + 1⟩] :=
    (cuts_single rfl _ pos).append (cuts_gap hgap _ _)
  obtain ⟨ts, _, hmeta, hread, n, rfl, -, hn⟩ := m.oneItem (ys ++ rest) (hys rest) (pos + 2)
  obtain ⟨us, _, hform, hread', k, n', rfl, hn'⟩ := hy rest hrest (pos + 2 + m.text.toList.length)
  have hstop : pos + (['^', ' '] ++ (m.text.toList ++ ys)).length =
      pos + 2 + m.text.toList.length + ys.length := by
    simp only [List.length_append, List.length_cons, List.length_nil]
    omega
  refine ⟨_, [.datum (.annotated pos n n') _], hmark.append (hmeta.append hform), fun vs => ?_,
    .annotated pos n n', by rw [hstop], rfl, ?_⟩
  · rw [List.append_assoc, List.append_assoc]
    exact .annotated (k := 0) rfl (hread _) (hread' vs) (.nil vs)
  · refine Node.topForms_eq ?_
    rw [Node.yield, single_of_topForms hn, single_of_topForms hn']
    rfl

end

namespace Layer

lemma apart (l : Layer) (xs rest : List Char) :
    Apart (l.gap.text.toList ++ ((leftOutText l.leftOut).toList ++ xs) ++ rest) := by
  rw [List.append_assoc]
  exact l.gap.apart _

/-- A layer in front of a single item is one item, and its mark makes its form of that of the other
item. -/
theorem oneItem (l : Layer) {xs : List Char} {f : Form} (h : OneItem xs f) :
    OneItem (l.text.toList ++ xs) (l.mark.form f) := by
  have hform := leadsUpTo_leftOut l.gap l.leftOut h
  have hapart := l.apart xs
  have htext : l.text.toList ++ xs =
      l.mark.text.toList ++ (l.gap.text.toList ++ ((leftOutText l.leftOut).toList ++ xs)) := by
    simp [text]
  rw [htext]
  cases l.mark with
  | quote =>
    exact oneItem_sigil (s := .quote) hform fun rest pos => ⟨_, cuts_single rfl _ pos⟩
  | syntaxQuote =>
    exact oneItem_sigil (s := .syntaxQuote) hform fun rest pos => ⟨_, cuts_single rfl _ pos⟩
  | unquote =>
    exact oneItem_sigil (s := .unquote) hform fun rest pos =>
      ⟨_, cuts_token (by decide) (by decide) (scan_unquote (hapart rest)) pos⟩
  | unquoteSplicing =>
    exact oneItem_sigil (s := .unquoteSplicing) hform fun rest pos =>
      ⟨_, cuts_token (by decide) (by decide) rfl pos⟩
  | deref =>
    exact oneItem_sigil (s := .deref) hform fun rest pos => ⟨_, cuts_single rfl _ pos⟩
  | var => exact oneItem_sigil (s := .var) hform fun rest pos => ⟨_, cuts_hash rfl pos⟩
  | tag tag h =>
    have hmark : (Mark.tag tag h).text.toList = '#' :: tag.toList := by simp [Mark.text]
    have htagged := oneItem_sigil hform fun rest pos =>
      ⟨_, cuts_hash (scanHash_tag h (hapart rest).delimited) pos⟩
    rw [Sigil.form, String.ofList_toList] at htagged
    rw [hmark]
    exact htagged
  | metadata m =>
    have hmark : (Mark.metadata m).text.toList = ['^', ' '] ++ m.text.toList := by
      simp [Mark.text]
    rw [hmark, List.append_assoc]
    exact oneItem_metadata m hform hapart

lemma isBlank_text (l : Layer) (xs : List Char) :
    isBlank Text.isWhite false (l.text.toList ++ xs) = false := by
  have htext : l.text = l.mark.text ++ (l.gap.text ++ leftOutText l.leftOut) :=
    String.append_assoc
  rw [htext, String.toList_append, List.append_assoc]
  cases l.mark with
  | tag tag h => rw [Mark.text, String.toList_append]; rfl
  | metadata m => rw [Mark.text, String.toList_append]; rfl
  | _ => rfl

end Layer

end Reader

open Reader

/-- Marks in front of a form nest as their long forms do. Where any number of marks stand in front
of a single item, with blanks and items that are left out behind each mark, the whole is a single
item, and its form is made of that of the item by the marks, the innermost first. -/
theorem readForm_layers {s : String} {f : Form} (hs : IsSingle s f) (layers : List Layer) :
    readForm (layersText layers s) = .ok (layersForm layers f) ∧
      readText (layersText layers s) = .ok (layersText layers s) := by
  have hone : OneItem (layersText layers s).toList (layersForm layers f) := by
    induction layers with
    | nil => exact (isSingle_iff.mp hs).1
    | cons l layers ih =>
      rw [layersText, List.foldr_cons, String.toList_append]
      exact l.oneItem ih
  have hblank : isBlank Text.isWhite false (layersText layers s).toList = false := by
    cases layers with
    | nil => exact (isSingle_iff.mp hs).2
    | cons l layers =>
      rw [layersText, List.foldr_cons, String.toList_append]
      exact l.isBlank_text _
  have hsingle := isSingle_iff.mpr ⟨hone, hblank⟩
  exact ⟨hsingle.form, hsingle.slice⟩

/-- Three marks, the second one with metadata that is a conditional, and with an item left out
behind it that has an item left out in it. -/
theorem readForm_layers_three :
    readForm "#' ^ #?(:cljs :k) #_ (#_x y) ~ @z" =
        .ok (.list [.ofName "var", .annotated (.keyword "k")
          (.list [.ofName "clojure.core/unquote", .list [.ofName "deref", .ofName "z"]])]) ∧
      readText "#' ^ #?(:cljs :k) #_ (#_x y) ~ @z" = .ok "#' ^ #?(:cljs :k) #_ (#_x y) ~ @z" := by
  have hmeta : IsSingle "#?(:cljs :k)" (.keyword "k") := ⟨by cbv, by cbv⟩
  have hout : IsSingle "(#_x y)" (.list [.ofName "y"]) := ⟨by cbv, by cbv⟩
  have hform : IsSingle "@z" (.list [.ofName "deref", .ofName "z"]) := ⟨by cbv, by cbv⟩
  exact readForm_layers hform [⟨.var, .space, []⟩,
    ⟨.metadata ⟨_, _, hmeta⟩, .space, [(⟨_, _, hout⟩, .space)]⟩, ⟨.unquote, .space, []⟩]

end Listener
