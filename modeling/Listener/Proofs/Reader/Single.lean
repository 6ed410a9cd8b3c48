/-
Texts that are a single item.

* `IsSingle`: the first form of a text takes up all of it; `Single` is such a text with its form.
* `OneItem`: in front of any rest that is apart, a text is read as one item that has one form.
* `isSingle_iff`: the first form takes up all of a text exactly if the text is read as one item and
  does not look empty.
-/
import Listener.Proofs.Reader.SelfContained

namespace Listener

namespace Reader

/-- The text is a single item: its first form takes up all of it. -/
structure IsSingle (text : String) (f : Form) : Prop where
  /-- It is the first form. -/
  form : readForm text = .ok f
  /-- The text of the first form is the whole text. -/
  slice : readText text = .ok text

/-- A text that is a single item, with its form. -/
structure Single where
  text : String
  form : Form
  /-- The form takes up all of the text. -/
  isSingle : IsSingle text form

/-! ### One item -/

/-- In front of any rest that is apart, the text is read as one item, which starts and ends where
the text does and has this form and no other. -/
def OneItem (xs : List Char) (f : Form) : Prop :=
  Detached xs fun pos items =>
    ∃ n, items = [.datum n (pos + xs.length)] ∧ n.start = pos ∧ n.topForms = .ok [f]

lemma start_move (ρ : Nat → Nat) (n : Node) : (n.move ρ).start = ρ n.start := by
  cases n <;> simp [Node.move, Node.start]

/-- A text whose first form takes up all of it is read as one item. -/
lemma oneItem_of_isSingle {text : String} {f : Form} (h : IsSingle text f) :
    OneItem text.toList f ∧ isBlank Text.isWhite false text.toList = false := by
  obtain ⟨start, stop, hfirst⟩ := readForm_eq_ok.mp h.form
  obtain ⟨ps, s, rs, as, before, bs, n, htext, rfl, rfl, -, hlexes, hfound⟩ := first_found hfirst
  have hslice : s = text.toList := by
    have hread := h.slice
    rw [readText, hfirst] at hread
    have htake : (text.toList.take (ps ++ s).length).drop ps.length = s := by
      rw [htext, List.take_left, List.drop_left]
    rw [← htake, ← String.toList_ofList (l := List.drop _ _)]
    exact congrArg String.toList (Except.ok.inj hread)
  -- nothing is left for the texts in front and behind
  obtain ⟨rfl, rfl⟩ : ps = [] ∧ rs = [] := by
    have hlen := congrArg List.length htext
    rw [← hslice] at hlen
    simp only [List.length_append] at hlen
    exact ⟨List.eq_nil_of_length_eq_zero (by omega), List.eq_nil_of_length_eq_zero (by omega)⟩
  refine ⟨?_, (first_eq_ok hfirst).1⟩
  rw [← hslice]
  intro rest hrest pos
  have hmoved : Lexes pos s rest (bs.map (Token.move (pos + ·))) :=
    (hlexes.apart hrest).move fun k => by rw [List.length_nil, Nat.zero_add]
  refine ⟨_, _, hmoved.cuts, (hfound.item.move (pos + ·)).reads, n.move (pos + ·), rfl, ?_,
    topForms_move hfound.form⟩
  rw [start_move, hfound.place]
  rfl

/-- What is found at the start of a text that is read as one item. -/
lemma first_of_oneItem {xs : List Char} {f : Form} (h : OneItem xs f)
    (hblank : isBlank Text.isWhite false xs = false) : first xs = .ok (f, 0, xs.length) := by
  obtain ⟨_, houtline, n, rfl, hstart, hform⟩ := h.outline_eq
  refine first_of_firstForm hblank ?_
  rw [houtline, Nat.zero_add, firstForm, hform, hstart]
  rfl

/-- The first form takes up all of a text exactly if the text is read as one item and does not look
empty. -/
theorem isSingle_iff {text : String} {f : Form} :
    IsSingle text f ↔ OneItem text.toList f ∧ isBlank Text.isWhite false text.toList = false := by
  refine ⟨oneItem_of_isSingle, fun h => ?_⟩
  have hfirst := first_of_oneItem h.1 h.2
  refine ⟨readForm_eq_ok.mpr ⟨0, _, hfirst⟩, ?_⟩
  rw [readText, hfirst]
  simp only [Except.map, Except.mapError, List.take_length, List.drop_zero, String.ofList_toList]

namespace Single

lemma oneItem (d : Single) : OneItem d.text.toList d.form :=
  (isSingle_iff.mp d.isSingle).1

end Single

end Reader

end Listener
