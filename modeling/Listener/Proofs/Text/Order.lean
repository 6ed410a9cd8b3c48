/-
The order of texts: by their bytes, in ascending lists, and as lines.

* `bytes`: the bytes of a text in UTF-8; `bytes_lt_bytes_iff` says that they order the texts as
  their characters do.
* `pairwise_sortedSet`, `eq_sortedSet`: the distinct texts of a list are in strictly ascending
  order, and no other list of them is.
* `destutter_mergeSort`: they are what is left of the sorted list without the texts that repeat the
  one in front of them.
* `lines`: the lines of a text; `lines_intercalate` says that texts joined by line ends are the
  lines of the whole.
-/
import Mathlib.Data.List.Destutter
import Mathlib.Data.List.Sort
import Mathlib.Data.String.Basic
import Listener.Text.Order

namespace Listener

namespace Text

/-! ### The order of bytes -/

/-- The bytes of a text in UTF-8. -/
def bytes (s : String) : List UInt8 :=
  s.toUTF8.data.toList

lemma bytes_eq (s : String) : bytes s = s.toList.flatMap String.utf8EncodeChar := by
  conv => lhs; rw [← String.ofList_toList (s := s)]
  exact List.toList_data_toByteArray

/-- The bytes of a smaller character are smaller, whatever follows the two. -/
lemma utf8EncodeChar_append_lt {c d : Char} (h : c < d) (xs ys : List UInt8) :
    String.utf8EncodeChar c ++ xs < String.utf8EncodeChar d ++ ys := by
  have hlt : c.val.toNat < d.val.toNat := h
  have hmax : d.val.toNat < 0x110000 := by
    have := d.valid
    simp only [UInt32.isValidChar, Nat.isValidChar] at this
    omega
  -- written so, the bytes behind the first are the last digits of the code point in base 64
  have hsquare (n : Nat) : n / 4096 = n / 64 / 64 := (Nat.div_div_eq_div_mul n 64 64).symm
  have hcube (n : Nat) : n / 262144 = n / 64 / 64 / 64 := by
    rw [Nat.div_div_eq_div_mul, Nat.div_div_eq_div_mul]
  simp only [String.utf8EncodeChar, hsquare, hcube]
  generalize c.val.toNat = m at *
  generalize d.val.toNat = n at *
  -- more bytes come with a greater first one; as many bytes are compared digit by digit
  split_ifs <;>
    simp only [List.cons_append, List.nil_append, List.cons_lt_cons_iff, UInt8.lt_iff_toNat_lt,
      ← UInt8.toNat_inj, UInt8.toNat_ofNat'] <;>
    omega

lemma bytes_lt_bytes {s t : String} (h : s < t) : bytes s < bytes t := by
  rw [bytes_eq, bytes_eq]
  have hlex : List.Lex (· < ·) s.toList t.toList := h
  generalize s.toList = cs at hlex
  generalize t.toList = ds at hlex
  induction hlex with
  | @nil d ds =>
    obtain ⟨x, xs, hd⟩ := List.exists_cons_of_ne_nil (String.utf8EncodeChar_ne_nil (c := d))
    rw [List.flatMap_nil, List.flatMap_cons, hd]
    exact List.nil_lt_cons x _
  | cons _ ih => exact List.append_left_lt ih
  | rel h => exact utf8EncodeChar_append_lt h _ _

/-- Texts are ordered as their bytes are. -/
theorem bytes_lt_bytes_iff {s t : String} : bytes s < bytes t ↔ s < t := by
  refine ⟨fun h => ?_, bytes_lt_bytes⟩
  rcases lt_trichotomy s t with hlt | rfl | hgt
  · exact hlt
  · exact absurd h (List.lt_irrefl _)
  · exact absurd (bytes_lt_bytes hgt) (List.lt_asymm h)

/-- Texts are ordered as their bytes are, when equal ones count, too. -/
lemma bytes_le_bytes_iff {s t : String} : bytes s ≤ bytes t ↔ s ≤ t := by
  rw [← List.not_lt, bytes_lt_bytes_iff, not_lt]

/-! ### Ascending lists -/

/-- A list in strictly ascending order stays so when a text is put in its place. -/
lemma pairwise_insert {s : String} {ts : List String} (h : ts.Pairwise (· < ·)) :
    (insert s ts).Pairwise (· < ·) := by
  induction ts with
  | nil => exact List.pairwise_singleton _ s
  | cons t ts ih =>
    obtain ⟨ht, hts⟩ := List.pairwise_cons.mp h
    rw [insert]
    split_ifs with heq hlt
    · exact h
    · exact List.pairwise_cons.mpr
        ⟨List.forall_mem_cons.mpr ⟨hlt, fun u hu => hlt.trans (ht u hu)⟩, h⟩
    · have hgt : t < s := lt_of_le_of_ne (not_lt.mp hlt) (Ne.symm heq)
      refine List.pairwise_cons.mpr ⟨fun u hu => ?_, ih hts⟩
      rcases mem_insert.mp hu with rfl | hu
      · exact hgt
      · exact ht u hu

/-- The distinct texts of a list are in strictly ascending order. -/
theorem pairwise_sortedSet (ts : List String) : (sortedSet ts).Pairwise (· < ·) := by
  induction ts with
  | nil => exact List.Pairwise.nil
  | cons t ts ih => exact pairwise_insert ih

/-- There is no other list of them in strictly ascending order. -/
theorem eq_sortedSet {ts us : List String} (h : us.Pairwise (· < ·))
    (hmem : ∀ u, u ∈ us ↔ u ∈ ts) : us = sortedSet ts :=
  h.eq_of_mem_iff (pairwise_sortedSet ts) fun u => (hmem u).trans mem_sortedSet.symm

/-- Leaving out what repeats the text in front of it leaves each text of a list somewhere. -/
lemma mem_destutter {u : String} {ts : List String} :
    u ∈ ts.destutter (· ≠ ·) ↔ u ∈ ts := by
  cases ts with
  | nil => rfl
  | cons t ts =>
    rw [List.destutter_cons', List.mem_cons]
    induction ts generalizing t with
    | nil => simp
    | cons v ts ih =>
      by_cases h : t = v
      · rw [List.destutter'_cons_neg _ (not_not.mpr h), ih, List.mem_cons, h, or_self_left]
      · rw [List.destutter'_cons_pos _ h, List.mem_cons, ih, List.mem_cons]

/-- In a sorted list equal texts are next to each other, so none is left twice. -/
lemma pairwise_destutter {ts : List String} (h : ts.Pairwise (· ≤ ·)) :
    (ts.destutter (· ≠ ·)).Pairwise (· < ·) := by
  have hle := (h.sublist (ts.destutter_sublist (· ≠ ·))).isChain
  have hne := ts.isChain_destutter (· ≠ ·)
  rw [List.isChain_iff_forall_rel_of_append_cons_cons] at hle hne
  refine List.IsChain.pairwise (List.isChain_iff_forall_rel_of_append_cons_cons.mpr ?_)
  exact fun s t _ _ hts => lt_of_le_of_ne (hle hts) (hne hts)

/-- Sorting a list and leaving out each text that repeats the one in front of it gives the distinct
texts in ascending order. -/
theorem destutter_mergeSort (ts : List String) :
    (ts.mergeSort fun s t => bytes s ≤ bytes t).destutter (· ≠ ·) = sortedSet ts := by
  simp only [bytes_le_bytes_iff]
  have hsorted := List.pairwise_mergeSort' (· ≤ ·) ts
  exact eq_sortedSet (pairwise_destutter hsorted) fun u => mem_destutter.trans List.mem_mergeSort

/-! ### Lines -/

/-- The lines of a text, each ended by the next line end or the end of the text. -/
def lines (s : String) : List String :=
  (s.toList.splitOn '\n').map String.ofList

/-- Texts joined by line ends are the lines of the whole, if there are any and none has a line end
of its own. -/
theorem lines_intercalate {ts : List String} (h : ∀ t ∈ ts, '\n' ∉ t.toList) (hne : ts ≠ []) :
    lines ("\n".intercalate ts) = ts := by
  have hlines : ∀ cs ∈ ts.map String.toList, '\n' ∉ cs := List.forall_mem_map.mpr h
  rw [lines, String.toList_intercalate, String.toList_ofList]
  rw [List.splitOn_intercalate '\n' hlines (by simpa using hne), List.map_map]
  exact List.map_id'' (fun _ => String.ofList_toList) ts

end Text

end Listener
