/-
White space, trimming and the length of a text in bytes.

* `isWhite`: the characters with the property White_Space.
* `trimEnd`: a text without the characters of a class at its end;
  `trimEnd_append` says that nothing but such characters is cut off.
* `byteLength`: the number of bytes of a text in UTF-8; `byteLength_append`
  says that it is additive, and `utf8ByteSize_ofList` that it counts the bytes of a string.
* `span_class`: characters of a class in front of a rest that starts with none.
* `splitFirst`: the two sides of the first occurrence of a character;
  `append_of_splitFirst` puts them together again, and `splitFirst_append` finds them.
-/
namespace Listener

namespace Text

/-! ### White space -/

/-- The code points with the property White_Space, as closed ranges. -/
def whiteRanges : List (Nat × Nat) :=
  [(0x09, 0x0D), (0x20, 0x20), (0x85, 0x85), (0xA0, 0xA0), (0x1680, 0x1680), (0x2000, 0x200A),
    (0x2028, 0x2029), (0x202F, 0x202F), (0x205F, 0x205F), (0x3000, 0x3000)]

/-- White space in the sense of the property White_Space. -/
def isWhite (c : Char) : Bool :=
  whiteRanges.any fun r => r.1 ≤ c.toNat && c.toNat ≤ r.2

/-! ### Trimming -/

/-- The text without the characters of the class `p` at its end. -/
def trimEnd (p : Char → Bool) (cs : List Char) : List Char :=
  (cs.reverse.dropWhile p).reverse

/-- What trimming cuts off the end consists of characters of the class. -/
theorem trimEnd_append (p : Char → Bool) (cs : List Char) :
    ∃ tail, cs = trimEnd p cs ++ tail ∧ ∀ c ∈ tail, p c = true := by
  refine ⟨(cs.reverse.takeWhile p).reverse, ?_, fun c hc => ?_⟩
  · rw [trimEnd, ← List.reverse_append, List.takeWhile_append_dropWhile, List.reverse_reverse]
  · rw [List.mem_reverse] at hc
    exact List.all_eq_true.mp (List.all_takeWhile) c hc

/-! ### Lengths in bytes -/

/-- The number of bytes of a text in UTF-8. -/
def byteLength : List Char → Nat
  | [] => 0
  | c :: cs => c.utf8Size + byteLength cs

/-- The length in bytes is additive. -/
theorem byteLength_append (xs ys : List Char) :
    byteLength (xs ++ ys) = byteLength xs + byteLength ys := by
  induction xs with
  | nil => simp [byteLength]
  | cons c xs ih => simp only [List.cons_append, byteLength, ih]; omega

/-- The bytes of a string are those of its characters. -/
theorem utf8ByteSize_ofList (cs : List Char) : (String.ofList cs).utf8ByteSize = byteLength cs := by
  induction cs with
  | nil => simp [byteLength]
  | cons c cs ih =>
    have hcons : String.ofList (c :: cs) = String.singleton c ++ String.ofList cs := by
      rw [String.singleton_eq_ofList, ← String.ofList_append, List.singleton_append]
    rw [hcons, String.utf8ByteSize_append, String.utf8ByteSize_singleton, ih, byteLength]

/-! ### Characters of a class -/

/-- Where characters of a class end, they and the rest are told apart. -/
theorem span_class {p : Char → Bool} (hds : ∀ c ∈ ds, p c = true) (rest : List Char)
    (hrest : ∀ c, rest.head? = some c → p c = false) :
    (ds ++ rest).takeWhile p = ds ∧ (ds ++ rest).dropWhile p = rest := by
  have hstop : rest.takeWhile p = [] ∧ rest.dropWhile p = rest := by
    cases rest with
    | nil => exact ⟨rfl, rfl⟩
    | cons c cs => simp [hrest c rfl]
  rw [List.takeWhile_append_of_pos hds, List.dropWhile_append_of_pos hds, hstop.1, hstop.2,
    List.append_nil]
  exact ⟨rfl, rfl⟩

/-! ### Cutting at a character -/

/-- The text before and after the first `c`, if there is one. -/
def splitFirst (c : Char) : List Char → Option (List Char × List Char)
  | [] => none
  | d :: ds =>
    if d = c then some ([], ds)
    else (splitFirst c ds).map fun (before, after) => (d :: before, after)

/-- The two sides of the first `c`, with it between them, are the text. -/
theorem append_of_splitFirst {c : Char} {cs before after : List Char}
    (h : splitFirst c cs = some (before, after)) : cs = before ++ c :: after := by
  induction cs generalizing before after with
  | nil => simp [splitFirst] at h
  | cons d ds ih =>
    by_cases hd : d = c
    · simp [splitFirst, hd] at h
      obtain ⟨rfl, rfl⟩ := h
      simp [hd]
    · simp only [splitFirst, hd, if_false, Option.map_eq_some_iff] at h
      obtain ⟨⟨b, a⟩, hb, hp⟩ := h
      cases hp
      simp [ih hb]

/-- There are no two sides just where the character does not occur. -/
theorem splitFirst_eq_none {c : Char} {cs : List Char} : splitFirst c cs = none ↔ c ∉ cs := by
  induction cs with
  | nil => simp [splitFirst]
  | cons d ds ih =>
    by_cases hd : d = c
    · simp [splitFirst, hd]
    · simp [splitFirst, hd, ih, Ne.symm hd]

/-- In front of its first occurrence the character does not occur. -/
theorem splitFirst_append {c : Char} {before : List Char} (h : c ∉ before) (after : List Char) :
    splitFirst c (before ++ c :: after) = some (before, after) := by
  induction before with
  | nil => simp [splitFirst]
  | cons d ds ih =>
    rw [List.mem_cons, not_or] at h
    simp [splitFirst, Ne.symm h.1, ih h.2]

end Text

end Listener
