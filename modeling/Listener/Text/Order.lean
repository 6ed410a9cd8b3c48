/-
Lists of texts in strictly ascending order.

* `insert`, `sortedSet`: the distinct texts of a list in ascending order;
  `mem_sortedSet` says that these are the texts of the list.
-/
namespace Listener

namespace Text

/-- The list with a text at its place, unless it is there already. -/
def insert (s : String) : List String → List String
  | [] => [s]
  | t :: ts => if s = t then t :: ts else if s < t then s :: t :: ts else t :: insert s ts

/-- A text is in the list it was put into, and so is what was there before. -/
theorem mem_insert {s u : String} {ts : List String} : u ∈ insert s ts ↔ u = s ∨ u ∈ ts := by
  induction ts with
  | nil => simp [insert]
  | cons t ts ih =>
    simp only [insert]
    split
    · rename_i h
      simp [h]
    · split
      · simp
      · simp only [List.mem_cons, ih]
        constructor
        · rintro (h | h | h)
          · exact .inr (.inl h)
          · exact .inl h
          · exact .inr (.inr h)
        · rintro (h | h | h)
          · exact .inr (.inl h)
          · exact .inl h
          · exact .inr (.inr h)

/-- The distinct texts of a list, in ascending order. -/
def sortedSet (ts : List String) : List String :=
  ts.foldr insert []

/-- The distinct texts are the texts of the list. -/
theorem mem_sortedSet {u : String} {ts : List String} : u ∈ sortedSet ts ↔ u ∈ ts := by
  induction ts with
  | nil => simp [sortedSet]
  | cons t ts ih =>
    rw [sortedSet, List.foldr_cons, mem_insert, ← sortedSet, ih, List.mem_cons]

end Text

end Listener
