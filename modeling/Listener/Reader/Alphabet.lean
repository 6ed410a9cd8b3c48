/-
The classes of characters that the grammar of forms is made of, and the blanks
between its tokens.

* `isGap`: the characters that only divide tokens; a comma is one of them.
* `isWord`: the characters of numbers, keywords and symbols.
* `skip`: a text without the blanks and comments at its start; `skip_eq_nil_or`
  says that what is left starts with neither, and `skip_length_le` that nothing
  is added.
* `word`, `afterWord`: the longest word at the start and what follows it.
-/
namespace Listener

namespace Reader

/-- A character that only divides tokens. -/
def isGap (c : Char) : Bool :=
  c == ' ' || c == '\t' || c == '\r' || c == '\n' || c == ','

/-- A character that may stand in a number, a keyword or a symbol. -/
def isWord (c : Char) : Bool :=
  !(isGap c || c == '(' || c == ')' || c == '[' || c == ']' || c == '\x7b' || c == '\x7d' ||
    c == '"' || c == ';' || c == '@' || c == '^' || c == '\x60' || c == '~' || c == '\\')

/-- A hexadecimal digit. -/
def isHexDigit (c : Char) : Bool :=
  c.isDigit || ('a' ≤ c && c ≤ 'f') || ('A' ≤ c && c ≤ 'F')

/-- An octal digit. -/
def isOctalDigit (c : Char) : Bool :=
  '0' ≤ c && c ≤ '7'

/-! ### Blanks and comments -/

/-- The text from its first token on. A comment, from a semicolon to the end of
its line, is skipped like a blank; `inComment` says that one has begun. -/
def skip (inComment : Bool) : List Char → List Char
  | [] => []
  | c :: cs =>
    if inComment then skip (!(c == '\n' || c == '\r')) cs
    else if isGap c then skip false cs
    else if c == ';' then skip true cs
    else c :: cs

/-- Skipping adds nothing. -/
theorem skip_length_le (inComment : Bool) (cs : List Char) :
    (skip inComment cs).length ≤ cs.length := by
  induction cs generalizing inComment with
  | nil => simp [skip]
  | cons c cs ih =>
    rw [skip]
    split
    · exact Nat.le_succ_of_le (ih _)
    · split
      · exact Nat.le_succ_of_le (ih _)
      · split
        · exact Nat.le_succ_of_le (ih _)
        · exact Nat.le_refl _

/-- What is left after skipping starts with neither a blank nor a comment. -/
theorem skip_eq_nil_or (inComment : Bool) (cs : List Char) :
    skip inComment cs = [] ∨
      ∃ c rest, skip inComment cs = c :: rest ∧ isGap c = false ∧ c ≠ ';' := by
  induction cs generalizing inComment with
  | nil => exact .inl rfl
  | cons c cs ih =>
    rw [skip]
    split
    · exact ih _
    · split
      · exact ih _
      · split
        · exact ih _
        · rename_i hgap hcomment
          exact .inr ⟨c, cs, rfl, by simpa using hgap, by simpa using hcomment⟩

/-- A text without tokens in the eyes of a person at a prompt: each line is
empty or a comment, any white space and commas aside. -/
def isBlank (white : Char → Bool) (inComment : Bool) : List Char → Bool
  | [] => true
  | c :: cs =>
    if inComment then isBlank white (c != '\n') cs
    else if white c || c == ',' then isBlank white false cs
    else if c == ';' then isBlank white true cs
    else false

/-! ### Words -/

/-- The longest word at the start of a text. -/
def word (cs : List Char) : List Char :=
  cs.takeWhile isWord

/-- What follows the longest word at the start of a text. -/
def afterWord (cs : List Char) : List Char :=
  cs.dropWhile isWord

/-- The word and what follows it make up the text. -/
theorem word_append_afterWord (cs : List Char) : word cs ++ afterWord cs = cs :=
  List.takeWhile_append_dropWhile

/-- A word is no longer than the text. -/
theorem afterWord_length_le (cs : List Char) : (afterWord cs).length ≤ cs.length := by
  have h := congrArg List.length (word_append_afterWord cs)
  rw [List.length_append] at h
  omega

end Reader

end Listener
