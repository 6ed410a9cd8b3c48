/-
Dependency manifests, which say what the files of a library provide.

* `Entry`, `readEntry`: one entry, read at the start of a text. It starts with
  `goog.addDependency(`, then come a quoted path, a comma and a list in square
  brackets; what follows is not looked at.
* `entries`: all entries of a text, wherever they stand.
* `manifestPairs`: the names with the paths that provide them.
-/
import Listener.Form.Basic
import Listener.Source.Path

namespace Listener

namespace Source

/-! ### Finding things in a text -/

/-- What follows a given start of a text. -/
def afterStart? : List Char → List Char → Option (List Char)
  | [], cs => some cs
  | _ :: _, [] => none
  | p :: ps, c :: cs => if p = c then afterStart? ps cs else none

/-- What follows a given start is a part of the text. -/
theorem afterStart?_length {ps cs rest : List Char} (h : afterStart? ps cs = some rest) :
    cs.length = ps.length + rest.length := by
  induction ps generalizing cs with
  | nil => simp_all [afterStart?]
  | cons p ps ih =>
    cases cs with
    | nil => simp [afterStart?] at h
    | cons c cs =>
      simp only [afterStart?] at h
      split at h
      · have := ih h
        simp only [List.length_cons]
        omega
      · cases h

/-- Everything that is found in a text from left to right, each search going on
behind what was found last. What is found is never empty. -/
def findAll {α : Type} (find? : List Char → Option (α × List Char))
    (shrinks : ∀ cs a rest, find? cs = some (a, rest) → rest.length < cs.length) :
    List Char → List α
  | [] => []
  | c :: cs =>
    match h : find? (c :: cs) with
    | some (a, rest) =>
      have : rest.length < cs.length + 1 := shrinks _ _ _ h
      a :: findAll find? shrinks rest
    | none => findAll find? shrinks cs
termination_by cs => cs.length
decreasing_by
  · rw [List.length_cons]
    omega
  · exact Nat.lt_succ_self _

/-! ### Quoted texts -/

/-- Either kind of quote. -/
def isQuote (c : Char) : Bool :=
  c == '\'' || c == '"'

/-- A quoted text that is not empty, and what follows it. The quotes at its
ends may differ. -/
def quotedText? (cs : List Char) : Option (List Char × List Char) :=
  match cs with
  | [] => none
  | q :: cs =>
    let body := cs.takeWhile fun c => !isQuote c
    match cs.dropWhile fun c => !isQuote c with
    | _ :: rest => if isQuote q && !body.isEmpty then some (body, rest) else none
    | [] => none

/-- A quoted text takes up some of the text. -/
theorem quotedText?_shrinks (cs body rest : List Char) (h : quotedText? cs = some (body, rest)) :
    rest.length < cs.length := by
  cases cs with
  | nil => simp [quotedText?] at h
  | cons q cs =>
    simp only [quotedText?] at h
    split at h
    · rename_i d ds hd
      split at h
      · cases h
        have hlen := congrArg List.length
          (List.takeWhile_append_dropWhile (p := fun c => !isQuote c) (l := cs))
        rw [hd, List.length_append] at hlen
        simp only [List.length_cons] at hlen ⊢
        omega
      · cases h
    · cases h

/-! ### Entries -/

/-- A path and the text between the brackets that lists what it provides. -/
structure Entry where
  /-- The path as it stands between its quotes. -/
  path : List Char
  /-- The text between the brackets. -/
  provides : List Char

/-- The text without white space at its start. -/
def skipWhite (cs : List Char) : List Char :=
  cs.dropWhile Text.isWhite

/-- What every entry starts with. -/
def entryStart : List Char := "goog.addDependency(".toList

/-- The entry that a text starts with, and what follows its list. -/
def readEntry (cs : List Char) : Option (Entry × List Char) :=
  match afterStart? entryStart cs with
  | none => none
  | some cs =>
    match quotedText? (skipWhite cs) with
    | none => none
    | some (path, cs) =>
      match afterStart? [','] (skipWhite cs) with
      | none => none
      | some cs =>
        match afterStart? ['['] (skipWhite cs) with
        | none => none
        | some cs =>
          match afterStart? [']'] (cs.dropWhile (· != ']')) with
          | none => none
          | some rest => some (⟨path, cs.takeWhile (· != ']')⟩, rest)

/-- What is left of a text after a class of characters is no longer. -/
theorem length_dropWhile_le (p : Char → Bool) (cs : List Char) :
    (cs.dropWhile p).length ≤ cs.length := by
  induction cs with
  | nil => simp
  | cons c cs ih =>
    rw [List.dropWhile_cons]
    split
    · exact Nat.le_succ_of_le ih
    · exact Nat.le_refl _

/-- An entry takes up some of the text. -/
theorem readEntry_shrinks (cs : List Char) (e : Entry) (rest : List Char)
    (h : readEntry cs = some (e, rest)) : rest.length < cs.length := by
  simp only [readEntry] at h
  split at h
  · cases h
  · rename_i cs₁ h₁
    split at h
    · cases h
    · rename_i path cs₂ h₂
      split at h
      · cases h
      · rename_i cs₃ h₃
        split at h
        · cases h
        · rename_i cs₄ h₄
          split at h
          · cases h
          · rename_i cs₅ h₅
            cases h
            have l₁ := afterStart?_length h₁
            have l₂ := quotedText?_shrinks _ _ _ h₂
            have l₃ := afterStart?_length h₃
            have l₄ := afterStart?_length h₄
            have l₅ := afterStart?_length h₅
            have w₁ := length_dropWhile_le Text.isWhite cs₁
            have w₂ := length_dropWhile_le Text.isWhite cs₂
            have w₃ := length_dropWhile_le Text.isWhite cs₃
            have w₄ := length_dropWhile_le (· != ']') cs₄
            simp only [skipWhite] at l₂ l₃ l₄
            omega

/-- The entries of a text, wherever they stand. -/
def entries (cs : List Char) : List Entry :=
  findAll readEntry readEntry_shrinks cs

/-- The names that an entry lists. -/
def Entry.names (e : Entry) : List (List Char) :=
  findAll quotedText? quotedText?_shrinks e.provides

/-- The text without the steps to the same directory at its start. -/
def trimHere : List Char → List Char
  | '.' :: '/' :: cs => trimHere cs
  | cs => cs

/-- The path of an entry from the directory above the library's own. -/
def Entry.fullPath (e : Entry) : String :=
  joinPath "goog" (String.ofList (trimHere e.path))

/-- The names that a manifest lists, with the paths that provide them, in order. -/
def manifestPairs (text : String) : List (Symbol × String) :=
  (entries text.toList).flatMap fun e =>
    e.names.map fun name => (⟨String.ofList name⟩, e.fullPath)

end Source

end Listener
