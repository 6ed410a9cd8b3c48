/-
Tokens: the pieces that a text of forms is cut into.

* `Scan`, `scan`: the token at the start of a text, or the place where the text
  fits no token; `scan_length_le` says that a token takes up some of it.
* `lex`: all tokens up to the end of the text or the first place that fits
  none, each with its two boundaries.
-/
import Listener.Reader.Numeral

namespace Listener

namespace Reader

/-! ### Lexemes -/

/-- The openings of collections and conditionals. -/
inductive Bracket where
  /-- `(` -/
  | list
  /-- `[` -/
  | vector
  /-- An opening brace. -/
  | map
  /-- An opening brace after a hash sign. -/
  | set
  /-- `#(` -/
  | anonFn
  /-- `#?(` -/
  | choice
  /-- `#?@(` -/
  | splice
  deriving DecidableEq

/-- The closings. -/
inductive Closer where
  /-- `)` -/
  | round
  /-- `]` -/
  | square
  /-- A closing brace. -/
  | curly
  deriving DecidableEq

/-- The closing that belongs to an opening. -/
def Bracket.closer : Bracket → Closer
  | .list | .anonFn | .choice | .splice => .round
  | .vector => .square
  | .map | .set => .curly

/-- The marks in front of one form that make another form of it. -/
inductive Sigil where
  /-- An apostrophe. -/
  | quote
  /-- A grave accent. -/
  | syntaxQuote
  /-- `~` -/
  | unquote
  /-- `~@` -/
  | unquoteSplicing
  /-- `@` -/
  | deref
  /-- A hash sign and an apostrophe. -/
  | var
  /-- A hash sign and a tag. -/
  | tag (text : List Char)
  /-- `#:` and the qualifier for the keys of the map that follows. -/
  | qualifier (text : List Char)

/-- The forms without parts. -/
inductive Atom where
  /-- A numeral. -/
  | number (text : List Char)
  /-- A floating-point number with a name of its own. -/
  | symbolic (value : Binary64)
  /-- A string, as it stands between the quotes. -/
  | string (raw : List Char)
  /-- A regular expression, as it stands between the quotes. -/
  | regex (raw : List Char)
  /-- A character, as it stands after the backslash. -/
  | character (body : List Char)
  /-- A keyword, without its first colon. -/
  | keyword (text : List Char)
  /-- A symbol or one of the words for nil and the truth values. -/
  | symbol (text : List Char)

/-- A token without its place. -/
inductive Lexeme where
  /-- An opening. -/
  | opener (b : Bracket)
  /-- A closing. -/
  | closer (c : Closer)
  /-- A mark in front of a form. -/
  | sigil (s : Sigil)
  /-- `^`, in front of metadata and the form that carries it. -/
  | metadata
  /-- `#_`, in front of a form that is left out. -/
  | discard
  /-- A form without parts. -/
  | atom (a : Atom)

/-- What stands at the start of a text. -/
inductive Scan where
  /-- A token and what follows it. -/
  | found (lexeme : Lexeme) (rest : List Char)
  /-- No token; what follows the place where one was looked for last. -/
  | stuck (rest : List Char)

/-! ### Single tokens -/

/-- The text up to the closing quote, and what follows the quote. A backslash
keeps the character after it from closing. -/
def quoted? : List Char → Option (List Char × List Char)
  | '"' :: cs => some ([], cs)
  | '\\' :: c :: cs => (quoted? cs).map fun (raw, rest) => ('\\' :: c :: raw, rest)
  | '\\' :: [] => none
  | c :: cs => (quoted? cs).map fun (raw, rest) => (c :: raw, rest)
  | [] => none

/-- The body of a character after its backslash, and what follows it: four
hexadecimal digits after `u`, up to three octal digits after `o`, a name of two
letters or more, or any one character. -/
def characterBody? (cs : List Char) : Option (List Char × List Char) :=
  let hex := (cs.drop 1).take 4
  let octal := ((cs.drop 1).take 3).takeWhile isOctalDigit
  let name := cs.takeWhile Char.isAlpha
  match cs with
  | [] => none
  | c :: rest =>
    if c = 'u' ∧ hex.length = 4 ∧ hex.all isHexDigit then some (c :: hex, rest.drop 4)
    else if c = 'o' ∧ octal ≠ [] then some (c :: octal, rest.drop octal.length)
    else if 2 ≤ name.length then some (name, cs.drop name.length)
    else some ([c], rest)

/-- The form that a word is. A word that starts with a digit must be a numeral,
and a keyword has a text after at most two colons. -/
def wordAtom? (w : List Char) : Option Atom :=
  match w with
  | [] => none
  | ':' :: [] => none
  | ':' :: ':' :: [] => none
  | ':' :: text => some (.keyword text)
  | c :: _ =>
    if (Numeral.ofWord? w).isSome then some (.number w)
    else if c.isDigit then none
    else some (.symbol w)

/-- The tokens that start with a hash sign, given what follows the sign. -/
def scanHash (cs : List Char) : Scan :=
  match cs with
  | '_' :: rest => .found .discard rest
  | '\'' :: rest => .found (.sigil .var) rest
  | '(' :: rest => .found (.opener .anonFn) rest
  | '\x7b' :: rest => .found (.opener .set) rest
  | '"' :: rest =>
    match quoted? rest with
    | some (raw, rest) => .found (.atom (.regex raw)) rest
    | none => .stuck cs
  | '#' :: 'I' :: 'n' :: 'f' :: rest => .found (.atom (.symbolic (.infinite false))) rest
  | '#' :: '-' :: 'I' :: 'n' :: 'f' :: rest => .found (.atom (.symbolic (.infinite true))) rest
  | '#' :: 'N' :: 'a' :: 'N' :: rest => .found (.atom (.symbolic .nan)) rest
  | '?' :: '@' :: rest =>
    match skip false rest with
    | '(' :: rest => .found (.opener .splice) rest
    | _ => .stuck cs
  | '?' :: rest =>
    match skip false rest with
    | '(' :: rest => .found (.opener .choice) rest
    | _ => .stuck cs
  | ':' :: rest =>
    let text := word (skip false rest)
    let rest := afterWord (skip false rest)
    if text = [] then .stuck rest
    else match skip false rest with
      | '\x7b' :: _ => .found (.sigil (.qualifier text)) rest
      | other => .stuck other
  | _ =>
    match skip false cs with
    | c :: rest =>
      if c.isAlpha then .found (.sigil (.tag (word (c :: rest)))) (afterWord (c :: rest))
      else .stuck (c :: rest)
    | [] => .stuck []

/-- The tokens that consist of one character, whatever follows it. -/
def single? : Char → Option Lexeme
  | '(' => some (.opener .list)
  | ')' => some (.closer .round)
  | '[' => some (.opener .vector)
  | ']' => some (.closer .square)
  | '\x7b' => some (.opener .map)
  | '\x7d' => some (.closer .curly)
  | '\'' => some (.sigil .quote)
  | '\x60' => some (.sigil .syntaxQuote)
  | '@' => some (.sigil .deref)
  | '^' => some .metadata
  | _ => none

/-- The token at the start of a text whose first character is given. -/
def scan (c : Char) (cs : List Char) : Scan :=
  match single? c with
  | some l => .found l cs
  | none =>
    if c = '~' then
      match cs with
      | '@' :: rest => .found (.sigil .unquoteSplicing) rest
      | _ => .found (.sigil .unquote) cs
    else if c = '"' then
      match quoted? cs with
      | some (raw, rest) => .found (.atom (.string raw)) rest
      | none => .stuck (c :: cs)
    else if c = '\\' then
      match characterBody? cs with
      | some (body, rest) => .found (.atom (.character body)) rest
      | none => .stuck (c :: cs)
    else if c = '#' then scanHash cs
    else
      match wordAtom? (word (c :: cs)) with
      | some a => .found (.atom a) (afterWord (c :: cs))
      | none => .stuck (c :: cs)

/-! ### Tokens are never empty -/

/-- What follows a quoted text is part of the text. -/
theorem quoted?_length_lt {cs raw rest : List Char} (h : quoted? cs = some (raw, rest)) :
    rest.length < cs.length := by
  fun_induction quoted? cs generalizing raw rest with
  | case1 cs =>
    cases h
    simp
  | case2 c cs ih =>
    obtain ⟨⟨r, s⟩, hs, hp⟩ := Option.map_eq_some_iff.mp h
    cases hp
    exact Nat.lt_succ_of_lt (Nat.lt_succ_of_lt (ih hs))
  | case3 => cases h
  | case4 c cs _ _ _ ih =>
    obtain ⟨⟨r, s⟩, hs, hp⟩ := Option.map_eq_some_iff.mp h
    cases hp
    exact Nat.lt_succ_of_lt (ih hs)
  | case5 => cases h

/-- What follows the body of a character is part of the text. -/
theorem characterBody?_length_le {cs body rest : List Char}
    (h : characterBody? cs = some (body, rest)) : rest.length ≤ cs.length := by
  cases cs with
  | nil => simp [characterBody?] at h
  | cons c cs =>
    simp only [characterBody?] at h
    split at h
    · cases h
      simp only [List.length_drop, List.length_cons]
      omega
    · split at h
      · cases h
        simp only [List.length_drop, List.length_cons]
        omega
      · split at h <;> cases h
        · simp only [List.length_drop, List.length_cons]
          omega
        · simp

/-- What follows a token after a hash sign is part of the text. -/
theorem scanHash_length_le {cs rest : List Char} {l : Lexeme}
    (h : scanHash cs = .found l rest) : rest.length ≤ cs.length := by
  have hskip (ds : List Char) := skip_length_le false ds
  simp only [scanHash] at h
  split at h <;> try (cases h; simp <;> omega)
  · split at h
    · rename_i hq
      cases h
      have := quoted?_length_lt hq
      simp only [List.length_cons]
      omega
    · cases h
  · split at h
    · rename_i ds _ _ hs
      cases h
      have := hskip ds
      rw [hs] at this
      simp only [List.length_cons] at this ⊢
      omega
    · cases h
  · split at h
    · rename_i ds _ _ _ hs
      cases h
      have := hskip ds
      rw [hs] at this
      simp only [List.length_cons] at this ⊢
      omega
    · cases h
  · rename_i ds
    split at h
    · cases h
    · split at h
      · cases h
        have := hskip ds
        have := afterWord_length_le (skip false ds)
        simp only [List.length_cons]
        omega
      · cases h
  · split at h
    · rename_i c ds hs
      split at h
      · cases h
        have := hskip cs
        have := afterWord_length_le (c :: ds)
        rw [← hs] at this ⊢
        omega
      · cases h
    · cases h

/-- What follows a token is part of the text after its first character. -/
theorem scan_length_le {c : Char} {cs rest : List Char} {l : Lexeme}
    (h : scan c cs = .found l rest) : rest.length ≤ cs.length := by
  unfold scan at h
  split at h
  · cases h
    exact Nat.le_refl _
  split at h
  · split at h <;> cases h
    · exact Nat.le_succ _
    · exact Nat.le_refl _
  split at h
  · split at h
    · rename_i hq
      cases h
      exact Nat.le_of_lt (quoted?_length_lt hq)
    · cases h
  split at h
  · split at h
    · rename_i hb
      cases h
      exact characterBody?_length_le hb
    · cases h
  split at h
  · exact scanHash_length_le h
  · split at h
    · rename_i a ha
      cases h
      have hw : isWord c = true := by
        by_cases hc : isWord c = true
        · exact hc
        · simp [word, hc, wordAtom?] at ha
      rw [afterWord, List.dropWhile_cons, if_pos hw]
      exact afterWord_length_le cs
    · cases h

/-! ### The tokens of a text -/

/-- A token with the numbers of characters in front of its start and its end. -/
structure Token where
  /-- What the token is. -/
  lexeme : Lexeme
  /-- The number of characters before the token. -/
  start : Nat
  /-- The number of characters up to the end of the token. -/
  stop : Nat

/-- The tokens of a text and how far they reach. -/
structure Lexed where
  /-- The tokens in order. -/
  tokens : List Token
  /-- Where the text ends, or where it fits no token. -/
  stop : Nat
  /-- Whether the whole text was cut into tokens. -/
  complete : Bool

/-- The tokens of a text that has `pos` characters in front of it. -/
def lex (pos : Nat) (cs : List Char) : Lexed :=
  match _hs : skip false cs with
  | [] => ⟨[], pos + cs.length, true⟩
  | c :: ds =>
    match _hf : scan c ds with
    | .stuck rest => ⟨[], pos + (cs.length - rest.length), false⟩
    | .found lexeme rest =>
      let start := pos + (cs.length - (ds.length + 1))
      let stop := pos + (cs.length - rest.length)
      let lexed := lex stop rest
      { lexed with tokens := ⟨lexeme, start, stop⟩ :: lexed.tokens }
termination_by cs.length
decreasing_by
  have h₁ := scan_length_le _hf
  have h₂ := skip_length_le false cs
  rw [_hs, List.length_cons] at h₂
  omega

end Reader

end Listener
