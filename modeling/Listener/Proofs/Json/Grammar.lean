/-
The grammar of JSON texts.

* `ValueText`, `PaddedText`, `ItemsText`, `MemberText`, `MembersText`: the texts of a value, of a
  value between blanks, and of what stands between the brackets of lists and objects.
* `value?_of_text`, `items?_of_text`, `members?_of_text`: texts of the grammar are read as what
  they are texts of, in as many steps as they have characters.
* `grammar_sound`: what is read has the grammar.
* `parse?_eq_some_iff`: a text is read as a value exactly if it is a text of the value with nothing
  but blanks around it.
* `Proper`, `parse?_print`: a value that can be written is read from its text.
-/
import Listener.Proofs.Json.Tokens
import Mathlib.Tactic.Lemma

namespace Listener

namespace Json

/-! ### Texts -/

/-- Characters that only divide tokens. -/
def IsBlanks (ws : List Char) : Prop :=
  ∀ c ∈ ws, isSpace c = true

mutual

/-- The text is a text of the value, with nothing around it. -/
inductive ValueText : Json → List Char → Prop
  | null : ValueText .null "null".toList
  | bool (b : Bool) : ValueText (.bool b) (if b then "true".toList else "false".toList)
  | number {text : List Char} (h : IsNumber text) : ValueText (.number text) text
  | string {raw : List Char} {contents : Option (List Char)} (h : Contents raw contents) :
      ValueText (.string contents) ('"' :: (raw ++ ['"']))
  | emptyArray {ws : List Char} (h : IsBlanks ws) : ValueText (.array []) ('[' :: (ws ++ [']']))
  | array {vs : List Json} {text : List Char} (h : ItemsText vs text) :
      ValueText (.array vs) ('[' :: (text ++ [']']))
  | emptyObject {ws : List Char} (h : IsBlanks ws) :
      ValueText (.object []) ('\x7b' :: (ws ++ ['\x7d']))
  | object {ms : List (Option (List Char) × Json)} {text : List Char} (h : MembersText ms text) :
      ValueText (.object ms) ('\x7b' :: (text ++ ['\x7d']))

/-- The text is a text of the value with blanks around it. -/
inductive PaddedText : Json → List Char → Prop
  | mk {v : Json} {ws xs ws' : List Char} (h : IsBlanks ws) (hv : ValueText v xs)
      (h' : IsBlanks ws') : PaddedText v (ws ++ (xs ++ ws'))

/-- The text consists of texts of the values, at least one, divided by commas. -/
inductive ItemsText : List Json → List Char → Prop
  | one {v : Json} {xs : List Char} (h : PaddedText v xs) : ItemsText [v] xs
  | more {v : Json} {vs : List Json} {xs text : List Char} (h : PaddedText v xs)
      (hvs : ItemsText vs text) : ItemsText (v :: vs) (xs ++ ',' :: text)

/-- The text is the text of a key, a colon, and a text of the value. -/
inductive MemberText : Option (List Char) × Json → List Char → Prop
  | mk {key : Option (List Char)} {v : Json} {ws raw ws' xs : List Char} (h : IsBlanks ws)
      (hkey : Contents raw key) (h' : IsBlanks ws') (hv : PaddedText v xs) :
      MemberText (key, v) (ws ++ '"' :: (raw ++ '"' :: (ws' ++ ':' :: xs)))

/-- The text consists of texts of the members, at least one, divided by commas. -/
inductive MembersText : List (Option (List Char) × Json) → List Char → Prop
  | one {m : Option (List Char) × Json} {xs : List Char} (h : MemberText m xs) :
      MembersText [m] xs
  | more {m : Option (List Char) × Json} {ms : List (Option (List Char) × Json)}
      {xs text : List Char} (h : MemberText m xs) (hms : MembersText ms text) :
      MembersText (m :: ms) (xs ++ ',' :: text)

end

/-! ### Blanks -/

/-- A token that starts a text has nothing to skip in front of it. -/
lemma skipSpace_cons {c : Char} (h : isSpace c = false) (cs : List Char) :
    skipSpace (c :: cs) = c :: cs := by
  rw [skipSpace, List.dropWhile_cons_of_neg]
  simp [h]

lemma skipSpace_blanks {ws : List Char} (h : IsBlanks ws) (cs : List Char) :
    skipSpace (ws ++ cs) = skipSpace cs :=
  List.dropWhile_append_of_pos h

lemma exists_blanks (cs : List Char) : ∃ ws, IsBlanks ws ∧ cs = ws ++ skipSpace cs :=
  ⟨cs.takeWhile isSpace, List.all_eq_true.mp List.all_takeWhile,
    List.takeWhile_append_dropWhile.symm⟩

lemma value?_blanks {ws : List Char} (h : IsBlanks ws) (fuel : Nat) (cs : List Char) :
    value? fuel (ws ++ cs) = value? fuel cs := by
  cases fuel with
  | zero => rfl
  | succ fuel => rw [value?, value?, skipSpace_blanks h]

lemma items?_skipSpace (fuel : Nat) (cs : List Char) :
    items? fuel (skipSpace cs) = items? fuel cs := by
  obtain ⟨ws, hws, hcs⟩ := exists_blanks cs
  conv => rhs; rw [hcs]
  cases fuel with
  | zero => rfl
  | succ fuel => rw [items?, items?, value?_blanks hws]

lemma members?_skipSpace (fuel : Nat) (cs : List Char) :
    members? fuel (skipSpace cs) = members? fuel cs := by
  obtain ⟨ws, hws, hcs⟩ := exists_blanks cs
  conv => rhs; rw [hcs]
  cases fuel with
  | zero => rfl
  | succ fuel => rw [members?, members?, skipSpace_blanks hws]

/-- No number goes on with blanks, or behind them. -/
lemma EndsNumber.blanks {rest : List Char} (h : EndsNumber rest) {ws : List Char}
    (hws : IsBlanks ws) : EndsNumber (ws ++ rest) := by
  cases ws with
  | nil => exact h
  | cons c ws =>
    rintro _ ⟨⟩
    have hc : isSpace c = true := hws c List.mem_cons_self
    simp only [isSpace, Bool.or_eq_true, beq_iff_eq, or_assoc] at hc
    rcases hc with rfl | rfl | rfl | rfl <;> exact ⟨rfl, by decide, by decide, by decide⟩

/-! ### Texts of the grammar are read -/

/-- A minus and digits are no other characters. -/
lemma ne_of_number {c d : Char} (hc : c = '-' ∨ c.isDigit = true) (hminus : d ≠ '-')
    (hdigit : d.isDigit = false) : c ≠ d := by
  rintro rfl
  rcases hc with rfl | hc
  · exact hminus rfl
  · rw [hdigit] at hc
    cases hc

lemma isSpace_of_number {c : Char} (hc : c = '-' ∨ c.isDigit = true) : isSpace c = false := by
  have h (d : Char) := ne_of_number (d := d) hc
  simp only [isSpace, Bool.or_eq_false_iff, beq_eq_false_iff_ne]
  exact ⟨⟨⟨h ' ' (by decide) rfl, h '\n' (by decide) rfl⟩, h '\t' (by decide) rfl⟩,
    h '\r' (by decide) rfl⟩

lemma ValueText.exists_cons {v : Json} {xs : List Char} (h : ValueText v xs) :
    ∃ c cs, xs = c :: cs ∧ isSpace c = false ∧ c ≠ ']' := by
  cases h with
  | null => exact ⟨'n', _, rfl, rfl, by decide⟩
  | bool b => cases b <;> exact ⟨_, _, rfl, rfl, by decide⟩
  | number h =>
    obtain ⟨c, cs, rfl, hc⟩ := h.exists_cons
    exact ⟨c, cs, rfl, isSpace_of_number hc, ne_of_number hc (by decide) rfl⟩
  | string h => exact ⟨'"', _, rfl, rfl, by decide⟩
  | emptyArray h => exact ⟨'[', _, rfl, rfl, by decide⟩
  | array h => exact ⟨'[', _, rfl, rfl, by decide⟩
  | emptyObject h => exact ⟨'\x7b', _, rfl, rfl, by decide⟩
  | object h => exact ⟨'\x7b', _, rfl, rfl, by decide⟩

lemma value?_number {text : List Char} (h : IsNumber text) {rest : List Char}
    (hrest : EndsNumber rest) (fuel : Nat) :
    value? (fuel + 1) (text ++ rest) = some (.number text, rest) := by
  have hread := numberText?_of_isNumber h hrest
  obtain ⟨c, cs, rfl, hc⟩ := h.exists_cons
  have hne (d : Char) := ne_of_number (d := d) hc
  rw [List.cons_append] at hread ⊢
  rw [value?, skipSpace_cons (isSpace_of_number hc)]
  split
  · rename_i he
    exact absurd (List.cons.inj he).1 (hne 'n' (by decide) rfl)
  · rename_i he
    exact absurd (List.cons.inj he).1 (hne 't' (by decide) rfl)
  · rename_i he
    exact absurd (List.cons.inj he).1 (hne 'f' (by decide) rfl)
  · rename_i he
    exact absurd (List.cons.inj he).1 (hne '"' (by decide) rfl)
  · rename_i he
    exact absurd (List.cons.inj he).1 (hne '[' (by decide) rfl)
  · rename_i he
    exact absurd (List.cons.inj he).1 (hne '\x7b' (by decide) rfl)
  · rw [hread]
    rfl

/-- What is read from the opening bracket of a list on. -/
lemma value?_bracket (fuel : Nat) (cs : List Char) :
    value? (fuel + 1) ('[' :: cs) =
      match skipSpace cs with
      | ']' :: rest => some (.array [], rest)
      | rest => (items? fuel rest).map fun (items, rest) => (.array items, rest) :=
  rfl

/-- What is read from the opening brace of an object on. -/
lemma value?_brace (fuel : Nat) (cs : List Char) :
    value? (fuel + 1) ('\x7b' :: cs) =
      match skipSpace cs with
      | '\x7d' :: rest => some (.object [], rest)
      | rest => (members? fuel rest).map fun (members, rest) => (.object members, rest) :=
  rfl

lemma value?_items {cs : List Char} (h : ∀ ds, skipSpace cs ≠ ']' :: ds) (fuel : Nat) :
    value? (fuel + 1) ('[' :: cs) =
      (items? fuel cs).map fun (items, rest) => (.array items, rest) := by
  rw [value?_bracket]
  split
  · rename_i hclose
    exact absurd hclose (h _)
  · rw [items?_skipSpace]

lemma value?_object {cs : List Char} (h : ∀ ds, skipSpace cs ≠ '\x7d' :: ds) (fuel : Nat) :
    value? (fuel + 1) ('\x7b' :: cs) =
      (members? fuel cs).map fun (members, rest) => (.object members, rest) := by
  rw [value?_brace]
  split
  · rename_i hclose
    exact absurd hclose (h _)
  · rw [members?_skipSpace]

/-- The items of a list do not start with its closing bracket. -/
lemma ItemsText.skipSpace_ne {vs : List Json} {text : List Char} (h : ItemsText vs text)
    (rest ds : List Char) : skipSpace (text ++ rest) ≠ ']' :: ds := by
  have hpadded {v : Json} {xs : List Char} (hv : PaddedText v xs) (ys : List Char) :
      skipSpace (xs ++ ys) ≠ ']' :: ds := by
    obtain ⟨hws, hv, -⟩ := hv
    obtain ⟨c, cs, rfl, hspace, hc⟩ := hv.exists_cons
    rw [List.append_assoc, skipSpace_blanks hws, List.cons_append, List.cons_append,
      skipSpace_cons hspace]
    exact fun he => hc (List.cons.inj he).1
  cases h with
  | one hv => exact hpadded hv rest
  | more hv _ =>
    rw [List.append_assoc]
    exact hpadded hv _

/-- The members of an object do not start with its closing brace. -/
lemma MembersText.skipSpace_ne {ms : List (Option (List Char) × Json)} {text : List Char}
    (h : MembersText ms text) (rest ds : List Char) : skipSpace (text ++ rest) ≠ '\x7d' :: ds := by
  have hmember {m : Option (List Char) × Json} {xs : List Char} (hm : MemberText m xs)
      (ys : List Char) : skipSpace (xs ++ ys) ≠ '\x7d' :: ds := by
    obtain ⟨hws, -, -, -⟩ := hm
    rw [List.append_assoc, skipSpace_blanks hws, List.cons_append, skipSpace_cons rfl]
    exact fun he => absurd (List.cons.inj he).1 (by decide)
  cases h with
  | one hm => exact hmember hm rest
  | more hm _ =>
    rw [List.append_assoc]
    exact hmember hm _

lemma endsNumber_nil : EndsNumber [] := nofun

lemma endsNumber_cons {c : Char} (h : c = ',' ∨ c = ']' ∨ c = '\x7d') (cs : List Char) :
    EndsNumber (c :: cs) := by
  rintro _ ⟨⟩
  rcases h with rfl | rfl | rfl <;> exact ⟨rfl, by decide, by decide, by decide⟩

lemma value?_string {raw : List Char} {contents : Option (List Char)} (h : Contents raw contents)
    (fuel : Nat) (rest : List Char) :
    value? (fuel + 1) ('"' :: (raw ++ '"' :: rest)) = some (.string contents, rest) := by
  rw [value?, skipSpace_cons (by decide)]
  simp only [stringBody?_of_contents h, Option.map_some]

/-- An item is read up to what divides it from the next one or closes the list. -/
lemma items?_item {fuel : Nat} {cs behind : List Char} {v : Json}
    (hread : value? fuel cs = some (v, behind)) :
    items? (fuel + 1) cs =
      match skipSpace behind with
      | ',' :: rest => (items? fuel rest).map fun (vs, rest) => (v :: vs, rest)
      | ']' :: rest => some ([v], rest)
      | _ => none := by
  rw [items?, hread]
  simp only [Option.bind_eq_bind, Option.bind_some, Option.map_eq_bind]
  rfl

/-- A member is read up to what divides it from the next one or closes the object. -/
lemma members?_item {fuel : Nat} {ws raw ws' cs behind : List Char}
    {key : Option (List Char)} {v : Json} (hws : IsBlanks ws) (hkey : Contents raw key)
    (hws' : IsBlanks ws') (hread : value? fuel cs = some (v, behind)) :
    members? (fuel + 1) (ws ++ '"' :: (raw ++ '"' :: (ws' ++ ':' :: cs))) =
      match skipSpace behind with
      | ',' :: rest => (members? fuel rest).map fun (ms, rest) => ((key, v) :: ms, rest)
      | '\x7d' :: rest => some ([(key, v)], rest)
      | _ => none := by
  rw [members?, skipSpace_blanks hws, skipSpace_cons (by decide)]
  simp only [stringBody?_of_contents hkey, Option.bind_eq_bind, Option.bind_some]
  rw [skipSpace_blanks hws', skipSpace_cons (by decide)]
  simp only [hread, Option.bind_some, Option.map_eq_bind]
  rfl

mutual

/-- The text of a value is read as the value, whatever follows it; where it is a number, the rest
must end the number. -/
theorem value?_of_text : ∀ {v : Json} {xs : List Char}, ValueText v xs →
    ∀ {fuel : Nat} {rest : List Char}, (∀ text, v = .number text → EndsNumber rest) →
      xs.length ≤ fuel → value? fuel (xs ++ rest) = some (v, rest)
  | _, _, h, 0, _, _, hfuel => by
    obtain ⟨c, cs, rfl, -⟩ := h.exists_cons
    cases hfuel
  | _, _, .null, _ + 1, _, _, _ => rfl
  | _, _, .bool b, _ + 1, _, _, _ => by cases b <;> rfl
  | _, _, .number h, fuel + 1, _, hrest, _ => value?_number h (hrest _ rfl) fuel
  | _, _, .string h, fuel + 1, rest, _, _ => by
    rw [List.cons_append, List.append_assoc]
    exact value?_string h fuel rest
  | _, _, .emptyArray h, fuel + 1, rest, _, _ => by
    rw [List.cons_append, value?_bracket, List.append_assoc, skipSpace_blanks h]
    rfl
  | _, _, .array h, fuel + 1, rest, _, hfuel => by
    simp only [List.length_append, List.length_cons] at hfuel
    rw [List.cons_append, List.append_assoc, List.singleton_append,
      value?_items (h.skipSpace_ne _), items?_of_text h (by omega)]
    rfl
  | _, _, .emptyObject h, fuel + 1, rest, _, _ => by
    rw [List.cons_append, value?_brace, List.append_assoc, skipSpace_blanks h]
    rfl
  | _, _, .object h, fuel + 1, rest, _, hfuel => by
    simp only [List.length_append, List.length_cons] at hfuel
    rw [List.cons_append, List.append_assoc, List.singleton_append,
      value?_object (h.skipSpace_ne _), members?_of_text h (by omega)]
    rfl

/-- Blanks around a value make no difference. -/
lemma value?_of_padded : ∀ {v : Json} {xs : List Char}, PaddedText v xs →
    ∀ {fuel : Nat} {rest : List Char}, (∀ text, v = .number text → EndsNumber rest) →
      xs.length ≤ fuel →
        ∃ behind, value? fuel (xs ++ rest) = some (v, behind) ∧ skipSpace behind = skipSpace rest
  | _, _, @PaddedText.mk _ _ _ ws' h hv h', fuel, rest, hrest, hfuel => by
    simp only [List.length_append] at hfuel
    refine ⟨ws' ++ rest, ?_, skipSpace_blanks h' rest⟩
    rw [List.append_assoc, value?_blanks h, List.append_assoc]
    exact value?_of_text hv (fun text he => (hrest text he).blanks h') (by omega)

/-- Items are read up to the closing bracket. -/
theorem items?_of_text : ∀ {vs : List Json} {text : List Char}, ItemsText vs text →
    ∀ {fuel : Nat} {rest : List Char}, text.length < fuel →
      items? fuel (text ++ ']' :: rest) = some (vs, rest)
  | _, _, .one hv, fuel + 1, rest, hfuel => by
    obtain ⟨behind, hread, hskip⟩ :=
      value?_of_padded hv (fun _ _ => endsNumber_cons (.inr (.inl rfl)) rest)
        (Nat.le_of_lt_succ hfuel)
    rw [items?_item hread, hskip, skipSpace_cons rfl]
    rfl
  | _, _, @ItemsText.more _ _ xs text hv hvs, fuel + 1, rest, hfuel => by
    simp only [List.length_append, List.length_cons] at hfuel
    obtain ⟨behind, hread, hskip⟩ :=
      value?_of_padded hv (fun _ _ => endsNumber_cons (.inl rfl) (text ++ ']' :: rest))
        (show xs.length ≤ fuel by omega)
    rw [List.append_assoc, List.cons_append, items?_item hread, hskip, skipSpace_cons rfl]
    simp only [items?_of_text hvs (show text.length < fuel by omega), Option.map_some]

/-- Members are read up to the closing brace. -/
theorem members?_of_text : ∀ {ms : List (Option (List Char) × Json)} {text : List Char},
    MembersText ms text → ∀ {fuel : Nat} {rest : List Char}, text.length < fuel →
      members? fuel (text ++ '\x7d' :: rest) = some (ms, rest)
  | _, _, .one (@MemberText.mk _ _ _ _ _ xs h hkey h' hv), fuel + 1, rest, hfuel => by
    simp only [List.length_append, List.length_cons] at hfuel
    obtain ⟨behind, hread, hskip⟩ :=
      value?_of_padded hv (fun _ _ => endsNumber_cons (.inr (.inr rfl)) rest)
        (show xs.length ≤ fuel by omega)
    simp only [List.append_assoc, List.cons_append]
    rw [members?_item h hkey h' hread, hskip, skipSpace_cons rfl]
    rfl
  | _, _, @MembersText.more _ _ _ text (@MemberText.mk _ _ _ _ _ xs h hkey h' hv) hms, fuel + 1,
      rest, hfuel => by
    simp only [List.length_append, List.length_cons] at hfuel
    obtain ⟨behind, hread, hskip⟩ :=
      value?_of_padded hv (fun _ _ => endsNumber_cons (.inl rfl) (text ++ '\x7d' :: rest))
        (show xs.length ≤ fuel by omega)
    simp only [List.append_assoc, List.cons_append]
    rw [members?_item h hkey h' hread, hskip, skipSpace_cons rfl]
    simp only [members?_of_text hms (show text.length < fuel by omega), Option.map_some]

end

/-! ### What is read has the grammar -/

/-- What is read as a value is one, with blanks in front. -/
def ValueSound (fuel : Nat) : Prop :=
  ∀ {cs rest : List Char} {v : Json}, value? fuel cs = some (v, rest) →
    ∃ ws xs, IsBlanks ws ∧ ValueText v xs ∧ cs = ws ++ (xs ++ rest)

/-- What is read as items consists of items up to a closing bracket. -/
def ItemsSound (fuel : Nat) : Prop :=
  ∀ {cs rest : List Char} {vs : List Json}, items? fuel cs = some (vs, rest) →
    ∃ text, ItemsText vs text ∧ cs = text ++ ']' :: rest

/-- What is read as members consists of members up to a closing brace. -/
def MembersSound (fuel : Nat) : Prop :=
  ∀ {cs rest : List Char} {ms : List (Option (List Char) × Json)},
    members? fuel cs = some (ms, rest) → ∃ text, MembersText ms text ∧ cs = text ++ '\x7d' :: rest

lemma ItemsSound.array {fuel : Nat} (hitems : ItemsSound fuel) {inside rest : List Char}
    {v : Json} (h : value? (fuel + 1) ('[' :: inside) = some (v, rest)) :
    ∃ xs, ValueText v xs ∧ '[' :: inside = xs ++ rest := by
  obtain ⟨ws, hws, hinside⟩ := exists_blanks inside
  rw [value?_bracket] at h
  split at h
  · rename_i hclose
    cases h
    refine ⟨_, .emptyArray hws, ?_⟩
    conv => lhs; rw [hinside, hclose]
    rw [List.cons_append, List.append_assoc]
    rfl
  · rw [items?_skipSpace] at h
    obtain ⟨⟨vs, rest'⟩, hvs, he⟩ := Option.map_eq_some_iff.mp h
    cases he
    obtain ⟨text, htext, rfl⟩ := hitems hvs
    refine ⟨_, .array htext, ?_⟩
    rw [List.cons_append, List.append_assoc]
    rfl

/-- What is read from an opening brace on is an object. -/
lemma MembersSound.object {fuel : Nat} (hmembers : MembersSound fuel) {inside rest : List Char}
    {v : Json} (h : value? (fuel + 1) ('\x7b' :: inside) = some (v, rest)) :
    ∃ xs, ValueText v xs ∧ '\x7b' :: inside = xs ++ rest := by
  obtain ⟨ws, hws, hinside⟩ := exists_blanks inside
  rw [value?_brace] at h
  split at h
  · rename_i hclose
    cases h
    refine ⟨_, .emptyObject hws, ?_⟩
    conv => lhs; rw [hinside, hclose]
    rw [List.cons_append, List.append_assoc]
    rfl
  · rw [members?_skipSpace] at h
    obtain ⟨⟨ms, rest'⟩, hms, he⟩ := Option.map_eq_some_iff.mp h
    cases he
    obtain ⟨text, htext, rfl⟩ := hmembers hms
    refine ⟨_, .object htext, ?_⟩
    rw [List.cons_append, List.append_assoc]
    rfl

lemma valueSound_succ {fuel : Nat} (hitems : ItemsSound fuel) (hmembers : MembersSound fuel) :
    ValueSound (fuel + 1) := by
  intro cs rest v h
  obtain ⟨ws, hws, hcs⟩ := exists_blanks cs
  suffices htext : ∃ xs, ValueText v xs ∧ skipSpace cs = xs ++ rest by
    obtain ⟨xs, hv, hxs⟩ := htext
    rw [hxs] at hcs
    exact ⟨ws, xs, hws, hv, hcs⟩
  rw [value?] at h
  split at h
  · rename_i hnull
    cases h
    exact ⟨_, .null, hnull⟩
  · rename_i htrue
    cases h
    exact ⟨_, .bool true, htrue⟩
  · rename_i hfalse
    cases h
    exact ⟨_, .bool false, hfalse⟩
  · rename_i hquote
    obtain ⟨⟨contents, rest'⟩, hbody, he⟩ := Option.map_eq_some_iff.mp h
    cases he
    obtain ⟨raw, rfl, hraw⟩ := contents_of_stringBody? hbody
    refine ⟨_, .string hraw, ?_⟩
    rw [hquote, List.cons_append, List.append_assoc]
    rfl
  · rename_i inside hopen
    rw [hopen]
    exact hitems.array h
  · rename_i inside hopen
    rw [hopen]
    exact hmembers.object h
  · obtain ⟨⟨text, rest'⟩, hnumber, he⟩ := Option.map_eq_some_iff.mp h
    cases he
    obtain ⟨htext, heq⟩ := isNumber_of_numberText? hnumber
    exact ⟨_, .number htext, heq⟩

lemma ValueSound.padded {fuel : Nat} (hvalue : ValueSound fuel) {cs behind : List Char} {v : Json}
    (h : value? fuel cs = some (v, behind)) :
    ∃ xs, PaddedText v xs ∧ cs = xs ++ skipSpace behind := by
  obtain ⟨ws, xs, hws, hv, rfl⟩ := hvalue h
  obtain ⟨ws', hws', hbehind⟩ := exists_blanks behind
  refine ⟨_, .mk hws hv hws', ?_⟩
  conv => lhs; rw [hbehind]
  simp only [List.append_assoc]

lemma itemsSound_succ {fuel : Nat} (hvalue : ValueSound fuel) (hitems : ItemsSound fuel) :
    ItemsSound (fuel + 1) := by
  intro cs rest vs h
  have hread := h
  rw [items?] at hread
  obtain ⟨⟨v, behind⟩, hread, -⟩ := Option.bind_eq_some_iff.mp hread
  obtain ⟨xs, hv, rfl⟩ := hvalue.padded hread
  rw [items?_item hread] at h
  split at h
  · rename_i more hcomma
    obtain ⟨⟨vs, rest'⟩, hvs, he⟩ := Option.map_eq_some_iff.mp h
    cases he
    obtain ⟨text, htext, rfl⟩ := hitems hvs
    refine ⟨_, .more hv htext, ?_⟩
    rw [hcomma, List.append_assoc]
    rfl
  · rename_i hclose
    cases h
    exact ⟨_, .one hv, by rw [hclose]⟩
  · cases h

/-- Members that are read start with a key, a colon and a value. -/
lemma members?_start {fuel : Nat} {cs rest : List Char}
    {ms : List (Option (List Char) × Json)} (h : members? (fuel + 1) cs = some (ms, rest)) :
    ∃ ws raw ws' inside key v behind, IsBlanks ws ∧ Contents raw key ∧ IsBlanks ws' ∧
      value? fuel inside = some (v, behind) ∧
      cs = ws ++ '"' :: (raw ++ '"' :: (ws' ++ ':' :: inside)) := by
  obtain ⟨ws, hws, hcs⟩ := exists_blanks cs
  rw [members?] at h
  split at h
  · rename_i hquote
    obtain ⟨⟨key, behindKey⟩, hbody, hvalue⟩ := Option.bind_eq_some_iff.mp h
    obtain ⟨raw, rfl, hraw⟩ := contents_of_stringBody? hbody
    obtain ⟨ws', hws', hbehindKey⟩ := exists_blanks behindKey
    dsimp only at hvalue
    split at hvalue
    · rename_i inside hcolon
      obtain ⟨⟨v, behind⟩, hread, -⟩ := Option.bind_eq_some_iff.mp hvalue
      refine ⟨ws, raw, ws', inside, key, v, behind, hws, hraw, hws', hread, ?_⟩
      rw [← hcolon, ← hbehindKey, ← hquote]
      exact hcs
    · cases hvalue
  · cases h

lemma membersSound_succ {fuel : Nat} (hvalue : ValueSound fuel) (hmembers : MembersSound fuel) :
    MembersSound (fuel + 1) := by
  intro cs rest ms h
  obtain ⟨ws, raw, ws', inside, key, v, behind, hws, hkey, hws', hread, rfl⟩ := members?_start h
  rw [members?_item hws hkey hws' hread] at h
  obtain ⟨xs, hv, rfl⟩ := hvalue.padded hread
  have hmember : MemberText (key, v) _ := .mk hws hkey hws' hv
  split at h
  · rename_i hcomma
    obtain ⟨⟨ms, rest'⟩, hms, he⟩ := Option.map_eq_some_iff.mp h
    cases he
    obtain ⟨text, htext, rfl⟩ := hmembers hms
    refine ⟨_, .more hmember htext, ?_⟩
    rw [hcomma]
    simp only [List.append_assoc, List.cons_append]
  · rename_i hclose
    cases h
    refine ⟨_, .one hmember, ?_⟩
    rw [hclose]
    simp only [List.append_assoc, List.cons_append]
  · cases h

/-- What is read has the grammar, in any number of steps. -/
lemma grammar_sound (fuel : Nat) : ValueSound fuel ∧ ItemsSound fuel ∧ MembersSound fuel := by
  induction fuel with
  | zero => exact ⟨nofun, nofun, nofun⟩
  | succ fuel ih =>
    obtain ⟨hvalue, hitems, hmembers⟩ := ih
    exact ⟨valueSound_succ hitems hmembers, itemsSound_succ hvalue hitems,
      membersSound_succ hvalue hmembers⟩

/-! ### Whole texts -/

/-- A text is read as a value exactly if it is a text of the value with nothing but blanks around
it. -/
theorem parse?_eq_some_iff {cs : List Char} {v : Json} : parse? cs = some v ↔ PaddedText v cs := by
  constructor
  · intro h
    rw [parse?] at h
    split at h
    · rename_i v' rest hread
      split at h
      · rename_i hrest
        cases h
        obtain ⟨xs, hv, rfl⟩ := ValueSound.padded (grammar_sound _).1 hread
        rwa [hrest, List.append_nil]
      · cases h
    · cases h
  · intro h
    obtain ⟨behind, hread, hskip⟩ :=
      value?_of_padded h (fun _ _ => endsNumber_nil) (show cs.length ≤ 2 * cs.length + 2 by omega)
    rw [List.append_nil] at hread
    rw [parse?, hread]
    exact if_pos hskip

lemma parse?_behind_object {ms : List (Option (List Char) × Json)} {cs rest : List Char}
    (h : PaddedText (.object ms) cs) (hrest : ¬IsBlanks rest) : parse? (cs ++ rest) = none := by
  have hfuel : cs.length ≤ 2 * (cs ++ rest).length + 2 := by
    rw [List.length_append]
    omega
  have hobject : ∀ text, Json.object ms = .number text → EndsNumber rest := nofun
  obtain ⟨behind, hread, hskip⟩ := value?_of_padded h hobject hfuel
  rw [parse?, hread]
  refine if_neg fun hend => hrest ?_
  rw [hskip] at hend
  obtain ⟨ws, hws, he⟩ := exists_blanks rest
  rwa [he, hend, List.append_nil]

/-! ### Printed values -/

/-- The value can be written: numbers are numbers, and strings and keys have contents. -/
inductive Proper : Json → Prop
  | null : Proper .null
  | bool (b : Bool) : Proper (.bool b)
  | number {text : List Char} (h : IsNumber text) : Proper (.number text)
  | string (contents : List Char) : Proper (.string (some contents))
  | array {vs : List Json} (h : ∀ v ∈ vs, v.Proper) : Proper (.array vs)
  | object {ms : List (Option (List Char) × Json)} (hkeys : ∀ m ∈ ms, m.1.isSome = true)
      (h : ∀ m ∈ ms, m.2.Proper) : Proper (.object ms)

/-- An object with texts as its keys can be written if its values can. -/
lemma proper_ofMembers {members : List (String × Json)} (h : ∀ m ∈ members, m.2.Proper) :
    (ofMembers members).Proper := by
  refine .object ?_ ?_
  · rintro _ hm
    obtain ⟨m, -, rfl⟩ := List.mem_map.mp hm
    rfl
  · rintro _ hm
    obtain ⟨m, hmem, rfl⟩ := List.mem_map.mp hm
    exact h m hmem

lemma stringText_some (contents : List Char) :
    stringText (some contents) = '"' :: (contents.flatMap escapeChar ++ ['"']) :=
  rfl

lemma ValueText.padded {v : Json} {xs : List Char} (h : ValueText v xs) : PaddedText v xs := by
  have hpadded := PaddedText.mk (List.forall_mem_nil _) h (List.forall_mem_nil _)
  rwa [List.append_nil, List.nil_append] at hpadded

/-- The texts of items are items if each of them is a value. -/
lemma itemsText_chars {vs : List Json} (hne : vs ≠ []) (h : ∀ v ∈ vs, ValueText v v.chars) :
    ItemsText vs (charsItems vs) := by
  induction vs with
  | nil => exact absurd rfl hne
  | cons v vs ih =>
    rw [List.forall_mem_cons] at h
    cases vs with
    | nil => exact .one h.1.padded
    | cons w vs => exact .more h.1.padded (ih (List.cons_ne_nil w vs) h.2)

/-- The texts of members are members if each of the values is one. -/
lemma membersText_chars {ms : List (Option (List Char) × Json)} (hne : ms ≠ [])
    (hkeys : ∀ m ∈ ms, m.1.isSome = true) (h : ∀ m ∈ ms, ValueText m.2 m.2.chars) :
    MembersText ms (charsMembers ms) := by
  induction ms with
  | nil => exact absurd rfl hne
  | cons m ms ih =>
    obtain ⟨key, v⟩ := m
    rw [List.forall_mem_cons] at hkeys h
    obtain ⟨contents, rfl⟩ := Option.isSome_iff_exists.mp hkeys.1
    have hblanks : IsBlanks [] := List.forall_mem_nil _
    have hmember :
        MemberText (some contents, v) (stringText (some contents) ++ ':' :: v.chars) := by
      rw [stringText_some, List.cons_append, List.append_assoc, List.singleton_append]
      exact .mk hblanks (contents_escape contents) hblanks h.1.padded
    cases ms with
    | nil => exact .one hmember
    | cons m ms =>
      rw [charsMembers]
      · exact .more hmember (ih (List.cons_ne_nil m ms) hkeys.2 h.2)

lemma Proper.valueText {v : Json} (h : v.Proper) : ValueText v v.chars := by
  induction h with
  | null => exact .null
  | bool b => exact .bool b
  | number h => exact .number h
  | string contents =>
    rw [chars, stringText_some]
    exact .string (contents_escape contents)
  | @array vs _ ih =>
    cases vs with
    | nil => exact .emptyArray (List.forall_mem_nil _)
    | cons v vs => exact .array (itemsText_chars (List.cons_ne_nil v vs) ih)
  | @object ms hkeys _ ih =>
    cases ms with
    | nil => exact .emptyObject (List.forall_mem_nil _)
    | cons m ms => exact .object (membersText_chars (List.cons_ne_nil m ms) hkeys ih)

/-- The text of a value that can be written is read as that value. -/
theorem parse?_print {v : Json} (h : v.Proper) : parse? v.print.toList = some v := by
  rw [print, String.toList_ofList]
  exact parse?_eq_some_iff.mpr h.valueText.padded

end Json

end Listener
