/-
The settings of a JSON object, by its known keys.

* `SaysBool`, `SaysTarget`, `SaysTexts`: which JSON values say a truth value, a target, and texts;
  `Fits` is the table of the known keys.
* `Field`: what the members of an object give for one key; `Configures` puts the four keys
  together, and `Faulty` says where they give nothing.
* `ofMembers?_eq_some_iff`, `ofMembers?_eq_none_iff`: the settings of members.
* `Alike`: the same settings, or two refusals.
* `ofJsonText_known`: the settings of a JSON text depend on the known keys only.
-/
import Listener.Options.Settings
import Listener.Proofs.Json.Grammar
import Mathlib

namespace Listener

namespace Target

lemma ofName?_eq_some_iff {s : String} {t : Target} : ofName? s = some t ↔ s = t.name := by
  constructor
  · intro h
    rw [ofName?] at h
    split at h
    · rename_i hs
      cases h
      exact hs
    · split at h
      · rename_i hs
        cases h
        exact hs
      · cases h
  · rintro rfl
    exact ofName?_name t

end Target

namespace Settings

open Json

/-! ### Values -/

/-- The value says the truth value. -/
def SaysBool (v : Json) (b : Bool) : Prop :=
  v = .bool b

/-- The value says the target: it is the word for it, or the word is the only key of an object, with
`null` behind it. -/
def SaysTarget (v : Json) (t : Target) : Prop :=
  v = ofString t.name ∨ v = ofMembers [(t.name, .null)]

/-- The value lists the texts. -/
def SaysTexts (v : Json) (texts : List String) : Prop :=
  v = .array (texts.map ofString)

/-- The value is of the type that a known key has. -/
inductive Fits : String → Json → Prop
  | verbose {v : Json} {b : Bool} (h : SaysBool v b) : Fits "verbose" v
  | warningAsError {v : Json} {b : Bool} (h : SaysBool v b) : Fits "warning-as-error" v
  | target {v : Json} {t : Target} (h : SaysTarget v t) : Fits "target" v
  | sourcePaths {v : Json} {texts : List String} (h : SaysTexts v texts) : Fits "src-paths" v

/-- The types of the known keys. -/
lemma fits_iff {key : String} {v : Json} :
    Fits key v ↔
      (key = "verbose" ∧ ∃ b, SaysBool v b) ∨ (key = "warning-as-error" ∧ ∃ b, SaysBool v b) ∨
        (key = "target" ∧ ∃ t, SaysTarget v t) ∨
        (key = "src-paths" ∧ ∃ texts, SaysTexts v texts) := by
  constructor
  · rintro (h | h | h | h)
    · exact .inl ⟨rfl, _, h⟩
    · exact .inr (.inl ⟨rfl, _, h⟩)
    · exact .inr (.inr (.inl ⟨rfl, _, h⟩))
    · exact .inr (.inr (.inr ⟨rfl, _, h⟩))
  · rintro (⟨rfl, _, h⟩ | ⟨rfl, _, h⟩ | ⟨rfl, _, h⟩ | ⟨rfl, _, h⟩)
    · exact .verbose h
    · exact .warningAsError h
    · exact .target h
    · exact .sourcePaths h

lemma not_fits_null (key : String) : ¬Fits key .null := by
  rintro (h | h | h | h)
  · cases h
  · cases h
  · rcases h with h | h <;> cases h
  · cases h

/-- If `read` takes back what `write` does, and reads nothing else, it does so for lists too. -/
lemma mapM_eq_some_iff {α β : Type} {read : α → Option β} {write : β → α}
    (h : ∀ a b, read a = some b ↔ a = write b) {as : List α} {bs : List β} :
    as.mapM read = some bs ↔ as = bs.map write := by
  induction as generalizing bs with
  | nil => cases bs <;> simp
  | cons a as ih => cases bs <;> simp [List.mapM_cons, Option.bind_eq_some_iff, h, ih]

lemma bool?_eq_some_iff {v : Json} {b : Bool} : jsonShapes.bool? v = some b ↔ SaysBool v b := by
  cases v <;> simp [jsonShapes, SaysBool]

lemma target?_eq_some_iff {v : Json} {t : Target} :
    jsonShapes.target? v = some t ↔ SaysTarget v t := by
  constructor
  · intro h
    simp only [jsonShapes] at h
    split at h
    · refine .inl ?_
      rw [← Target.ofName?_eq_some_iff.mp h]
      simp [ofString]
    · refine .inr ?_
      rw [← Target.ofName?_eq_some_iff.mp h]
      simp [ofMembers]
    · cases h
  · rintro (rfl | rfl)
    · simp [jsonShapes, ofString, Target.ofName?_name]
    · simp [jsonShapes, ofMembers, Target.ofName?_name]

lemma texts?_eq_some_iff {v : Json} {texts : List String} :
    jsonShapes.texts? v = some texts ↔ SaysTexts v texts := by
  cases v with
  | array items =>
    simp only [jsonShapes, SaysTexts, Json.array.injEq]
    refine mapM_eq_some_iff fun item text => ?_
    split
    · simp [ofString, ← String.toList_inj]
    · rename_i hno
      simpa [ofString] using fun h => hno _ h
  | _ => simp [jsonShapes, SaysTexts]

/-! ### Fields -/

/-- What the members give for a key: the default where the key is absent, and else what its value
says, if the key is given once. -/
inductive Field {α : Type} (means : Json → α → Prop) (default : α) (key : String)
    (members : List (String × Json)) : α → Prop
  /-- The key is absent. -/
  | absent (h : key ∉ members.map Prod.fst) : Field means default key members default
  /-- The key is given once. -/
  | given {v : Json} {a : α} (hone : (members.map Prod.fst).count key = 1)
      (hv : (key, v) ∈ members) (hmeans : means v a) : Field means default key members a

section

variable {α : Type} {read : Json → Option α} {means : Json → α → Prop} {default : α} {key : String}
  {members : List (String × Json)}

lemma length_filter_key (key : String) (members : List (String × Json)) :
    (members.filter (·.1 == key)).length = (members.map Prod.fst).count key := by
  rw [List.count, List.countP_map, ← List.countP_eq_length_filter]
  rfl

lemma member?_absent (h : key ∉ members.map Prod.fst) :
    member? read default key members = some default := by
  have hlength := length_filter_key key members
  rw [List.count_eq_zero_of_not_mem h, List.length_eq_zero_iff] at hlength
  rw [member?, hlength]

/-- A key that is given once has what its value says. -/
lemma member?_given (hone : (members.map Prod.fst).count key = 1) {v : Json}
    (hv : (key, v) ∈ members) : member? read default key members = read v := by
  have hlength := length_filter_key key members
  rw [hone] at hlength
  obtain ⟨m, hm⟩ := List.length_eq_one_iff.mp hlength
  have hmem : (key, v) ∈ members.filter (·.1 == key) := List.mem_filter.mpr ⟨hv, by simp⟩
  rw [hm, List.mem_singleton] at hmem
  rw [member?, hm, ← hmem]

lemma member?_repeated (h : 1 < (members.map Prod.fst).count key) :
    member? read default key members = none := by
  rw [← length_filter_key] at h
  rw [member?]
  split
  · rename_i hnone
    rw [hnone] at h
    cases h
  · rename_i hone
    rw [hone] at h
    exact absurd h (by simp)
  · rfl

/-- A key is absent, given once with a value, or repeated. -/
lemma absent_or_given (key : String) (members : List (String × Json)) :
    key ∉ members.map Prod.fst ∨
      (∃ v, (members.map Prod.fst).count key = 1 ∧ (key, v) ∈ members) ∨
      1 < (members.map Prod.fst).count key := by
  by_cases hmem : key ∈ members.map Prod.fst
  · have hpos := List.count_pos_iff.mpr hmem
    obtain ⟨⟨_, v⟩, hv, rfl⟩ := List.mem_map.mp hmem
    rcases Nat.eq_or_lt_of_le hpos with hone | hmany
    · exact .inr (.inl ⟨v, hone.symm, hv⟩)
    · exact .inr (.inr hmany)
  · exact .inl hmem

lemma member?_eq_some_iff (hread : ∀ v a, read v = some a ↔ means v a) {a : α} :
    member? read default key members = some a ↔ Field means default key members a := by
  constructor
  · intro h
    rcases absent_or_given key members with habsent | ⟨v, hone, hv⟩ | hmany
    · rw [member?_absent habsent] at h
      cases h
      exact .absent habsent
    · rw [member?_given hone hv] at h
      exact .given hone hv ((hread v a).mp h)
    · rw [member?_repeated hmany] at h
      cases h
  · rintro (habsent | ⟨hone, hv, hmeans⟩)
    · exact member?_absent habsent
    · rw [member?_given hone hv]
      exact (hread _ a).mpr hmeans

/-- Members give nothing for a key that is repeated, or that has a value of another type. -/
lemma member?_eq_none_iff (hread : ∀ v a, read v = some a ↔ means v a) :
    member? read default key members = none ↔
      1 < (members.map Prod.fst).count key ∨ ∃ v, (key, v) ∈ members ∧ ∀ a, ¬means v a := by
  constructor
  · intro h
    rcases absent_or_given key members with habsent | ⟨v, hone, hv⟩ | hmany
    · rw [member?_absent habsent] at h
      cases h
    · rw [member?_given hone hv] at h
      refine .inr ⟨v, hv, fun a ha => ?_⟩
      rw [(hread v a).mpr ha] at h
      cases h
    · exact .inl hmany
  · rintro (hmany | ⟨v, hv, hno⟩)
    · exact member?_repeated hmany
    · rcases absent_or_given key members with habsent | ⟨_, hone, -⟩ | hmany
      · exact absurd (List.mem_map_of_mem hv) habsent
      · rw [member?_given hone hv, Option.eq_none_iff_forall_ne_some]
        exact fun a ha => hno a ((hread v a).mp ha)
      · exact member?_repeated hmany

/-- What members give for a key does not depend on their order. -/
lemma Field.perm {a : α} {members' : List (String × Json)} (h : members.Perm members')
    (hfield : Field means default key members a) : Field means default key members' a := by
  have hkeys := h.map Prod.fst
  cases hfield with
  | absent habsent => exact .absent fun hmem => habsent (hkeys.mem_iff.mpr hmem)
  | given hone hv hmeans => exact .given (hkeys.count_eq key ▸ hone) (h.mem_iff.mp hv) hmeans

end

/-! ### The settings of members -/

/-- The members configure the settings. -/
structure Configures (members : List (String × Json)) (s : Settings) : Prop where
  verbose : Field SaysBool false "verbose" members s.verbose
  warningAsError : Field SaysBool false "warning-as-error" members s.warningAsError
  target : Field SaysTarget .browser "target" members s.target
  sourcePaths : Field SaysTexts [] "src-paths" members s.sourcePaths

/-- A known key is repeated, or has a value of another type. -/
def Faulty (members : List (String × Json)) : Prop :=
  ∃ key ∈ knownKeys, 1 < (members.map Prod.fst).count key ∨ ∃ v, (key, v) ∈ members ∧ ¬Fits key v

/-- The settings of members are those that they configure. -/
theorem ofMembers?_eq_some_iff {members : List (String × Json)} {s : Settings} :
    ofMembers? jsonShapes members = some s ↔ Configures members s := by
  have hbool : ∀ v b, jsonShapes.bool? v = some b ↔ SaysBool v b := fun _ _ => bool?_eq_some_iff
  have htarget : ∀ v t, jsonShapes.target? v = some t ↔ SaysTarget v t :=
    fun _ _ => target?_eq_some_iff
  have htexts : ∀ v texts, jsonShapes.texts? v = some texts ↔ SaysTexts v texts :=
    fun _ _ => texts?_eq_some_iff
  constructor
  · intro h
    simp only [ofMembers?, Option.bind_eq_bind, Option.bind_eq_some_iff] at h
    obtain ⟨_, hv, _, hw, _, ht, _, hs, he⟩ := h
    cases he
    exact ⟨(member?_eq_some_iff hbool).mp hv, (member?_eq_some_iff hbool).mp hw,
      (member?_eq_some_iff htarget).mp ht, (member?_eq_some_iff htexts).mp hs⟩
  · intro h
    rw [ofMembers?, (member?_eq_some_iff hbool).mpr h.verbose,
      (member?_eq_some_iff hbool).mpr h.warningAsError,
      (member?_eq_some_iff htarget).mpr h.target, (member?_eq_some_iff htexts).mpr h.sourcePaths]
    rfl

/-- Members have no settings just where one of the four keys has none. -/
lemma ofMembers?_eq_none {V : Type} {n : Shapes V} {members : List (String × V)} :
    ofMembers? n members = none ↔
      member? n.bool? false "verbose" members = none ∨
        member? n.bool? false "warning-as-error" members = none ∨
        member? n.target? .browser "target" members = none ∨
        member? n.texts? [] "src-paths" members = none := by
  rw [ofMembers?]
  cases member? n.bool? false "verbose" members <;>
    cases member? n.bool? false "warning-as-error" members <;>
    cases member? n.target? .browser "target" members <;>
    cases member? n.texts? [] "src-paths" members <;>
    simp

/-- Members have no settings just where they are faulty. -/
theorem ofMembers?_eq_none_iff {members : List (String × Json)} :
    ofMembers? jsonShapes members = none ↔ Faulty members := by
  rw [ofMembers?_eq_none, member?_eq_none_iff fun _ _ => bool?_eq_some_iff,
    member?_eq_none_iff fun _ _ => bool?_eq_some_iff,
    member?_eq_none_iff fun _ _ => target?_eq_some_iff,
    member?_eq_none_iff fun _ _ => texts?_eq_some_iff]
  simp [Faulty, knownKeys, fits_iff]

/-- The members with known keys. -/
def known (members : List (String × Json)) : List (String × Json) :=
  members.filter fun m => decide (m.1 ∈ knownKeys)

/-- What members configure does not depend on their order. -/
lemma Configures.perm {members members' : List (String × Json)} {s : Settings}
    (h : members.Perm members') (hs : Configures members s) : Configures members' s where
  verbose := hs.verbose.perm h
  warningAsError := hs.warningAsError.perm h
  target := hs.target.perm h
  sourcePaths := hs.sourcePaths.perm h

/-- Settings depend on the known members only, and not on their order. -/
lemma ofMembers?_known {members members' : List (String × Json)}
    (h : (known members).Perm (known members')) :
    ofMembers? jsonShapes members = ofMembers? jsonShapes members' := by
  rw [← ofMembers?_filter_known, ← ofMembers?_filter_known _ members']
  ext s
  rw [ofMembers?_eq_some_iff, ofMembers?_eq_some_iff]
  exact ⟨.perm h, .perm h.symm⟩

/-! ### The settings of texts and maps -/

/-- The options are refused. -/
def IsConfigError (r : Except Error Settings) : Prop :=
  ∃ message, r = .error (.config message)

/-- Two ways to the settings agree: both find the same ones, or both are refused. -/
def Alike (r r' : Except Error Settings) : Prop :=
  (∃ s, r = .ok s ∧ r' = .ok s) ∨ (IsConfigError r ∧ IsConfigError r')

/-- The answer gives settings where there are any, and else refuses the options. -/
structure Gives (r : Except Error Settings) (found : Option Settings) : Prop where
  ok (s : Settings) : r = .ok s ↔ found = some s
  refused : IsConfigError r ↔ found = none

lemma Gives.alike {r r' : Except Error Settings} {found : Option Settings} (h : Gives r found)
    (h' : Gives r' found) : Alike r r' := by
  cases found with
  | none => exact .inr ⟨h.refused.mpr rfl, h'.refused.mpr rfl⟩
  | some s => exact .inl ⟨s, (h.ok s).mpr rfl, (h'.ok s).mpr rfl⟩

/-- Settings are given by the answer that is them, or else an error of the options. -/
lemma gives_found (message : String) (found : Option Settings) :
    Gives (match found with
      | some s => .ok s
      | none => .error (.config message)) found := by
  cases found with
  | none => exact ⟨fun s => by simp, by simp [IsConfigError]⟩
  | some s => exact ⟨fun s' => by simp, by simp [IsConfigError]⟩

lemma gives_ofJsonText (text : String) :
    Gives (ofJsonText text) ((parse? text.toList).bind ofJson?) :=
  gives_found "Invalid JSON options" _

lemma gives_ofMap (members : List (String × Json)) :
    Gives (ofMap members) (ofMembers? jsonShapes members) :=
  gives_found "Invalid options" _

lemma namedMember?_eq_some_iff {m : Option (List Char) × Json} {named : String × Json} :
    namedMember? m = some named ↔ m = (some named.1.toList, named.2) := by
  obtain ⟨key, v⟩ := m
  obtain ⟨name, w⟩ := named
  cases key with
  | none => simp [namedMember?]
  | some key => simp [namedMember?, ← String.toList_inj]

lemma ofJson?_ofMembers (members : List (String × Json)) :
    ofJson? (ofMembers members) = ofMembers? jsonShapes members := by
  have hnamed : (members.map fun m => (some m.1.toList, m.2)).mapM namedMember? = some members :=
    (mapM_eq_some_iff fun _ _ => namedMember?_eq_some_iff).mpr rfl
  have hobject : ofMembers members = .object (members.map fun m => (some m.1.toList, m.2)) := rfl
  rw [hobject, ofJson?, hnamed, Option.bind_some]

/-- The text is an object with the members, between blanks. -/
def IsObjectText (members : List (String × Json)) (text : String) : Prop :=
  PaddedText (ofMembers members) text.toList

/-- The text of an object gives the settings of its members. -/
lemma IsObjectText.gives {members : List (String × Json)} {text : String}
    (h : IsObjectText members text) :
    Gives (ofJsonText text) (ofMembers? jsonShapes members) := by
  have hgives := gives_ofJsonText text
  rwa [parse?_eq_some_iff.mpr h, Option.bind_some, ofJson?_ofMembers] at hgives

lemma isObjectText_print {members : List (String × Json)} (h : ∀ m ∈ members, m.2.Proper) :
    IsObjectText members (ofMembers members).print :=
  parse?_eq_some_iff.mp (parse?_print (proper_ofMembers h))

/-- **Settings depend on the known keys only.** The text of an object is refused just where a known
key is repeated or has a value of another type, such as `null`; else it gives the settings that its
known keys configure. Objects with the same known members, in any order and among any others, are
alike. Nothing but blanks may stand behind an object, other texts than those of values are refused,
and a map is like any text of an object with its members, the one that it is printed as among
them. -/
theorem ofJsonText_known :
    (∀ members text, IsObjectText members text →
      (IsConfigError (ofJsonText text) ↔ Faulty members) ∧
      (¬Faulty members → ∃ s, ofJsonText text = .ok s) ∧
      (∀ s, ofJsonText text = .ok s ↔ Configures members s) ∧
      ∀ key ∈ knownKeys, (key, .null) ∈ members → IsConfigError (ofJsonText text)) ∧
    (∀ members members' text text', IsObjectText members text → IsObjectText members' text' →
      (known members).Perm (known members') → Alike (ofJsonText text) (ofJsonText text')) ∧
    (∀ members text rest, IsObjectText members text → ¬IsBlanks rest.toList →
      IsConfigError (ofJsonText (text ++ rest))) ∧
    (∀ text, (∀ v, ¬PaddedText v text.toList) → IsConfigError (ofJsonText text)) ∧
    (∀ members text, IsObjectText members text → Alike (ofMap members) (ofJsonText text)) ∧
    ∀ members, (∀ m ∈ members, m.2.Proper) →
      Alike (ofMap members) (ofJsonText (ofMembers members).print) := by
  refine ⟨?_, ?_, ?_, ?_, ?_, ?_⟩
  · intro members text h
    have hrefused : IsConfigError (ofJsonText text) ↔ Faulty members :=
      h.gives.refused.trans ofMembers?_eq_none_iff
    refine ⟨hrefused, fun hsound => ?_, fun s => (h.gives.ok s).trans ofMembers?_eq_some_iff, ?_⟩
    · rw [← ofMembers?_eq_none_iff, ← ne_eq, Option.ne_none_iff_exists'] at hsound
      obtain ⟨s, hs⟩ := hsound
      exact ⟨s, (h.gives.ok s).mpr hs⟩
    · intro key hkey hnull
      exact hrefused.mpr ⟨key, hkey, .inr ⟨.null, hnull, not_fits_null key⟩⟩
  · intro members members' text text' h h' hknown
    have hgives' := h'.gives
    -- both are read like the members that they have in common
    rw [← ofMembers?_known hknown] at hgives'
    exact h.gives.alike hgives'
  · intro members text rest h hrest
    refine (gives_ofJsonText _).refused.mpr ?_
    rw [String.toList_append, parse?_behind_object h hrest, Option.bind_none]
  · intro text h
    refine (gives_ofJsonText text).refused.mpr ?_
    have hnone : parse? text.toList = none :=
      Option.eq_none_iff_forall_ne_some.mpr fun v hv => h v (parse?_eq_some_iff.mp hv)
    rw [hnone, Option.bind_none]
  · intro members text h
    exact (gives_ofMap members).alike h.gives
  · intro members h
    exact (gives_ofMap members).alike (isObjectText_print h).gives

/-- A key that means nothing may be repeated and hold any values, also in front of a known key;
neither a comma behind an object, nor `null` for a target, nor a brace alone is understood. -/
theorem ofJsonText_known_objects :
    ofJsonText "\x7b\"x\":[\x7b\x7d],\"verbose\":true,\"x\":1\x7d" = .ok { verbose := true } ∧
    Alike (ofJsonText "\x7b\"x\":[\x7b\x7d],\"verbose\":true,\"x\":1\x7d")
      (ofJsonText " \x7b\"verbose\" : true\x7d") ∧
    IsConfigError (ofJsonText (" \x7b\"verbose\" : true\x7d" ++ ",")) ∧
    IsConfigError (ofJsonText "\x7b\"target\":null\x7d") ∧
    IsConfigError (ofJsonText "\x7b") ∧
    Alike (ofMap [("verbose", .bool true)]) (ofJsonText " \x7b\"verbose\" : true\x7d") ∧
    Alike (ofMap [("target", .null)]) (ofJsonText (ofMembers [("target", .null)]).print) := by
  obtain ⟨hobject, halike, hbehind, hvalue, hmap, hprint⟩ := ofJsonText_known
  have hmany : IsObjectText
      [("x", .array [ofMembers []]), ("verbose", .bool true), ("x", .number ['1'])]
      "\x7b\"x\":[\x7b\x7d],\"verbose\":true,\"x\":1\x7d" := parse?_eq_some_iff.mp (by cbv)
  have hone : IsObjectText [("verbose", .bool true)] " \x7b\"verbose\" : true\x7d" :=
    parse?_eq_some_iff.mp (by cbv)
  have hnull : IsObjectText [("target", .null)] "\x7b\"target\":null\x7d" :=
    parse?_eq_some_iff.mp (by cbv)
  refine ⟨?_, halike _ _ _ _ hmany hone ?_, hbehind _ _ _ hone ?_, ?_, hvalue _ fun v hv => ?_,
    hmap _ _ hone, hprint _ ?_⟩
  · refine ((hobject _ _ hmany).2.2.1 _).mpr ?_
    exact { verbose := .given (by decide) (by simp) rfl
            warningAsError := .absent (by decide)
            target := .absent (by decide)
            sourcePaths := .absent (by decide) }
  · exact .of_eq (by simp [known, knownKeys])
  · exact fun h => absurd (h ',' (by decide)) (by decide)
  · exact (hobject _ _ hnull).2.2.2 "target" (by decide) (by simp)
  · have hread := parse?_eq_some_iff.mpr hv
    have hnone : parse? "\x7b".toList = none := by cbv
    rw [hnone] at hread
    cases hread
  · simpa using .null

end Settings

end Listener
