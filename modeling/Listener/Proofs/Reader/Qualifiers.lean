/-
Maps that are written with a qualifier.

* `Renames p t t'`: what becomes of the text `t` of a key under the qualifier `p`; `Rekeys` says it
  of a key.
* `renames_qualify`, `rekeys_qualifyKey`: the reader rewrites keys in this way.
* `oneItem_qualified`: a qualifier in front of the text of a map is one item with it.
* `readForm_qualified`: a qualifier rewrites the keys of a map and nothing else, and one that has to
  be resolved becomes a tag.
-/
import Listener.Proofs.Reader.Marks

namespace Listener

namespace Reader

/-! ### Keys under a qualifier -/

/-- `Renames p t t'`: under the qualifier `p`, a key with the text `t` has the text `t'`. -/
inductive Renames (p : List Char) : List Char → List Char → Prop where
  /-- A text without a slash gets the qualifier. -/
  | qualified {t : List Char} (h : '/' ∉ t) : Renames p t (p ++ '/' :: t)
  /-- An underscore as the qualifier is taken off. -/
  | bare (t : List Char) : Renames p ('_' :: '/' :: t) t
  /-- A text with another qualifier stays. -/
  | own {t : List Char} (h : '/' ∈ t) (h' : ¬ ['_', '/'] <+: t) : Renames p t t

/-- `Rekeys p k k'`: under the qualifier `p`, the key `k` is the key `k'`. -/
inductive Rekeys (p : List Char) : Form → Form → Prop where
  /-- A keyword that is not resolved in a namespace. -/
  | keyword {k k' : String} (h : k.toList.head? ≠ some ':') (hr : Renames p k.toList k'.toList) :
    Rekeys p (.keyword k) (.keyword k')
  /-- A keyword that is resolved in a namespace. -/
  | resolved {k : String} (h : k.toList.head? = some ':') : Rekeys p (.keyword k) (.keyword k)
  | symbol {s s' : Symbol} (hr : Renames p s.text.toList s'.text.toList) :
    Rekeys p (.symbol s) (.symbol s')
  /-- Any other key. -/
  | other {f : Form} (hk : ∀ k, f ≠ .keyword k) (hs : ∀ s, f ≠ .symbol s) : Rekeys p f f

/-- The text of a key is rewritten as its slashes say. -/
theorem renames_qualify (p t : List Char) : Renames p t (qualify p t) := by
  rw [qualify]
  split
  · -- an underscore in front of the first slash
    rename_i after hsplit
    rw [Text.append_of_splitFirst hsplit]
    exact .bare after
  · rename_i sides hother hsplit
    refine .own ?_ ?_
    · rw [Text.append_of_splitFirst hsplit]
      exact List.mem_append_right _ List.mem_cons_self
    · rintro ⟨after, rfl⟩
      have hbare := Text.splitFirst_append (show '/' ∉ ['_'] by decide) after
      exact hother after (Option.some.inj (hsplit.symm.trans hbare))
  · rename_i hsplit
    exact .qualified (Text.splitFirst_eq_none.mp hsplit)

/-- Keys are rewritten one by one. -/
theorem rekeys_qualifyKey (p : List Char) (k : Form) : Rekeys p k (qualifyKey p k) := by
  cases k with
  | keyword k =>
    rw [qualifyKey]
    split
    · rename_i hcolon
      exact .resolved hcolon
    · rename_i hcolon
      refine .keyword hcolon ?_
      rw [String.toList_ofList]
      exact renames_qualify p _
  | symbol s =>
    refine .symbol ?_
    rw [String.toList_ofList]
    exact renames_qualify p _
  | _ => exact .other nofun nofun

/-- The entries of a map under a qualifier: the keys are rewritten, and the values stay. -/
lemma forall₂_qualifyKeys (p : List Char) (entries : List (Form × Form)) :
    List.Forall₂ (fun e e' => Rekeys p e.1 e'.1 ∧ e'.2 = e.2) entries
      (entries.map fun (k, v) => (qualifyKey p k, v)) := by
  rw [List.forall₂_map_right_iff, List.forall₂_same]
  exact fun e _ => ⟨rekeys_qualifyKey p e.1, rfl⟩

/-! ### A qualifier in front of a map -/

lemma OneItem.leadsUpTo {xs : List Char} {f : Form} (h : OneItem xs f) : LeadsUpTo xs f := by
  refine h.imp ?_
  rintro pos _ ⟨n, rfl, -, hn⟩
  exact ⟨0, n, rfl, hn⟩

/-- A qualifier in front of a single item that starts with a brace is one item with it. -/
theorem oneItem_qualified {p ms : List Char} {f : Form} (hp : IsQualifier p)
    (h : OneItem ('\x7b' :: ms) f) :
    OneItem ('#' :: ':' :: p ++ '\x7b' :: ms) (Sigil.form (.qualifier p) f) :=
  oneItem_sigil h.leadsUpTo fun rest pos =>
    ⟨_, cuts_hash (scanHash_qualifier hp.1 hp.2 (ms ++ rest)) pos⟩

end Reader

open Reader

/-- A qualifier rewrites the keys of the map behind it and nothing else: the entries are as many, in
the same order and with the same values. A qualifier that has to be resolved in a namespace becomes
a tag, and nothing is rewritten. -/
theorem readForm_qualified {p m : String} {entries : List (Form × Form)}
    (hp : IsQualifier p.toList) (hm : IsSingle m (.map entries))
    (hbrace : m.toList.head? = some '\x7b') :
    (p.toList.head? ≠ some ':' →
      ∃ entries', readForm ("#:" ++ p ++ m) = .ok (.map entries') ∧
        List.Forall₂ (fun e e' => Rekeys p.toList e.1 e'.1 ∧ e'.2 = e.2) entries entries') ∧
    (p.toList.head? = some ':' →
      readForm ("#:" ++ p ++ m) = .ok (.tagged (":" ++ p) (.map entries))) := by
  obtain ⟨ms, hms⟩ : ∃ ms, m.toList = '\x7b' :: ms := by
    cases hms : m.toList with
    | nil => simp [hms] at hbrace
    | cons c ms =>
      rw [hms] at hbrace
      cases hbrace
      exact ⟨ms, rfl⟩
  have htext : ("#:" ++ p ++ m).toList = '#' :: ':' :: p.toList ++ '\x7b' :: ms := by
    simp [hms]
  have hone := (isSingle_iff.mp hm).1
  rw [hms] at hone
  have hread : readForm ("#:" ++ p ++ m) =
      .ok (Sigil.form (.qualifier p.toList) (.map entries)) := by
    refine (isSingle_iff.mpr ⟨?_, ?_⟩).form
    · rw [htext]
      exact oneItem_qualified hp hone
    · rw [htext]
      rfl
  -- the mark alone tells from the first character of the qualifier what it does
  rw [Sigil.form] at hread
  constructor
  · intro hcolon
    rw [if_neg hcolon] at hread
    exact ⟨_, hread, forall₂_qualifyKeys p.toList entries⟩
  · intro hcolon
    rw [if_pos hcolon] at hread
    have htag : String.ofList (':' :: p.toList) = ":" ++ p := by
      rw [← String.toList_inj, String.toList_ofList, String.toList_append]
      rfl
    rw [← htag]
    exact hread

/-- A key without a slash, with a map as its value, one with two slashes, and a keyword that has to
be resolved, under a qualifier of either kind. -/
theorem readForm_qualified_kinds :
    let m := "\x7bx \x7by z\x7d a/b/c d ::k e\x7d"
    let entries : List (Form × Form) :=
      [(.ofName "x", .map [(.ofName "y", .ofName "z")]), (.ofName "a/b/c", .ofName "d"),
        (.keyword ":k", .ofName "e")]
    (∃ entries', readForm ("#:" ++ "p" ++ m) = .ok (.map entries') ∧
      List.Forall₂ (fun e e' => Rekeys ['p'] e.1 e'.1 ∧ e'.2 = e.2) entries entries') ∧
    readForm ("#:" ++ ":p" ++ m) = .ok (.tagged "::p" (.map entries)) := by
  intro m entries
  have hm : IsSingle m (.map entries) := ⟨by cbv, by cbv⟩
  have hplain : IsQualifier "p".toList := ⟨by decide, by simp [isWord, isGap]⟩
  have hcolon : IsQualifier ":p".toList := ⟨by decide, by simp [isWord, isGap]⟩
  exact ⟨(readForm_qualified hplain hm (by decide)).1 (by decide),
    (readForm_qualified hcolon hm (by decide)).2 (by decide)⟩

/-- A slash alone has a slash, and an underscore keeps a key bare. -/
example : readForm "#:p\x7b/ x _/y z\x7d" =
    .ok (.map [(.ofName "/", .ofName "x"), (.ofName "y", .ofName "z")]) := by
  cbv

end Listener
