/-
The wish to reload among the arguments of `require`.

* `Reload.StandsIn`, `Reload.AskedBy`: a wish stands alone among arguments, or at the end of a
  quoted vector.
* `Reload.Greatest`: the greatest of the wishes that fulfil something; `Greatest.max` puts two
  together.
* `canonicalize_greatest`: canonical specs come with the greatest wish that the arguments ask for.
-/
import Mathlib.Data.List.TakeWhile
import Listener.Directive.Require

namespace Listener

namespace Reload

/-! ### The greatest wish -/

/-- The greatest of the wishes that have a property, if there are any. -/
structure Greatest (r : Option Reload) (p : Reload → Prop) : Prop where
  /-- It is the wish to load everything again exactly when that one has the property. -/
  all_iff : r = some .all ↔ p .all
  /-- There is none exactly when no wish has it. -/
  none_iff : r = none ↔ ∀ wish, ¬p wish

lemma greatest_self (r : Option Reload) : Greatest r fun wish => r = some wish where
  all_iff := Iff.rfl
  none_iff := Option.eq_none_iff_forall_ne_some

lemma greatest_none {p : Reload → Prop} (h : ∀ wish, ¬p wish) : Greatest none p where
  all_iff := ⟨nofun, fun hall => absurd hall (h .all)⟩
  none_iff := ⟨fun _ => h, fun _ => rfl⟩

/-- The greater of two greatest wishes is the greatest of both. -/
theorem Greatest.max {a b : Option Reload} {p q : Reload → Prop} (ha : Greatest a p)
    (hb : Greatest b q) : Greatest (Reload.max a b) fun wish => p wish ∨ q wish where
  all_iff := by
    rw [← ha.all_iff, ← hb.all_iff]
    rcases a with _ | _ | _ <;> rcases b with _ | _ | _ <;> simp [Reload.max]
  none_iff := by
    have hnone : Reload.max a b = none ↔ a = none ∧ b = none := by
      rcases a with _ | _ | _ <;> rcases b with _ | _ | _ <;> simp [Reload.max]
    rw [hnone, ha.none_iff, hb.none_iff]
    exact ⟨fun h wish => not_or.mpr ⟨h.1 wish, h.2 wish⟩,
      fun h => ⟨fun wish => (not_or.mp (h wish)).1, fun wish => (not_or.mp (h wish)).2⟩⟩

lemma Greatest.congr {r : Option Reload} {p q : Reload → Prop} (h : Greatest r p)
    (hpq : ∀ wish, p wish ↔ q wish) : Greatest r q where
  all_iff := h.all_iff.trans (hpq .all)
  none_iff := h.none_iff.trans (forall_congr' fun wish => not_congr (hpq wish))

lemma Greatest.eq_none_iff {r : Option Reload} {p : Reload → Prop} (h : Greatest r p) :
    r = none ↔ ¬p .named ∧ ¬p .all :=
  h.none_iff.trans ⟨fun hnone => ⟨hnone .named, hnone .all⟩,
    fun hnone wish => by cases wish with
      | named => exact hnone.1
      | all => exact hnone.2⟩

/-- Only what is named is loaded again exactly when the other wish does not have the property. -/
lemma Greatest.eq_named_iff {r : Option Reload} {p : Reload → Prop} (h : Greatest r p) :
    r = some .named ↔ p .named ∧ ¬p .all := by
  have hnone := h.eq_none_iff
  rw [← h.all_iff] at hnone ⊢
  rcases r with _ | _ | _
  · simpa using fun hnamed => absurd hnamed (hnone.mp rfl).1
  · have hsome := (not_congr hnone).mp (by simp)
    simpa using hsome
  · simp

lemma greatest_ofForms (forms : List Form) :
    Greatest (ofForms forms) fun wish => ∃ form ∈ forms, ofForm? form = some wish := by
  induction forms with
  | nil => exact greatest_none fun _ ⟨_, h, _⟩ => absurd h List.not_mem_nil
  | cons form forms ih =>
    refine ((greatest_self (ofForm? form)).max ih).congr fun wish => ?_
    simp only [List.mem_cons, exists_eq_or_imp]

/-! ### Wishes in arguments -/

/-- The wish stands in an argument of `require`. -/
inductive StandsIn (wish : Reload) : Form → Prop
  /-- It is the argument. -/
  | bare {arg : Form} (h : ofForm? arg = some wish) : StandsIn wish arg
  /-- It is in a quoted vector, with nothing but wishes behind it. -/
  | trailing {arg item : Form} {before after : List Form}
      (hquoted : arg.unquoted? = some (.vector (before ++ item :: after)))
      (h : ofForm? item = some wish) (hafter : ∀ other ∈ after, isReload other = true) :
      StandsIn wish arg

/-- One of the arguments asks for it. -/
def AskedBy (wish : Reload) (args : List Form) : Prop :=
  ∃ arg ∈ args, wish.StandsIn arg

end Reload

/-- A wish is among those at the end of a list of forms exactly when there are only wishes
behind it. -/
lemma mem_trailingReloads {item : Form} {items : List Form} :
    item ∈ trailingReloads items ↔ isReload item = true ∧
      ∃ before after, items = before ++ item :: after ∧
        ∀ other ∈ after, isReload other = true := by
  constructor
  · intro h
    obtain ⟨later, earlier, hsplit⟩ := List.append_of_mem h
    refine ⟨List.mem_takeWhile_imp h, (items.reverse.dropWhile isReload).reverse ++ earlier.reverse,
      later.reverse, ?_, fun other hother => ?_⟩
    · calc
        items = (trailingReloads items ++ items.reverse.dropWhile isReload).reverse := by
          rw [trailingReloads, List.takeWhile_append_dropWhile, List.reverse_reverse]
        _ = (items.reverse.dropWhile isReload).reverse ++ earlier.reverse ++
              item :: later.reverse := by
          rw [hsplit]
          simp only [List.reverse_append, List.reverse_cons, List.append_assoc,
            List.singleton_append]
    · have hmem : other ∈ trailingReloads items := by
        rw [hsplit]
        exact List.mem_append_left _ (List.mem_reverse.mp hother)
      exact List.mem_takeWhile_imp hmem
  · rintro ⟨hitem, before, after, rfl, hafter⟩
    rw [trailingReloads, List.reverse_append, List.reverse_cons, List.append_assoc,
      List.takeWhile_append_of_pos fun other h => hafter other (List.mem_reverse.mp h)]
    refine List.mem_append_right _ ?_
    rw [List.singleton_append, List.takeWhile_cons_of_pos hitem]
    exact List.mem_cons_self

open Reload

lemma unquoted?_of_isReload {arg : Form} {r : Reload} (h : ofForm? arg = some r) :
    arg.unquoted? = none := by
  cases arg with
  | keyword text => rfl
  | _ => cases h

/-- An argument that stands for a wish holds no other one. -/
lemma standsIn_bare {arg : Form} {r : Reload} (h : ofForm? arg = some r) (wish : Reload) :
    ofForm? arg = some wish ↔ wish.StandsIn arg := by
  refine ⟨.bare, fun hstands => ?_⟩
  cases hstands with
  | bare h => exact h
  | trailing hquoted =>
    rw [unquoted?_of_isReload h] at hquoted
    cases hquoted

/-- A quoted spec comes with the greatest wish that stands in the argument. -/
lemma canonicalSpec_greatest {arg quoted : Form} (hbare : ofForm? arg = none)
    (hquoted : arg.unquoted? = some quoted) :
    Greatest (canonicalSpec quoted).2 (·.StandsIn arg) := by
  by_cases hvector : ∃ items, quoted = .vector items
  · obtain ⟨items, rfl⟩ := hvector
    refine (greatest_ofForms (trailingReloads items)).congr fun wish => ⟨?_, fun h => ?_⟩
    · rintro ⟨item, hitem, h⟩
      obtain ⟨-, before, after, rfl, hafter⟩ := mem_trailingReloads.mp hitem
      exact .trailing hquoted h hafter
    · cases h with
      | bare h => cases hbare.symm.trans h
      | @trailing item before after hvector h hafter =>
        cases hquoted.symm.trans hvector
        have hitem : isReload item = true := by rw [isReload, h, Option.isSome_some]
        exact ⟨item, mem_trailingReloads.mpr ⟨hitem, before, after, rfl, hafter⟩, h⟩
  · -- no other spec holds a wish
    have hnone : (canonicalSpec quoted).2 = none := by
      cases quoted with
      | vector items => exact absurd ⟨items, rfl⟩ hvector
      | _ => rfl
    rw [hnone]
    refine greatest_none fun wish h => ?_
    cases h with
    | bare h => cases hbare.symm.trans h
    | trailing h => exact hvector ⟨_, Option.some.inj (hquoted.symm.trans h)⟩

/-- Arguments have canonical specs if the first one is a wish or quoted, and those behind it have
canonical specs. -/
lemma canonicalSpecs_cons {kind : RequireKind} {arg : Form} {args : List Form} {specs : Specs} :
    canonicalSpecs kind (arg :: args) = .ok specs ↔
      ∃ rest, canonicalSpecs kind args = .ok rest ∧
        ((∃ wish, ofForm? arg = some wish ∧
            specs = ⟨rest.specs, Reload.max (some wish) rest.reload⟩) ∨
          ∃ quoted, arg = .quote quoted ∧
            specs = ⟨(canonicalSpec quoted).1 :: rest.specs,
              Reload.max (canonicalSpec quoted).2 rest.reload⟩) := by
  rw [canonicalSpecs]
  constructor
  · intro h
    cases hrest : canonicalSpecs kind args with
    | error e =>
      rw [hrest] at h
      split at h <;> cases h
    | ok rest =>
      rw [hrest] at h
      split at h
      · rename_i wish hbare
        cases h
        exact ⟨rest, rfl, .inl ⟨wish, hbare, rfl⟩⟩
      · rename_i quoted _ hquoted
        cases h
        exact ⟨rest, rfl, .inr ⟨quoted, Form.unquoted?_eq_some_iff.mp hquoted, rfl⟩⟩
      · cases h
  · rintro ⟨rest, hrest, ⟨wish, hbare, rfl⟩ | ⟨quoted, rfl, rfl⟩⟩
    · simp only [hbare, hrest]
      rfl
    · rw [Form.unquoted?_quote, hrest]
      rfl

/-- Canonical specs come with the greatest wish that the arguments ask for. -/
lemma canonicalSpecs_greatest {kind : RequireKind} {args : List Form} {specs : Specs}
    (h : canonicalSpecs kind args = .ok specs) : Greatest specs.reload (·.AskedBy args) := by
  induction args generalizing specs with
  | nil =>
    cases h
    exact greatest_none fun _ ⟨_, harg, _⟩ => absurd harg List.not_mem_nil
  | cons arg args ih =>
    have hcons (wish : Reload) :
        wish.StandsIn arg ∨ wish.AskedBy args ↔ wish.AskedBy (arg :: args) := by
      simp only [AskedBy, List.mem_cons, exists_eq_or_imp]
    obtain ⟨rest, hrest, ⟨r, hbare, rfl⟩ | ⟨quoted, rfl, rfl⟩⟩ := canonicalSpecs_cons.mp h
    · have hself := (greatest_self (ofForm? arg)).congr (standsIn_bare hbare)
      rw [hbare] at hself
      exact (hself.max (ih hrest)).congr hcons
    · have hspec := canonicalSpec_greatest rfl (Form.unquoted?_quote quoted)
      exact (hspec.max (ih hrest)).congr hcons

end Listener
