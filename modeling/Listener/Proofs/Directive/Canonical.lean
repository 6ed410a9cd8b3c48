/-
Which arguments of `require` have canonical specs, and which ones these are.

* `Form.IsWish`, `Canonical`, `SpecsOf`: the wishes to reload, the canonical form of a quoted spec,
  and the canonical specs of arguments, in order.
* `canonicalSpecs_specsOf`, `exists_canonicalSpecs`: arguments have canonical specs exactly when
  each of them is a wish or quoted.
* `Canonical.fixed`: a canonical spec is its own canonical form and comes with no wish.
* `canonicalize_canonical`: all of this for the arguments of a directive.
-/
import Mathlib.Data.List.DropRight
import Listener.Proofs.Directive.Reloading

namespace Listener

/-! ### Canonical forms -/

/-- The form is one of the two keywords that stand for a wish to reload. -/
def Form.IsWish (form : Form) : Prop :=
  form = .keyword "reload" ∨ form = .keyword "reload-all"

/-- The two keywords and nothing else stand for wishes. -/
lemma isReload_iff {form : Form} : isReload form = true ↔ form.IsWish := by
  cases form with
  | keyword k =>
    by_cases hnamed : k = "reload"
    · simp [isReload, Reload.ofForm?, Form.isKeyword, Form.IsWish, hnamed]
    · by_cases hall : k = "reload-all" <;>
        simp [isReload, Reload.ofForm?, Form.isKeyword, Form.IsWish, hnamed, hall]
  | _ => simp [isReload, Reload.ofForm?, Form.isKeyword, Form.IsWish]

def EndsPlain (items : List Form) : Prop :=
  ∀ h : items ≠ [], ¬(items.getLast h).IsWish

/-- `Canonical quoted spec`: the canonical form of a quoted form is `spec`. -/
inductive Canonical : Form → Form → Prop
  /-- A symbol is put into a vector. -/
  | symbol (s : Symbol) : Canonical (.symbol s) (.vector [.symbol s])
  /-- A vector loses all the wishes at its end. -/
  | vector {kept wishes : List Form} (hkept : EndsPlain kept)
      (hwishes : ∀ item ∈ wishes, item.IsWish) :
      Canonical (.vector (kept ++ wishes)) (.vector kept)
  /-- Everything else is left as it is. -/
  | other {form : Form} (hsymbol : ∀ s, form ≠ .symbol s)
      (hvector : ∀ items, form ≠ .vector items) : Canonical form form

/-- `SpecsOf args specs`: the arguments are wishes and quoted forms, and the canonical forms of the
latter are `specs`, in order. -/
inductive SpecsOf : List Form → List Form → Prop
  /-- No arguments have no specs. -/
  | nil : SpecsOf [] []
  /-- A wish is no spec. -/
  | wish {arg : Form} {args specs : List Form} (h : arg.IsWish) (hspecs : SpecsOf args specs) :
      SpecsOf (arg :: args) specs
  /-- A quoted form is a spec. -/
  | quoted {quoted spec : Form} {args specs : List Form} (h : Canonical quoted spec)
      (hspecs : SpecsOf args specs) : SpecsOf (.quote quoted :: args) (spec :: specs)

/-! ### Wishes at the end of a list -/

lemma endsPlain_dropReloads (items : List Form) : EndsPlain (dropReloads items) :=
  fun h hwish => List.rdropWhile_last_not isReload items h (isReload_iff.mpr hwish)

/-- A list that does not end in a wish is left as it is, and there are no wishes at its end. -/
lemma dropReloads_of_endsPlain {items : List Form} (h : EndsPlain items) :
    dropReloads items = items ∧ trailingReloads items = [] := by
  have hlast : ∀ hne : items ≠ [], ¬isReload (items.getLast hne) = true :=
    fun hne hwish => h hne (isReload_iff.mp hwish)
  have hnone : (trailingReloads items).reverse = [] := List.rtakeWhile_eq_nil_iff.mpr hlast
  exact ⟨List.rdropWhile_eq_self_iff.mpr hlast, List.reverse_eq_nil_iff.mp hnone⟩

/-! ### Specs -/

/-- The canonical form of a quoted form is the one that is computed. -/
lemma canonical_canonicalSpec (quoted : Form) : Canonical quoted (canonicalSpec quoted).1 := by
  cases quoted with
  | symbol s => exact .symbol s
  | vector items =>
    have hitems : items = dropReloads items ++ (trailingReloads items).reverse :=
      List.rdropWhile_append_rtakeWhile.symm
    have hwishes : ∀ item ∈ (trailingReloads items).reverse, item.IsWish := fun item hitem =>
      isReload_iff.mp (mem_trailingReloads.mp (List.mem_reverse.mp hitem)).1
    have hvector := Canonical.vector (endsPlain_dropReloads items) hwishes
    rwa [← hitems] at hvector
  | _ => exact .other nofun nofun

/-- A canonical spec is its own canonical form, and comes with no wish. -/
theorem Canonical.fixed {quoted spec : Form} (h : Canonical quoted spec) :
    canonicalSpec spec = (spec, none) := by
  cases h with
  | symbol s => rfl
  | vector hkept =>
    obtain ⟨hdrop, hnone⟩ := dropReloads_of_endsPlain hkept
    rw [canonicalSpec, hdrop, hnone]
    rfl
  | other hsymbol hvector =>
    cases quoted with
    | symbol s => exact absurd rfl (hsymbol s)
    | vector items => exact absurd rfl (hvector items)
    | _ => rfl

/-! ### Arguments -/

lemma isWish_of_ofForm? {form : Form} {wish : Reload} (h : Reload.ofForm? form = some wish) :
    form.IsWish :=
  isReload_iff.mp (by rw [isReload, h, Option.isSome_some])

/-- The specs of arguments are the canonical forms of those that are quoted. -/
theorem canonicalSpecs_specsOf {kind : RequireKind} {args : List Form} {specs : Specs}
    (h : canonicalSpecs kind args = .ok specs) : SpecsOf args specs.specs := by
  induction args generalizing specs with
  | nil =>
    cases h
    exact .nil
  | cons arg args ih =>
    obtain ⟨rest, hrest, hfirst⟩ := canonicalSpecs_cons.mp h
    have hspecs := ih hrest
    rcases hfirst with ⟨wish, hbare, rfl⟩ | ⟨quoted, rfl, rfl⟩
    · exact .wish (isWish_of_ofForm? hbare) hspecs
    · exact .quoted (canonical_canonicalSpec quoted) hspecs

lemma SpecsOf.accepted {args specs : List Form} (h : SpecsOf args specs) :
    ∀ arg ∈ args, arg.IsWish ∨ ∃ quoted, arg = .quote quoted := by
  induction h with
  | nil => exact fun _ h => absurd h List.not_mem_nil
  | wish h _ ih => exact List.forall_mem_cons.mpr ⟨.inl h, ih⟩
  | quoted _ _ ih => exact List.forall_mem_cons.mpr ⟨.inr ⟨_, rfl⟩, ih⟩

/-- Arguments that are wishes or quoted have canonical specs. -/
theorem exists_canonicalSpecs (kind : RequireKind) {args : List Form}
    (h : ∀ arg ∈ args, arg.IsWish ∨ ∃ quoted, arg = .quote quoted) :
    ∃ specs, canonicalSpecs kind args = .ok specs := by
  induction args with
  | nil => exact ⟨_, rfl⟩
  | cons arg args ih =>
    rw [List.forall_mem_cons] at h
    obtain ⟨rest, hrest⟩ := ih h.2
    rcases h.1 with hwish | hquoted
    · obtain ⟨wish, hbare⟩ := Option.isSome_iff_exists.mp (isReload_iff.mpr hwish)
      exact ⟨_, canonicalSpecs_cons.mpr ⟨rest, hrest, .inl ⟨wish, hbare, rfl⟩⟩⟩
    · obtain ⟨quoted, hquoted⟩ := hquoted
      exact ⟨_, canonicalSpecs_cons.mpr ⟨rest, hrest, .inr ⟨quoted, hquoted, rfl⟩⟩⟩

/-- Canonical specs that are quoted are their own specs, without a wish. -/
theorem SpecsOf.fixed {args specs : List Form} (h : SpecsOf args specs) (kind : RequireKind) :
    canonicalSpecs kind (specs.map .quote) = .ok ⟨specs, none⟩ := by
  induction h with
  | nil => rfl
  | wish _ _ ih => exact ih
  | quoted hspec _ ih =>
    refine canonicalSpecs_cons.mpr ⟨_, ih, .inr ⟨_, rfl, ?_⟩⟩
    rw [hspec.fixed]
    rfl

lemma canonicalize_of_ne_nil {args : List Form} (h : args ≠ []) (kind : RequireKind) :
    canonicalize kind args = canonicalSpecs kind args := by
  rw [canonicalize, List.isEmpty_eq_false_iff.mpr h]
  rfl

lemma canonicalize_nil (kind : RequireKind) (specs : Specs) :
    canonicalize kind [] ≠ .ok specs := by
  intro h
  rw [canonicalize] at h
  cases h

/-- The arguments of a directive are accepted exactly when there are some and each of them is a wish
to reload or quoted. Then the specs are the canonical forms of those that are quoted, in order; all
is reloaded if a wish for that stands alone or at the end of a quoted vector, only what is named if
there are none but wishes for that, and nothing without a wish; and the specs, quoted again, are
their own specs, without a wish. -/
theorem canonicalize_canonical (kind : RequireKind) (args : List Form) :
    ((∃ specs, canonicalize kind args = .ok specs) ↔
        args ≠ [] ∧ ∀ arg ∈ args, arg.IsWish ∨ ∃ quoted, arg = .quote quoted) ∧
      ∀ specs, canonicalize kind args = .ok specs →
        SpecsOf args specs.specs ∧
          (specs.reload = some .all ↔ Reload.all.AskedBy args) ∧
          (specs.reload = some .named ↔ Reload.named.AskedBy args ∧ ¬Reload.all.AskedBy args) ∧
          (specs.reload = none ↔ ¬Reload.named.AskedBy args ∧ ¬Reload.all.AskedBy args) ∧
          (specs.specs ≠ [] →
            canonicalize kind (specs.specs.map .quote) = .ok ⟨specs.specs, none⟩) := by
  by_cases hargs : args = []
  · subst hargs
    exact ⟨iff_of_false (fun ⟨specs, h⟩ => canonicalize_nil kind specs h) fun h => h.1 rfl,
      fun specs h => absurd h (canonicalize_nil kind specs)⟩
  · rw [canonicalize_of_ne_nil hargs]
    refine ⟨⟨fun ⟨specs, h⟩ => ⟨hargs, (canonicalSpecs_specsOf h).accepted⟩,
      fun h => exists_canonicalSpecs kind h.2⟩, fun specs h => ?_⟩
    have hspecs := canonicalSpecs_specsOf h
    have hgreatest := canonicalSpecs_greatest h
    refine ⟨hspecs, hgreatest.all_iff, hgreatest.eq_named_iff, hgreatest.eq_none_iff, fun hne => ?_⟩
    rw [canonicalize_of_ne_nil fun hnil => hne (List.map_eq_nil_iff.mp hnil)]
    exact hspecs.fixed kind

/-- A wish in front, a symbol, a vector with two wishes at its end behind another keyword, a quoted
wish, a vector of nothing but wishes, and a list. -/
theorem canonicalize_canonical_mixed :
    let args : List Form := [.keyword "reload", .quote (.ofName "a"),
      .quote (.vector [.ofName "b", .keyword "as", .keyword "reload-all", .keyword "reload"]),
      .quote (.keyword "reload"), .quote (.vector [.keyword "reload"]),
      .quote (.list [.ofName "c", .ofName "d"])]
    let specs : List Form := [.vector [.ofName "a"], .vector [.ofName "b", .keyword "as"],
      .keyword "reload", .vector [], .list [.ofName "c", .ofName "d"]]
    canonicalize .require args = .ok ⟨specs, some .all⟩ ∧ Reload.all.AskedBy args ∧
      SpecsOf args specs ∧ canonicalize .require (specs.map .quote) = .ok ⟨specs, none⟩ := by
  intro args specs
  have hok : canonicalize .require args = .ok ⟨specs, some .all⟩ := rfl
  obtain ⟨hspecs, hall, -, -, hfixed⟩ := (canonicalize_canonical .require args).2 _ hok
  exact ⟨hok, hall.mp rfl, hspecs, hfixed (List.cons_ne_nil _ _)⟩

end Listener
