/-
Which lines a listing has, and on what it depends.

* `NamePart`, `PublicName`: the name in the text of a symbol, and the names of the vars that are
  not private; `namePart_iff` and `mem_publicNames_iff` say that these are the computed ones.
* `lines_listing`: the lines of a listing are the names, if there are any.
* `listing_canonical`: the lines are in strictly ascending order and are those names, and nothing
  but the set of names matters.
-/
import Listener.Directive.Listing
import Listener.Proofs.Text.Order

namespace Listener

/-! ### Names -/

/-- `NamePart text name`: the name in the text of a symbol is `name`. -/
inductive NamePart : String → String → Prop
  /-- A slash on its own is a name. -/
  | slash : NamePart "/" "/"
  /-- A text without a slash is a name. -/
  | plain {text : String} (h : '/' ∉ text.toList) : NamePart text text
  /-- Any other text has its name behind the first slash. -/
  | qualified {qualifier name : String} (h : '/' ∉ qualifier.toList)
      (hne : qualifier ++ "/" ++ name ≠ "/") : NamePart (qualifier ++ "/" ++ name) name

lemma Symbol.name_plain {text : String} (h : '/' ∉ text.toList) : Symbol.name ⟨text⟩ = text := by
  have hparts : Symbol.parts? ⟨text⟩ = none := by
    rw [parts?, Text.splitFirst_eq_none.mpr h, ite_self]
  rw [Symbol.name, hparts]

lemma Symbol.name_qualified {qualifier name : String} (h : '/' ∉ qualifier.toList)
    (hne : qualifier ++ "/" ++ name ≠ "/") : Symbol.name ⟨qualifier ++ "/" ++ name⟩ = name := by
  have htext : (qualifier ++ "/" ++ name).toList = qualifier.toList ++ '/' :: name.toList := by simp
  have hparts : Symbol.parts? ⟨qualifier ++ "/" ++ name⟩ =
      some (qualifier.toList, name.toList) := by
    rw [parts?, if_neg hne, htext, Text.splitFirst_append h]
  rw [Symbol.name, hparts]
  exact String.ofList_toList

/-- Each text has one name, the computed one. -/
theorem namePart_iff {text name : String} : NamePart text name ↔ Symbol.name ⟨text⟩ = name := by
  constructor
  · intro h
    cases h with
    | slash => rfl
    | plain h => exact Symbol.name_plain h
    | qualified h hne => exact Symbol.name_qualified h hne
  · rintro rfl
    by_cases hmem : '/' ∈ text.toList
    · obtain ⟨before, after, hcut, hbefore⟩ := List.eq_append_cons_of_mem hmem
      have htext : text = String.ofList before ++ "/" ++ String.ofList after := by
        apply String.toList_inj.mp
        simp [hcut]
      by_cases hslash : text = "/"
      · rw [hslash]
        exact .slash
      · have hqualifier : '/' ∉ (String.ofList before).toList := by rwa [String.toList_ofList]
        rw [htext] at hslash ⊢
        rw [Symbol.name_qualified hqualifier hslash]
        exact .qualified hqualifier hslash
    · rw [Symbol.name_plain hmem]
      exact .plain hmem

/-- `PublicName vars name`: a var that is not private has the name. -/
def PublicName (vars : List VarInfo) (name : String) : Prop :=
  ∃ v ∈ vars, v.isPrivate = false ∧ NamePart v.name.text name

/-- The names that are listed are the public ones. -/
theorem mem_publicNames_iff {vars : List VarInfo} {name : String} :
    name ∈ publicNames vars ↔ PublicName vars name := by
  simp only [mem_publicNames, PublicName, namePart_iff]

lemma pairwise_publicNames (vars : List VarInfo) : (publicNames vars).Pairwise (· < ·) :=
  Text.pairwise_sortedSet _

/-- Vars with the same public names have the same names listed. -/
lemma publicNames_congr {vars₁ vars₂ : List VarInfo}
    (h : ∀ name, PublicName vars₁ name ↔ PublicName vars₂ name) :
    publicNames vars₁ = publicNames vars₂ :=
  (pairwise_publicNames vars₁).eq_of_mem_iff (pairwise_publicNames vars₂) fun name =>
    mem_publicNames_iff.trans ((h name).trans mem_publicNames_iff.symm)

/-- There are no names just where all vars are private. -/
lemma publicNames_eq_nil_iff {vars : List VarInfo} :
    publicNames vars = [] ↔ ∀ v ∈ vars, v.isPrivate = true := by
  constructor
  · intro h v hv
    by_contra hpublic
    have hname : v.name.name ∈ publicNames vars :=
      mem_publicNames.mpr ⟨v, hv, Bool.eq_false_of_not_eq_true hpublic, rfl⟩
    rw [h] at hname
    exact List.not_mem_nil hname
  · intro h
    refine List.eq_nil_iff_forall_not_mem.mpr fun name hname => ?_
    obtain ⟨v, hv, hpublic, -⟩ := mem_publicNames.mp hname
    exact Bool.false_ne_true (hpublic.symm.trans (h v hv))

/-! ### Listings -/

/-- Names without line ends are the lines of their listing. -/
theorem lines_listing {vars : List VarInfo} (hne : publicNames vars ≠ [])
    (h : ∀ name ∈ publicNames vars, '\n' ∉ name.toList) :
    Text.lines (listing vars) = publicNames vars := by
  have htext : listing vars = "\n".intercalate (publicNames vars) := by
    unfold listing
    split
    · contradiction
    · rfl
  rw [htext, Text.lines_intercalate h hne]

lemma lines_listing_of_nil {vars : List VarInfo} (h : publicNames vars = []) :
    Text.lines (listing vars) = ["nil"] := by
  rw [listing, h]
  rfl

/-- If no public name has a line end, the lines of a listing are in strictly ascending order of
their bytes. They are the names of the vars that are not private, sorted and without what repeats
the name in front of it, so that each of the names has its line and nothing else does; if all vars
are private, the one line is nil. And vars with the same set of public names have the same listing,
whatever else is different. -/
theorem listing_canonical :
    (∀ vars : List VarInfo, (∀ name, PublicName vars name → '\n' ∉ name.toList) →
      (Text.lines (listing vars)).Pairwise (fun s t => Text.bytes s < Text.bytes t) ∧
        ((∃ v ∈ vars, v.isPrivate = false) →
          (∀ line, line ∈ Text.lines (listing vars) ↔ PublicName vars line) ∧
            Text.lines (listing vars) =
              (((vars.filter fun v => !v.isPrivate).map fun v => v.name.name).mergeSort
                fun s t => Text.bytes s ≤ Text.bytes t).destutter (· ≠ ·)) ∧
        ((∀ v ∈ vars, v.isPrivate = true) → Text.lines (listing vars) = ["nil"])) ∧
      ∀ vars₁ vars₂ : List VarInfo, (∀ name, PublicName vars₁ name ↔ PublicName vars₂ name) →
        listing vars₁ = listing vars₂ := by
  refine ⟨fun vars hends => ?_, fun vars₁ vars₂ hsame => ?_⟩
  · by_cases hnone : publicNames vars = []
    · have hprivate := publicNames_eq_nil_iff.mp hnone
      rw [lines_listing_of_nil hnone]
      refine ⟨List.pairwise_singleton _ _, fun ⟨v, hv, hpublic⟩ => ?_, fun _ => rfl⟩
      exact absurd (hprivate v hv) (Bool.eq_false_iff.mp hpublic)
    · have hlines : Text.lines (listing vars) = publicNames vars :=
        lines_listing hnone fun name hname => hends name (mem_publicNames_iff.mp hname)
      rw [hlines]
      refine ⟨?_, fun _ => ⟨fun line => mem_publicNames_iff, ?_⟩, fun hprivate => ?_⟩
      · exact (pairwise_publicNames vars).imp Text.bytes_lt_bytes
      · exact (Text.destutter_mergeSort _).symm
      · exact absurd (publicNames_eq_nil_iff.mpr hprivate) hnone
  · rw [listing, listing, publicNames_congr hsame]

/-- A slash as a name, twice, a name with a slash, and two names that pairs of surrogates would put
the other way round; the same names from other namespaces or none; and no name but a private one. -/
theorem listing_canonical_slashes :
    let hidden : VarInfo := { name := ⟨"a/hidden"⟩, ns := ⟨"a"⟩, isPrivate := true }
    let vars : List VarInfo := [{ name := ⟨"a/😀"⟩, ns := ⟨"a"⟩ }, { name := ⟨"a//"⟩, ns := ⟨"a"⟩ },
      hidden, { name := ⟨"a/b/c"⟩, ns := ⟨"a"⟩ }, { name := ⟨"a/｡"⟩, ns := ⟨"a"⟩ },
      { name := ⟨"a//"⟩, ns := ⟨"a"⟩ }]
    let others : List VarInfo := [{ name := ⟨"/"⟩, ns := ⟨"b"⟩ }, { name := ⟨"b/｡"⟩, ns := ⟨"b"⟩ },
      { name := ⟨"😀"⟩, ns := ⟨"c"⟩ }, { name := ⟨"c/b/c"⟩, ns := ⟨"c"⟩ }]
    (∀ name, PublicName vars name → '\n' ∉ name.toList) ∧ (∃ v ∈ vars, v.isPrivate = false) ∧
      (∀ name, PublicName vars name ↔ PublicName others name) ∧
      listing vars = "/\nb/c\n｡\n😀" ∧ listing others = listing vars ∧
      (Text.lines (listing vars)).Pairwise (fun s t => Text.bytes s < Text.bytes t) ∧
      (∀ line, line ∈ Text.lines (listing vars) ↔ PublicName vars line) ∧
      Text.lines (listing [hidden]) = ["nil"] := by
  intro hidden vars others
  have hnames : publicNames vars = ["/", "b/c", "｡", "😀"] := by decide
  have hothers : publicNames others = ["/", "b/c", "｡", "😀"] := by decide
  have hends : ∀ name, PublicName vars name → '\n' ∉ name.toList := by
    intro name hname
    rw [← mem_publicNames_iff, hnames] at hname
    revert name
    decide
  have hpublic : ∃ v ∈ vars, v.isPrivate = false := ⟨_, List.mem_cons_self, rfl⟩
  have hsame : ∀ name, PublicName vars name ↔ PublicName others name := fun name => by
    rw [← mem_publicNames_iff, ← mem_publicNames_iff, hnames, hothers]
  have hnone : ∀ name, PublicName [hidden] name → '\n' ∉ name.toList := by
    intro name hname
    rw [← mem_publicNames_iff] at hname
    exact absurd hname List.not_mem_nil
  obtain ⟨hascending, hlines, -⟩ := listing_canonical.1 vars hends
  refine ⟨hends, hpublic, hsame, ?_, (listing_canonical.2 vars others hsame).symm, hascending,
    (hlines hpublic).1, (listing_canonical.1 [hidden] hnone).2.2 (by simp [hidden])⟩
  rw [listing, hnames]
  rfl

end Listener
