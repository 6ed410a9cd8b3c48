/-
The text of the first form.

* `Spans`: tokens that are read as items whatever follows them; `reads_spans`.
* `Token.move`, `Node.move`, `Item.move`: the same things at other places; `Lexes.move`,
  `reads_move` and `yield_move` say that places do not matter for how a text is read.
* `firstForm_split`: the item of the first form, and the items in front of it.
* `exists_slices`, `Found`, `first_found`: the texts in front of the first form and of the form
  itself, with their tokens and items; `first_parts`, `first_slice` say how both are read.
* `readText_slice`: the text of the first form is cut out exactly.
-/
import Listener.Proofs.Reader.Locality
import Listener.Proofs.Reader.Origin
import Mathlib.Data.List.Basic

namespace Listener

namespace Reader

/-! ### The tokens of items -/

/-- An item may end at a place; one that is left out may end anywhere. -/
def Item.EndsAt : Item → Nat → Prop
  | .datum _ stop, place => stop = place
  | .discarded, _ => True

/-- The tokens are read as the items, whatever follows them. -/
structure Spans (xs : List Token) (items : List Item) : Prop where
  /-- They are read as the items. -/
  reads : ∀ us, Reads (xs ++ us) items us
  /-- The last of them may stand last. -/
  ends : ∀ t, xs.getLast? = some t → t.lexeme.Ends
  /-- The last of them ends where the last item does. -/
  stops : ∀ t i, xs.getLast? = some t → items.getLast? = some i → i.EndsAt t.stop

namespace Spans

variable {xs ys : List Token} {t : Token} {i : Item} {items : List Item} {k : Nat} {n : Node}
  {stop : Nat}

lemma ne_nil (h : Spans xs items) (hne : items ≠ []) : xs ≠ [] := by
  rintro rfl
  have hreads : Reads [] items [] := h.reads []
  cases hreads
  exact hne rfl

lemma eq_nil (h : Spans xs []) : xs = [] := by
  have hreads := h.reads []
  rw [List.append_nil] at hreads
  cases hreads
  rfl

lemma cons (h : Spans xs [i]) (h' : Spans ys items) : Spans (xs ++ ys) (i :: items) := by
  have hreads (us : List Token) : Reads (xs ++ ys ++ us) (i :: items) us := by
    rw [List.append_assoc]
    exact reads_append (h.reads _) (h'.reads us)
  cases items with
  | nil =>
    rw [h'.eq_nil, List.append_nil] at hreads ⊢
    exact ⟨hreads, h.ends, h.stops⟩
  | cons j items =>
    have hlast : (xs ++ ys).getLast? = ys.getLast? :=
      List.getLast?_append_of_ne_nil xs (h'.ne_nil (List.cons_ne_nil j items))
    refine ⟨hreads, fun t ht => h'.ends t (hlast ▸ ht), fun t i' ht hi => ?_⟩
    exact h'.stops t i' (hlast ▸ ht) hi

/-- The last token of a lone form ends where the form does. -/
lemma lone_stop (h : Spans xs (lone k n stop)) (ht : xs.getLast? = some t) : stop = t.stop :=
  h.stops t (.datum n stop) ht (by simp [lone])

/-- Tokens in front of a lone form, and the item that they are together. -/
lemma behind (h : Spans xs (lone k n stop)) (ts : List Token)
    (hi : ∀ place, stop = place → i.EndsAt place)
    (hreads : ∀ us, Reads (ts ++ (xs ++ us)) [i] us) : Spans (ts ++ xs) [i] := by
  have hne : xs ≠ [] := h.ne_nil (by simp [lone])
  have hlast : (ts ++ xs).getLast? = xs.getLast? := List.getLast?_append_of_ne_nil ts hne
  refine ⟨fun us => ?_, fun u hu => h.ends u (hlast ▸ hu), fun u j hu hj => ?_⟩
  · rw [List.append_assoc]
    exact hreads us
  · obtain rfl : i = j := Option.some.inj hj
    exact hi _ (h.lone_stop (hlast ▸ hu))

end Spans

/-- What is read as items is a span of tokens. -/
theorem reads_spans {ts us : List Token} {items : List Item} (h : Reads ts items us) :
    ∃ xs, ts = xs ++ us ∧ Spans xs items := by
  induction h with
  | nil ts =>
    have hnone (t : Token) : ([] : List Token).getLast? ≠ some t := nofun
    exact ⟨[], rfl, .nil, fun t ht => absurd ht (hnone t), fun t _ ht => absurd ht (hnone t)⟩
  | @atom t a ts us items ht _ ih =>
    obtain ⟨xs, rfl, hxs⟩ := ih
    -- in every case the first item has a span of its own, and the rest has one by induction
    have hone : Spans [t] [.datum (.atom t.start a) t.stop] := by
      refine ⟨fun us => .atom ht (.nil us), fun u hu => ?_, fun u i hu hi => ?_⟩
      · obtain rfl : t = u := Option.some.inj hu
        rw [ht]
        trivial
      · obtain rfl : t = u := Option.some.inj hu
        obtain rfl : _ = i := Option.some.inj hi
        rfl
    exact ⟨[t] ++ xs, rfl, hone.cons hxs⟩
  | @bracket t u b ts us vs inner items ht hu _ _ ihin ih =>
    obtain ⟨xs, rfl, hxs⟩ := ihin
    obtain ⟨ys, rfl, hys⟩ := ih
    have hone : Spans (t :: (xs ++ [u])) [.datum (.bracket t.start b (nodes inner)) u.stop] := by
      have hlast : (t :: (xs ++ [u])).getLast? = some u := by
        rw [← List.cons_append]
        exact List.getLast?_concat
      refine ⟨fun us => ?_, fun v hv => ?_, fun v i hv hi => ?_⟩
      · rw [List.cons_append, List.append_assoc]
        exact .bracket ht hu (hxs.reads _) (.nil us)
      · obtain rfl : u = v := Option.some.inj (hlast.symm.trans hv)
        rw [hu]
        trivial
      · obtain rfl : u = v := Option.some.inj (hlast.symm.trans hv)
        obtain rfl : _ = i := Option.some.inj hi
        rfl
    exact ⟨(t :: (xs ++ [u])) ++ ys, by simp, hone.cons hys⟩
  | @sigil t s k n stop ts us vs items ht _ _ ihin ih =>
    obtain ⟨xs, rfl, hxs⟩ := ihin
    obtain ⟨ys, rfl, hys⟩ := ih
    have hone : Spans ([t] ++ xs) [.datum (.sigil t.start s n) stop] :=
      hxs.behind [t] (fun _ h => h) fun us => .sigil ht (hxs.reads us) (.nil us)
    exact ⟨[t] ++ xs ++ ys, by simp, hone.cons hys⟩
  | @annotated t k l m n stop stop' ts us vs ws items ht _ _ _ ihm ihn ih =>
    obtain ⟨xs, rfl, hxs⟩ := ihm
    obtain ⟨ys, rfl, hys⟩ := ihn
    obtain ⟨zs, rfl, hzs⟩ := ih
    have hone : Spans (t :: xs ++ ys) [.datum (.annotated t.start m n) stop'] :=
      hys.behind (t :: xs) (fun _ h => h) fun us =>
        .annotated ht (hxs.reads _) (hys.reads us) (.nil us)
    exact ⟨t :: xs ++ ys ++ zs, by simp, hone.cons hzs⟩
  | @discard t k n stop ts us vs items ht _ _ ihin ih =>
    obtain ⟨xs, rfl, hxs⟩ := ihin
    obtain ⟨ys, rfl, hys⟩ := ih
    have hone : Spans ([t] ++ xs) [.discarded] :=
      hxs.behind [t] (fun _ _ => trivial) fun us => .discard ht (hxs.reads us) (.nil us)
    exact ⟨[t] ++ xs ++ ys, by simp, hone.cons hys⟩

/-! ### Other places -/

section

variable (ρ : Nat → Nat)

/-- The token at other places. -/
def Token.move (t : Token) : Token :=
  ⟨t.lexeme, ρ t.start, ρ t.stop⟩

mutual

/-- The form in outline at other places. -/
def Node.move : Node → Node
  | .atom start a => .atom (ρ start) a
  | .bracket start b items => .bracket (ρ start) b (Node.moveAll items)
  | .sigil start s inner => .sigil (ρ start) s inner.move
  | .annotated start metadata target => .annotated (ρ start) metadata.move target.move

def Node.moveAll : List Node → List Node
  | [] => []
  | n :: ns => n.move :: Node.moveAll ns

end

def Item.move : Item → Item
  | .datum n stop => .datum (n.move ρ) (ρ stop)
  | .discarded => .discarded

/-- What an item has to offer, at another place. -/
def Yield.move : Yield → Yield
  | .form f => .form f
  | .choice start branch => .choice (ρ start) branch
  | .splice start branch => .splice (ρ start) branch

variable {ρ}

@[simp] lemma nodes_move (items : List Item) :
    nodes (items.map (Item.move ρ)) = Node.moveAll ρ (nodes items) := by
  induction items with
  | nil => rfl
  | cons i items ih =>
    cases i with
    | datum n stop => simpa [Item.move, Node.moveAll] using ih
    | discarded => simpa [Item.move] using ih

@[simp] lemma lone_move (k : Nat) (n : Node) (stop : Nat) :
    (lone k n stop).map (Item.move ρ) = lone k (n.move ρ) (ρ stop) := by
  simp [lone, Item.move]

/-- Tokens at other places are read as the items there. -/
theorem reads_move {ts us : List Token} {items : List Item} (h : Reads ts items us) :
    Reads (ts.map (Token.move ρ)) (items.map (Item.move ρ)) (us.map (Token.move ρ)) := by
  induction h with
  | nil => exact .nil _
  | @atom t a ts us items ht _ ih => exact .atom (t := t.move ρ) ht ih
  | @bracket t u b ts us vs inner items ht hu _ _ ihin ih =>
    have hitem := Reads.bracket (t := t.move ρ) (u := u.move ρ) ht hu ihin ih
    rw [nodes_move] at hitem
    exact hitem
  | @sigil t s k n stop ts us vs items ht _ _ ihin ih =>
    rw [lone_move] at ihin
    exact .sigil (t := t.move ρ) ht ihin ih
  | @annotated t k l m n stop stop' ts us vs ws items ht _ _ _ ihm ihn ih =>
    rw [lone_move] at ihm ihn
    exact .annotated (t := t.move ρ) ht ihm ihn ih
  | @discard t k n stop ts us vs items ht _ _ ihin ih =>
    rw [lone_move] at ihin
    exact .discard (t := t.move ρ) ht ihin ih

/-- A span of tokens is one at other places. -/
theorem Spans.move {xs : List Token} {items : List Item} (h : Spans xs items) (ρ : Nat → Nat) :
    Spans (xs.map (Token.move ρ)) (items.map (Item.move ρ)) := by
  obtain ⟨ys, hys, hspans⟩ := reads_spans (reads_move (ρ := ρ) (h.reads []))
  rw [List.append_nil, List.map_nil, List.append_nil] at hys
  exact hys ▸ hspans

/-- A text that stands behind other characters is taken up by the same tokens at other places. -/
theorem Lexes.move {pos pos' : Nat} {xs rest : List Char} {ts : List Token}
    (h : Lexes pos xs rest ts) (hρ : ∀ k, ρ (pos + k) = pos' + k) :
    Lexes pos' xs rest (ts.map (Token.move ρ)) := by
  induction h generalizing pos' with
  | nil => exact .nil _ _
  | @cons pos gap ws xs rest c l ts hgap hscan _ ih =>
    have htoken : Token.move ρ ⟨l, pos + gap.length, pos + (gap ++ c :: ws).length⟩ =
        ⟨l, pos' + gap.length, pos' + (gap ++ c :: ws).length⟩ := by
      simp only [Token.move, hρ]
    rw [List.map_cons, htoken]
    refine .cons hgap hscan (ih fun k => ?_)
    rw [Nat.add_assoc, hρ, Nat.add_assoc]

end

/-! ### What items offer at other places -/

section

variable {ρ : Nat → Nat}

@[simp] lemma isSplice_move (n : Node) : (n.move ρ).isSplice = n.isSplice := by
  cases n with
  | bracket start b items => cases b <;> simp [Node.move, Node.isSplice]
  | _ => simp [Node.move, Node.isSplice]

/-- The one form that an offer is does not depend on its place. -/
lemma asForm_move {y : Yield} {f : Form} (h : y.asForm = .ok f) :
    (y.move ρ).asForm = .ok f := by
  cases y with
  | form g => exact h
  | choice start branch =>
    cases branch with
    | none => cases h
    | some g => exact h
  | splice start branch => cases h

/-- The forms that an offer contributes do not depend on its place. -/
lemma asItems_move {y : Yield} {fs : List Form} (h : y.asItems = .ok fs) :
    (y.move ρ).asItems = .ok fs := by
  cases y with
  | form g => exact h
  | choice start branch => exact h
  | splice start branch =>
    cases branch with
    | none => exact h
    | some f => cases f <;> first | exact h | cases h

/-- What forms between two brackets are together does not depend on the place. -/
lemma bracket_move {b : Bracket} {start : Nat} {fs : List Form} {y : Yield}
    (h : b.yield start fs = .ok y) : b.yield (ρ start) fs = .ok (y.move ρ) := by
  cases b with
  | map =>
    simp only [Bracket.yield] at h ⊢
    split at h <;> cases h
    rfl
  | choice =>
    obtain ⟨branch, hbranch, rfl⟩ := map_eq_ok h
    simp only [Bracket.yield, mapError_eq_ok hbranch]
    rfl
  | splice =>
    obtain ⟨branch, hbranch, rfl⟩ := map_eq_ok h
    simp only [Bracket.yield, mapError_eq_ok hbranch]
    rfl
  | _ =>
    cases h
    rfl

/-- The one form of an item, where one is needed, does not depend on the place. -/
lemma single_move {n : Node} (hn : ∀ y, n.yield = .ok y → (n.move ρ).yield = .ok (y.move ρ))
    {f : Form} (h : n.single n.yield = .ok f) :
    (n.move ρ).single (n.move ρ).yield = .ok f := by
  rw [Node.single] at h ⊢
  rw [isSplice_move]
  split at h
  · cases h
  · rename_i hsplice
    obtain ⟨y, hy, hf⟩ := bind_eq_ok h
    rw [if_neg hsplice, hn y hy]
    exact asForm_move hf

mutual

/-- What an item has to offer does not depend on the place. -/
theorem yield_move : ∀ (n : Node) (y : Yield), n.yield = .ok y →
    (n.move ρ).yield = .ok (y.move ρ)
  | .atom start a, y, h => by
    rw [Node.yield] at h
    obtain ⟨f, hf, rfl⟩ := map_eq_ok h
    rw [Node.move, Node.yield, mapError_eq_ok hf]
    rfl
  | .bracket start b items, y, h => by
    rw [Node.yield] at h
    obtain ⟨fs, hfs, hy⟩ := bind_eq_ok h
    rw [Node.move, Node.yield, forms_move items fs hfs]
    exact bracket_move hy
  | .sigil start s inner, y, h => by
    rw [Node.yield] at h
    obtain ⟨f, hf, rfl⟩ := map_eq_ok h
    rw [Node.move, Node.yield, single_move (yield_move inner) hf]
    rfl
  | .annotated start m n, y, h => by
    rw [Node.yield] at h
    obtain ⟨f, hf, h⟩ := bind_eq_ok h
    obtain ⟨g, hg, rfl⟩ := map_eq_ok h
    rw [Node.move, Node.yield, single_move (yield_move m) hf, single_move (yield_move n) hg]
    rfl

/-- The forms that items contribute do not depend on the place. -/
lemma forms_move : ∀ (ns : List Node) (fs : List Form), Node.forms ns = .ok fs →
    Node.forms (Node.moveAll ρ ns) = .ok fs
  | [], fs, h => h
  | n :: ns, fs, h => by
    rw [Node.forms] at h
    obtain ⟨gs, hn, h⟩ := bind_eq_ok h
    obtain ⟨y, hy, hgs⟩ := bind_eq_ok hn
    obtain ⟨hs, hns, rfl⟩ := map_eq_ok h
    rw [Node.moveAll, Node.forms, yield_move n y hy, forms_move ns hs hns]
    simp only [Except.bind, asItems_move hgs, Except.map]

end

/-- The forms that an item contributes outside of all brackets do not depend on the place. -/
lemma topForms_move {n : Node} {fs : List Form} (h : n.topForms = .ok fs) :
    (n.move ρ).topForms = .ok fs := by
  rw [Node.topForms] at h ⊢
  rw [isSplice_move]
  split at h
  · cases h
  · rename_i hsplice
    obtain ⟨y, hy, hfs⟩ := bind_eq_ok h
    rw [if_neg hsplice, yield_move n y hy]
    exact asItems_move hfs

end

/-! ### The item of the first form -/

/-- Only a conditional for several forms offers several forms. -/
lemma isSplice_of_yield {n : Node} {start : Nat} {branch : Option Form}
    (h : n.yield = .ok (.splice start branch)) : n.isSplice = true := by
  cases n with
  | atom start' a =>
    rw [Node.yield] at h
    obtain ⟨f, -, he⟩ := map_eq_ok h
    cases he
  | bracket start' b items =>
    rw [Node.yield] at h
    obtain ⟨fs, -, hb⟩ := bind_eq_ok h
    cases b with
    | splice => rfl
    | choice =>
      obtain ⟨_, -, he⟩ := map_eq_ok hb
      cases he
    | map =>
      simp only [Bracket.yield] at hb
      split at hb <;> cases hb
    | _ => cases hb
  | sigil start' s inner =>
    rw [Node.yield] at h
    obtain ⟨f, -, he⟩ := map_eq_ok h
    cases he
  | annotated start' m n =>
    rw [Node.yield] at h
    obtain ⟨f, -, h⟩ := bind_eq_ok h
    obtain ⟨g, -, he⟩ := map_eq_ok h
    cases he

/-- Outside of all brackets an item contributes one form at most. -/
lemma eq_nil_of_topForms {n : Node} {f : Form} {fs : List Form}
    (h : n.topForms = .ok (f :: fs)) : fs = [] := by
  rw [Node.topForms] at h
  split at h
  · cases h
  · rename_i hsplice
    obtain ⟨y, hy, hfs⟩ := bind_eq_ok h
    cases y with
    | form g =>
      cases hfs
      rfl
    | choice start branch =>
      cases branch with
      | none => cases hfs
      | some g =>
        cases hfs
        rfl
    | splice start branch => exact absurd (isSplice_of_yield hy) hsplice

/-- The items in front of the item of the first form contribute nothing. -/
theorem firstForm_split {items : List Item} {f : Form} {start stop : Nat}
    (h : firstForm items = .ok (some (f, start, stop))) :
    ∃ before n after, items = before ++ .datum n stop :: after ∧ itemForms before = .ok [] ∧
      n.topForms = .ok [f] ∧ n.start = start := by
  induction items with
  | nil => cases h
  | cons i items ih =>
    cases i with
    | discarded =>
      obtain ⟨before, n, after, rfl, hbefore, hn⟩ := ih h
      exact ⟨.discarded :: before, n, after, rfl, by rw [itemForms, hbefore]; rfl, hn⟩
    | datum m stop' =>
      rw [firstForm] at h
      obtain ⟨fs, hfs, h⟩ := bind_eq_ok h
      cases fs with
      | nil =>
        obtain ⟨before, n, after, rfl, hbefore, hn⟩ := ih h
        refine ⟨.datum m stop' :: before, n, after, rfl, ?_, hn⟩
        rw [itemForms, Item.forms, hfs, hbefore]
        rfl
      | cons g gs =>
        cases h
        obtain rfl := eq_nil_of_topForms hfs
        exact ⟨[], m, items, rfl, rfl, hfs, rfl⟩

/-! ### Slices -/

lemma forms_of_reads {pos : Nat} {cs : List Char} {ts : List Token} {items : List Item}
    (hcuts : lex 0 cs = ⟨ts, pos, true⟩) (hreads : Reads ts items []) :
    forms cs = itemForms items := by
  have hall : Reads (lex 0 cs).tokens items [] := by rw [hcuts]; exact hreads
  rw [forms, outline_of_reads hall, hcuts]
  rfl

lemma start_of_reads {t : Token} {ts us : List Token} {n : Node} {stop : Nat}
    (h : Reads (t :: ts) [.datum n stop] us) : n.start = t.start := by
  cases h <;> rfl

/-- Where tokens are followed by others, the text is cut in front of the first of these and behind
the last of them, and both parts have the same tokens on their own. -/
theorem exists_slices {cs : List Char} {as bs us : List Token} {b : Token}
    (h : (lex 0 cs).tokens = as ++ (b :: bs ++ us))
    (has : ∀ t, as.getLast? = some t → t.lexeme.Ends)
    (hbs : ∀ t, (b :: bs).getLast? = some t → t.lexeme.Ends) :
    ∃ ps s rs, cs = ps ++ s ++ rs ∧ lex 0 ps = ⟨as, ps.length, true⟩ ∧
      Lexes b.start s [] (b :: bs) ∧ b.start = ps.length := by
  obtain ⟨xs, rest, rfl, hxs, hrest⟩ := exists_lexes h
  obtain ⟨ys, rs, rfl, hys, -⟩ := exists_lexes hrest
  obtain ⟨gap, s, rfl, hgap, hb, hs⟩ := hys.exists_gap
  rw [Nat.zero_add] at hb
  refine ⟨xs ++ gap, s, rs, by simp, ?_, hs.cut_off hbs, by rw [hb, List.length_append]⟩
  have hcut : Lexes 0 xs gap as := by
    rw [List.append_assoc] at hxs
    exact hxs.cut_off has
  rw [hcut.cuts, lex_nil hgap]
  simp [Lexed.prepend]

/-- `Found as before bs n start stop f`: the tokens `as` are those of the items `before`, which
contribute nothing, and the tokens `bs` behind them are those of the item `n` between two places,
which contributes the form `f`. -/
structure Found (as : List Token) (before : List Item) (bs : List Token) (n : Node)
    (start stop : Nat) (f : Form) : Prop where
  /-- The items in front. -/
  front : Spans as before
  /-- They contribute nothing. -/
  silent : itemForms before = .ok []
  item : Spans bs [.datum n stop]
  /-- It contributes the form. -/
  form : n.topForms = .ok [f]
  /-- It starts at the first place. -/
  place : n.start = start

/-- What is found at the start of a text is an item between two places. The text in front of them
has the tokens of the items in front, and the text between them has the tokens of the item. -/
theorem first_found {cs : List Char} {f : Form} {start stop : Nat}
    (h : first cs = .ok (f, start, stop)) :
    ∃ ps s rs as before bs n, cs = ps ++ s ++ rs ∧ ps.length = start ∧ (ps ++ s).length = stop ∧
      lex 0 ps = ⟨as, ps.length, true⟩ ∧ Lexes start s [] bs ∧
      Found as before bs n start stop f := by
  obtain ⟨before, n, after, hitems, hbefore, hn, hstart⟩ := firstForm_split (first_eq_ok h).2
  obtain ⟨us, hreads⟩ := outline_reads cs
  rw [hitems] at hreads
  -- the tokens of the items in front, of the item, and of the rest
  obtain ⟨ts, hfront, hitem⟩ := reads_split before hreads
  obtain ⟨vs, hitem, -⟩ := reads_split [_] hitem
  obtain ⟨as, htokens, has⟩ := reads_spans hfront
  obtain ⟨bs, rfl, hbs⟩ := reads_spans hitem
  obtain ⟨b, bs, rfl⟩ := List.exists_cons_of_ne_nil (hbs.ne_nil (List.cons_ne_nil _ _))
  obtain ⟨ps, s, rs, hcs, hps, hs, hb⟩ := exists_slices htokens has.ends hbs.ends
  have hfirst : b.start = start := by rw [← hstart, start_of_reads hitem]
  have hlast : (ps ++ s).length = stop := by
    obtain ⟨t, ht⟩ : ∃ t, (b :: bs).getLast? = some t :=
      Option.isSome_iff_exists.mp (List.getLast?_isSome.mpr (List.cons_ne_nil b bs))
    have hplace : stop = t.stop := hbs.stops t _ ht rfl
    rw [hplace, hs.stop_eq ht, hb, List.length_append]
  exact ⟨ps, s, rs, as, before, b :: bs, n, hcs, hb.symm.trans hfirst, hlast, hps, hfirst ▸ hs,
    has, hbefore, hbs, hn, hstart⟩

/-- What is found at the start of a text: the text in front of its places has no forms, and the
text between them has this form alone. -/
theorem first_parts {cs : List Char} {f : Form} {start stop : Nat}
    (h : first cs = .ok (f, start, stop)) :
    ∃ ps s rs, cs = ps ++ s ++ rs ∧ ps.length = start ∧ (ps ++ s).length = stop ∧
      forms ps = .ok [] ∧ forms s = .ok [f] := by
  obtain ⟨ps, s, rs, as, before, bs, n, hcs, hstart, hstop, hps, hs, hfound⟩ := first_found h
  have hfront : forms ps = .ok [] := by
    have hreads := hfound.front.reads []
    rw [List.append_nil] at hreads
    rw [forms_of_reads hps hreads, hfound.silent]
  have hform : forms s = .ok [f] := by
    have hmoved : Lexes 0 s [] (bs.map (Token.move (· - start))) :=
      hs.move fun k => by rw [Nat.zero_add, Nat.add_sub_cancel_left]
    have hreads := (hfound.item.move (· - start)).reads []
    rw [List.append_nil] at hreads
    rw [forms_of_reads hmoved.cuts.lex_eq hreads]
    simp only [List.map_cons, List.map_nil, Item.move, itemForms, Item.forms,
      topForms_move hfound.form]
    rfl
  exact ⟨ps, s, rs, hcs, hstart, hstop, hfront, hform⟩

/-- The parts of a text in front of a form that is found, and of the form itself, are cut out at
its places. -/
theorem first_slice {cs : List Char} {f : Form} {start stop : Nat}
    (h : first cs = .ok (f, start, stop)) :
    ∃ ps rs, cs = ps ++ (cs.take stop).drop start ++ rs ∧ forms ps = .ok [] ∧
      forms ((cs.take stop).drop start) = .ok [f] := by
  obtain ⟨ps, s, rs, hcs, hstart, hstop, hps, hs⟩ := first_parts h
  have hslice : (cs.take stop).drop start = s := by
    rw [hcs, List.take_left' hstop, List.drop_left' hstart]
  rw [hslice]
  exact ⟨ps, rs, hcs, hps, hs⟩

end Reader

/-- The text of the first form is cut out exactly. It is found if the form is, and fails to be
found as the form does. What stands in front of it has no forms, and it has the first form alone. -/
theorem readText_slice (text : String) :
    (∃ e, readForm text = .error e ∧ readText text = .error e) ∨
      ∃ f s p r, readForm text = .ok f ∧ readText text = .ok s ∧ text = p ++ s ++ r ∧
        readAll p = .ok [] ∧ readAll s = .ok [f] := by
  cases hfirst : Reader.first text.toList with
  | error e =>
    have herror : readForm text = .error (e.toError text.toList) := by
      rw [readForm, hfirst]
      rfl
    exact .inl ⟨_, herror, (readText_error_iff text _).mpr herror⟩
  | ok found =>
    obtain ⟨f, start, stop⟩ := found
    right
    obtain ⟨ps, rs, htext, hps, hs⟩ := Reader.first_slice hfirst
    refine ⟨f, String.ofList ((text.toList.take stop).drop start), String.ofList ps,
      String.ofList rs, ?_, ?_, ?_, ?_, ?_⟩
    · rw [readForm, hfirst]
      rfl
    · rw [readText, hfirst]
      rfl
    · rw [← String.ofList_append, ← String.ofList_append, ← htext, String.ofList_toList]
    · rw [readAll, String.toList_ofList, hps]
      rfl
    · rw [readAll, String.toList_ofList, hs]
      rfl

end Listener
