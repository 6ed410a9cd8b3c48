/-
How tokens nest, as a grammar.

* `Reads`: a line of tokens is read as items up to the tokens that follow; one
  rule for each way that an item begins.
* `run_of_reads`: the machine of the outline follows the grammar, whatever has
  begun before.
* `reads_append`, `reads_split`, `reads_agree`: items are read one after
  the other, and in one way only; `reads_one_unique` is the case of one item.
* `outline_reads`: the items of an outline are what the grammar reads.
-/
import Listener.Reader.Outline
import Mathlib.Tactic.Lemma

namespace Listener

namespace Reader

/-! ### The grammar -/

/-- The form that an item is, if it is not left out. -/
def Item.node? : Item → Option Node
  | .datum n _ => some n
  | .discarded => none

/-- The forms of items. -/
def nodes (items : List Item) : List Node :=
  items.filterMap Item.node?

@[simp] lemma nodes_nil : nodes [] = [] := rfl

@[simp] lemma nodes_datum (n : Node) (stop : Nat) (items : List Item) :
    nodes (.datum n stop :: items) = n :: nodes items := rfl

@[simp] lemma nodes_discarded (items : List Item) :
    nodes (.discarded :: items) = nodes items := rfl

/-- A form that ends at `stop`, with `k` items in front that are left out. -/
def lone (k : Nat) (n : Node) (stop : Nat) : List Item :=
  List.replicate k .discarded ++ [.datum n stop]

/-- `Reads ts items us`: the tokens `ts` are read as `items` up to the tokens `us`. -/
inductive Reads : List Token → List Item → List Token → Prop
  /-- Reading may stop anywhere. -/
  | nil (ts : List Token) : Reads ts [] ts
  /-- A form without parts. -/
  | atom {t : Token} {a : Atom} {ts us : List Token} {items : List Item}
      (ht : t.lexeme = .atom a) (h : Reads ts items us) :
      Reads (t :: ts) (.datum (.atom t.start a) t.stop :: items) us
  /-- Items between an opening and the closing that belongs to it. -/
  | bracket {t u : Token} {b : Bracket} {ts us vs : List Token} {inner items : List Item}
      (ht : t.lexeme = .opener b) (hu : u.lexeme = .closer b.closer)
      (hin : Reads ts inner (u :: us)) (h : Reads us items vs) :
      Reads (t :: ts) (.datum (.bracket t.start b (nodes inner)) u.stop :: items) vs
  /-- A mark and its form. -/
  | sigil {t : Token} {s : Sigil} {k : Nat} {n : Node} {stop : Nat} {ts us vs : List Token}
      {items : List Item} (ht : t.lexeme = .sigil s) (hin : Reads ts (lone k n stop) us)
      (h : Reads us items vs) :
      Reads (t :: ts) (.datum (.sigil t.start s n) stop :: items) vs
  /-- Metadata and the form that carries it. -/
  | annotated {t : Token} {k l : Nat} {m n : Node} {stop stop' : Nat}
      {ts us vs ws : List Token} {items : List Item} (ht : t.lexeme = .metadata)
      (hm : Reads ts (lone k m stop) us) (hn : Reads us (lone l n stop') vs)
      (h : Reads vs items ws) :
      Reads (t :: ts) (.datum (.annotated t.start m n) stop' :: items) ws
  /-- A form that is left out. -/
  | discard {t : Token} {k : Nat} {n : Node} {stop : Nat} {ts us vs : List Token}
      {items : List Item} (ht : t.lexeme = .discard) (hin : Reads ts (lone k n stop) us)
      (h : Reads us items vs) :
      Reads (t :: ts) (.discarded :: items) vs

lemma reads_length_le {ts us : List Token} {items : List Item} (h : Reads ts items us) :
    us.length ≤ ts.length := by
  induction h with
  | nil => exact Nat.le_refl _
  | atom _ _ ih => simp only [List.length_cons]; omega
  | bracket _ _ _ _ ihin ih => simp only [List.length_cons] at ihin ⊢; omega
  | sigil _ _ _ ihin ih => simp only [List.length_cons]; omega
  | annotated _ _ _ _ ihm ihn ih => simp only [List.length_cons]; omega
  | discard _ _ _ ihin ih => simp only [List.length_cons]; omega

/-- Items are read one after the other. -/
theorem reads_append {ts us vs : List Token} {xs ys : List Item} (h : Reads ts xs us)
    (h' : Reads us ys vs) : Reads ts (xs ++ ys) vs := by
  induction h with
  | nil => exact h'
  | atom ht _ ih => exact .atom ht (ih h')
  | bracket ht hu hin _ _ ih => exact .bracket ht hu hin (ih h')
  | sigil ht hin _ _ ih => exact .sigil ht hin (ih h')
  | annotated ht hm hn _ _ _ ih => exact .annotated ht hm hn (ih h')
  | discard ht hin _ _ ih => exact .discard ht hin (ih h')

/-- Between any two items there is a place where the first one ends. -/
theorem reads_split {ts vs : List Token} (xs : List Item) {ys : List Item}
    (h : Reads ts (xs ++ ys) vs) : ∃ us, Reads ts xs us ∧ Reads us ys vs := by
  induction xs generalizing ts with
  | nil => exact ⟨ts, .nil ts, h⟩
  | cons x xs ih =>
    cases h with
    | atom ht h =>
      obtain ⟨us, hx, hy⟩ := ih h
      exact ⟨us, .atom ht hx, hy⟩
    | bracket ht hu hin h =>
      obtain ⟨us, hx, hy⟩ := ih h
      exact ⟨us, .bracket ht hu hin hx, hy⟩
    | sigil ht hin h =>
      obtain ⟨us, hx, hy⟩ := ih h
      exact ⟨us, .sigil ht hin hx, hy⟩
    | annotated ht hm hn h =>
      obtain ⟨us, hx, hy⟩ := ih h
      exact ⟨us, .annotated ht hm hn hx, hy⟩
    | discard ht hin h =>
      obtain ⟨us, hx, hy⟩ := ih h
      exact ⟨us, .discard ht hin hx, hy⟩

lemma reads_closer {u : Token} {c : Closer} {us vs : List Token} {items : List Item}
    (hu : u.lexeme = .closer c) (h : Reads (u :: us) items vs) : items = [] ∧ vs = u :: us := by
  cases h with
  | nil => exact ⟨rfl, rfl⟩
  | atom ht _ => simp [hu] at ht
  | bracket ht _ _ _ => simp [hu] at ht
  | sigil ht _ _ => simp [hu] at ht
  | annotated ht _ _ _ => simp [hu] at ht
  | discard ht _ _ => simp [hu] at ht

/-- What an opening begins is a form up to its closing. -/
lemma reads_opener {t : Token} {b : Bracket} {ts us : List Token} {i : Item}
    {items : List Item} (ht : t.lexeme = .opener b) (h : Reads (t :: ts) (i :: items) us) :
    ∃ inner u vs, i = .datum (.bracket t.start b (nodes inner)) u.stop ∧
      Reads ts inner (u :: vs) := by
  cases h with
  | atom ht' _ => simp [ht] at ht'
  | sigil ht' _ _ => simp [ht] at ht'
  | annotated ht' _ _ _ => simp [ht] at ht'
  | discard ht' _ _ => simp [ht] at ht'
  | bracket ht' _ hin _ =>
    cases ht.symm.trans ht'
    exact ⟨_, _, _, rfl, hin⟩

/-- What a mark begins is the mark and one form. -/
lemma reads_sigil {t : Token} {s : Sigil} {ts us : List Token} {i : Item}
    {items : List Item} (ht : t.lexeme = .sigil s) (h : Reads (t :: ts) (i :: items) us) :
    ∃ k n stop vs, i = .datum (.sigil t.start s n) stop ∧ Reads ts (lone k n stop) vs := by
  cases h with
  | atom ht' _ => simp [ht] at ht'
  | bracket ht' _ _ _ => simp [ht] at ht'
  | annotated ht' _ _ _ => simp [ht] at ht'
  | discard ht' _ _ => simp [ht] at ht'
  | sigil ht' hin _ =>
    cases ht.symm.trans ht'
    exact ⟨_, _, _, _, rfl, hin⟩

/-- What `^` begins are two forms. -/
lemma reads_metadata {t : Token} {ts us : List Token} {i : Item} {items : List Item}
    (ht : t.lexeme = .metadata) (h : Reads (t :: ts) (i :: items) us) :
    ∃ k l m n stop stop' vs ws, i = .datum (.annotated t.start m n) stop' ∧
      Reads ts (lone k m stop) vs ∧ Reads vs (lone l n stop') ws := by
  cases h with
  | atom ht' _ => simp [ht] at ht'
  | bracket ht' _ _ _ => simp [ht] at ht'
  | sigil ht' _ _ => simp [ht] at ht'
  | discard ht' _ _ => simp [ht] at ht'
  | annotated _ hm hn _ => exact ⟨_, _, _, _, _, _, _, _, rfl, hm, hn⟩

/-! ### Items are read in one way only -/

/-- Of two lone forms one is never the start of more than the other. -/
lemma lone_prefix {k l : Nat} {m n : Node} {stop stop' : Nat} {zs : List Item}
    (h : lone l n stop' = lone k m stop ++ zs) : lone l n stop' = lone k m stop ∧ zs = [] := by
  induction k generalizing l with
  | zero =>
    cases l with
    | zero =>
      simp only [lone, List.replicate_zero, List.nil_append, List.singleton_append,
        List.cons.injEq] at h
      obtain ⟨h, rfl⟩ := h
      exact ⟨by simp [lone, h], rfl⟩
    | succ l => simp [lone, List.replicate_succ] at h
  | succ k ih =>
    cases l with
    | zero => simp [lone, List.replicate_succ] at h
    | succ l =>
      simp only [lone, List.replicate_succ, List.cons_append, List.cons.injEq, true_and] at h
      obtain ⟨he, hz⟩ := ih h
      exact ⟨congrArg (Item.discarded :: ·) he, hz⟩

lemma lone_inj {k l : Nat} {m n : Node} {stop stop' : Nat}
    (h : lone l n stop' = lone k m stop) : n = m ∧ stop' = stop := by
  have := congrArg List.getLast? h
  simpa [lone] using this

/-- Two readings of one line of tokens agree: one of them goes on where the other
one stops. -/
def Agree (xs : List Item) (us : List Token) (ys : List Item) (vs : List Token) : Prop :=
  (∃ zs, ys = xs ++ zs ∧ Reads us zs vs) ∨ (∃ zs, xs = ys ++ zs ∧ Reads vs zs us)

namespace Agree

variable {xs ys : List Item} {us vs : List Token}

lemma cons (x : Item) (h : Agree xs us ys vs) : Agree (x :: xs) us (x :: ys) vs := by
  rcases h with ⟨zs, rfl, hz⟩ | ⟨zs, rfl, hz⟩
  · exact .inl ⟨zs, rfl, hz⟩
  · exact .inr ⟨zs, rfl, hz⟩

/-- Readings of one lone form that agree are the same. -/
lemma lone_eq {k l : Nat} {m n : Node} {stop stop' : Nat}
    (h : Agree (lone k m stop) us (lone l n stop') vs) : n = m ∧ stop' = stop ∧ vs = us := by
  rcases h with ⟨zs, he, hz⟩ | ⟨zs, he, hz⟩
  all_goals
    obtain ⟨hl, rfl⟩ := lone_prefix he
    obtain ⟨rfl, rfl⟩ := lone_inj hl
    cases hz
    exact ⟨rfl, rfl, rfl⟩

/-- Readings up to a closing that agree are the same. -/
lemma closer_eq {u v : Token} {c d : Closer} (hu : u.lexeme = .closer c)
    (hv : v.lexeme = .closer d) (h : Agree xs (u :: us) ys (v :: vs)) :
    ys = xs ∧ v = u ∧ vs = us := by
  rcases h with ⟨zs, rfl, hz⟩ | ⟨zs, rfl, hz⟩
  · obtain ⟨rfl, he⟩ := reads_closer hu hz
    cases he
    exact ⟨List.append_nil _, rfl, rfl⟩
  · obtain ⟨rfl, he⟩ := reads_closer hv hz
    cases he
    exact ⟨(List.append_nil _).symm, rfl, rfl⟩

end Agree

/-- One line of tokens is read in one way only. -/
theorem reads_agree {ts us vs : List Token} {xs ys : List Item} (h : Reads ts xs us)
    (h' : Reads ts ys vs) : Agree xs us ys vs := by
  induction h generalizing ys vs with
  | nil ts => exact .inl ⟨ys, rfl, h'⟩
  | atom ht h ih =>
    cases h' with
    | nil => exact .inr ⟨_, rfl, .atom ht h⟩
    | atom ht' h' =>
      cases Lexeme.atom.inj (ht.symm.trans ht')
      exact (ih h').cons _
    | bracket ht' _ _ _ => simp [ht] at ht'
    | sigil ht' _ _ => simp [ht] at ht'
    | annotated ht' _ _ _ => simp [ht] at ht'
    | discard ht' _ _ => simp [ht] at ht'
  | bracket ht hu hin h ihin ih =>
    cases h' with
    | nil => exact .inr ⟨_, rfl, .bracket ht hu hin h⟩
    | atom ht' _ => simp [ht] at ht'
    | bracket ht' hu' hin' h' =>
      -- what is between the brackets ends at its closer in both, so the closers are the same one
      cases Lexeme.opener.inj (ht.symm.trans ht')
      obtain ⟨rfl, rfl, rfl⟩ := (ihin hin').closer_eq hu hu'
      exact (ih h').cons _
    | sigil ht' _ _ => simp [ht] at ht'
    | annotated ht' _ _ _ => simp [ht] at ht'
    | discard ht' _ _ => simp [ht] at ht'
  | sigil ht hin h ihin ih =>
    cases h' with
    | nil => exact .inr ⟨_, rfl, .sigil ht hin h⟩
    | atom ht' _ => simp [ht] at ht'
    | bracket ht' _ _ _ => simp [ht] at ht'
    | sigil ht' hin' h' =>
      cases Lexeme.sigil.inj (ht.symm.trans ht')
      -- one form behind any discarded ones, so both have the same number of these
      obtain ⟨rfl, rfl, rfl⟩ := (ihin hin').lone_eq
      exact (ih h').cons _
    | annotated ht' _ _ _ => simp [ht] at ht'
    | discard ht' _ _ => simp [ht] at ht'
  | annotated ht hm hn h ihm ihn ih =>
    cases h' with
    | nil => exact .inr ⟨_, rfl, .annotated ht hm hn h⟩
    | atom ht' _ => simp [ht] at ht'
    | bracket ht' _ _ _ => simp [ht] at ht'
    | sigil ht' _ _ => simp [ht] at ht'
    | annotated ht' hm' hn' h' =>
      obtain ⟨rfl, _, rfl⟩ := (ihm hm').lone_eq
      obtain ⟨rfl, rfl, rfl⟩ := (ihn hn').lone_eq
      exact (ih h').cons _
    | discard ht' _ _ => simp [ht] at ht'
  | discard ht hin h ihin ih =>
    cases h' with
    | nil => exact .inr ⟨_, rfl, .discard ht hin h⟩
    | atom ht' _ => simp [ht] at ht'
    | bracket ht' _ _ _ => simp [ht] at ht'
    | sigil ht' _ _ => simp [ht] at ht'
    | annotated ht' _ _ _ => simp [ht] at ht'
    | discard ht' hin' h' =>
      obtain ⟨rfl, _, rfl⟩ := (ihin hin').lone_eq
      exact (ih h').cons _

/-- The item at the start of a line of tokens and the tokens behind it are
determined. -/
theorem reads_one_unique {ts us vs : List Token} {x y : Item} (h : Reads ts [x] us)
    (h' : Reads ts [y] vs) : x = y ∧ us = vs := by
  rcases reads_agree h h' with ⟨zs, he, hz⟩ | ⟨zs, he, hz⟩
  all_goals
    simp only [List.singleton_append, List.cons.injEq] at he
    obtain ⟨rfl, rfl⟩ := he
    cases hz
    exact ⟨rfl, rfl⟩

/-! ### The machine of the outline -/

namespace State

/-- The state after one more item. -/
def add (st : State) : Item → State
  | .datum n stop => place n stop st.frames st.items
  | .discarded => leaveOut st.frames st.items

/-- The state after more items. -/
def addAll (st : State) (items : List Item) : State :=
  items.foldl add st

@[simp] lemma addAll_nil (st : State) : st.addAll [] = st := rfl

@[simp] lemma addAll_cons (st : State) (i : Item) (items : List Item) :
    st.addAll (i :: items) = (st.add i).addAll items := rfl

lemma addAll_outside (is items : List Item) :
    addAll ⟨[], is⟩ items = ⟨[], is ++ items⟩ := by
  induction items generalizing is with
  | nil => simp
  | cons i items ih => cases i <;> simp [add, place, leaveOut, ih]

/-- A bracket gathers the forms among the items. -/
lemma addAll_bracket (start : Nat) (b : Bracket) (ns : List Node) (fs : List Frame)
    (is items : List Item) :
    addAll ⟨.bracket start b ns :: fs, is⟩ items =
      ⟨.bracket start b (ns ++ nodes items) :: fs, is⟩ := by
  induction items generalizing ns with
  | nil => simp
  | cons i items ih => cases i <;> simp [add, place, leaveOut, ih]

/-- Inside of a frame what is left out leaves no trace. -/
lemma addAll_lone (f : Frame) (fs : List Frame) (is : List Item) (k : Nat) (n : Node)
    (stop : Nat) : addAll ⟨f :: fs, is⟩ (lone k n stop) = place n stop (f :: fs) is := by
  induction k with
  | zero => rfl
  | succ k ih => simpa [lone, List.replicate_succ, add, leaveOut] using ih

end State

/-- The machine follows the grammar, whatever has begun before. -/
theorem run_of_reads {ts us : List Token} {items : List Item} (h : Reads ts items us)
    (st : State) : st.run ts = (st.addAll items).run us := by
  induction h generalizing st with
  | nil => rfl
  | atom ht _ ih => simp only [State.run, State.push, ht, ih, State.addAll_cons, State.add]
  | bracket ht hu _ _ ihin ih =>
    simp only [State.run, State.push, ht, ihin, State.addAll_bracket, hu, if_true,
      List.nil_append, ih, State.addAll_cons, State.add]
  | sigil ht _ _ ihin ih =>
    simp only [State.run, State.push, ht, ihin, State.addAll_lone, State.place, ih,
      State.addAll_cons, State.add]
  | annotated ht _ _ _ ihm ihn ih =>
    simp only [State.run, State.push, ht, ihm, State.addAll_lone, State.place, ihn, ih,
      State.addAll_cons, State.add]
  | discard ht _ _ ihin ih =>
    simp only [State.run, State.push, ht, ihin, State.addAll_lone, State.place, ih,
      State.addAll_cons, State.add]

/-- From these tokens on no item is completed: a closing stands first, or the
machine never gets to the end of an item. -/
def Barren (us : List Token) : Prop :=
  (∃ u us' c, us = u :: us' ∧ u.lexeme = .closer c) ∨
    ∀ st : State, (st.run us).1.items = st.items

/-- In front of barren tokens a frame that is no bracket stays open. -/
lemma Barren.items_eq {us : List Token} (h : Barren us) {f : Frame} {fs : List Frame}
    (hf : ∀ start b ns, f ≠ .bracket start b ns) (is : List Item) :
    (State.run ⟨f :: fs, is⟩ us).1.items = is := by
  rcases h with ⟨u, us', c, rfl, hu⟩ | h
  · cases f with
    | bracket start b ns => exact absurd rfl (hf start b ns)
    | _ => simp [State.run, State.push, hu]
  · exact h _

/-- Items are lone up to a first form, or all of them are left out. -/
lemma lone_or_discarded (items : List Item) :
    (∃ k n stop rest, items = lone k n stop ++ rest) ∨
      items = List.replicate items.length .discarded := by
  induction items with
  | nil => exact .inr rfl
  | cons i items ih =>
    cases i with
    | datum n stop => exact .inl ⟨0, n, stop, items, rfl⟩
    | discarded =>
      rcases ih with ⟨k, n, stop, rest, rfl⟩ | h
      · exact .inl ⟨k + 1, n, stop, rest, rfl⟩
      · exact .inr (by rw [List.length_cons, List.replicate_succ, ← h])

/-- What is left out does not change a state inside of a frame. -/
lemma addAll_discarded (f : Frame) (fs : List Frame) (is : List Item) (k : Nat) :
    State.addAll ⟨f :: fs, is⟩ (List.replicate k .discarded) = ⟨f :: fs, is⟩ := by
  induction k with
  | zero => rfl
  | succ k ih => simpa [List.replicate_succ, State.add, State.leaveOut] using ih

/-- Where tokens are read up to barren ones, a frame that waits for one form gets
it, or the machine never completes an item. -/
lemma lone_or_barren {ts us : List Token} {items : List Item} (h : Reads ts items us)
    (hus : Barren us) :
    (∃ k n stop vs, Reads ts (lone k n stop) vs) ∨
      ∀ (f : Frame) (fs : List Frame) (is : List Item),
        (∀ start b ns, f ≠ .bracket start b ns) → (State.run ⟨f :: fs, is⟩ ts).1.items = is := by
  rcases lone_or_discarded items with ⟨k, n, stop, rest, rfl⟩ | hd
  · obtain ⟨vs, hv, _⟩ := reads_split _ h
    exact .inl ⟨k, n, stop, vs, hv⟩
  · refine .inr fun f fs is hf => ?_
    rw [run_of_reads h, hd, addAll_discarded]
    exact hus.items_eq hf is

/-- Every line of tokens is read up to barren ones. -/
lemma exists_reads (ts : List Token) : ∃ items us, Reads ts items us ∧ Barren us := by
  -- the recursion is on the number of tokens; each frame is filled with shorter lines
  induction hlen : ts.length using Nat.strongRecOn generalizing ts with
  | ind len ih =>
    have shorter (us : List Token) (hus : us.length < len) :
        ∃ items vs, Reads us items vs ∧ Barren vs := ih us.length hus us rfl
    cases ts with
    | nil => exact ⟨[], [], .nil _, .inr fun _ => rfl⟩
    | cons t ts =>
      rw [List.length_cons] at hlen
      obtain ⟨inner, us, hin, hus⟩ := shorter ts (by omega)
      have hle := reads_length_le hin
      cases ht : t.lexeme with
      | atom a => exact ⟨_, us, .atom ht hin, hus⟩
      | closer c => exact ⟨[], _, .nil _, .inl ⟨t, ts, c, rfl, ht⟩⟩
      | opener b =>
        have stuck (hb : ∀ u us', us = u :: us' → u.lexeme ≠ .closer b.closer) :
            Barren (t :: ts) := by
          refine .inr fun st => ?_
          rw [State.run]
          simp only [State.push, ht]
          rw [run_of_reads hin, State.addAll_bracket]
          rcases hus with ⟨u, us', c, rfl, hu⟩ | hus
          · have hc : b.closer ≠ c := fun hc => hb u us' rfl (hu.trans (by rw [hc]))
            simp [State.run, State.push, hu, hc]
          · exact hus _
        by_cases hb : ∃ u us', us = u :: us' ∧ u.lexeme = .closer b.closer
        · obtain ⟨u, us', rfl, hu⟩ := hb
          simp only [List.length_cons] at hle
          obtain ⟨items, vs, h, hvs⟩ := shorter us' (by omega)
          exact ⟨_, vs, .bracket ht hu hin h, hvs⟩
        · exact ⟨[], _, .nil _, stuck fun u us' he hu => hb ⟨u, us', he, hu⟩⟩
      | sigil s =>
        rcases lone_or_barren hin hus with ⟨k, n, stop, vs, hv⟩ | hno
        · have hle := reads_length_le hv
          obtain ⟨items, ws, h, hws⟩ := shorter vs (by omega)
          exact ⟨_, ws, .sigil ht hv h, hws⟩
        · refine ⟨[], _, .nil _, .inr fun st => ?_⟩
          simpa [State.run, State.push, ht] using hno (.sigil t.start s) _ _ (by simp)
      | metadata =>
        rcases lone_or_barren hin hus with ⟨k, m, stop, vs, hv⟩ | hno
        · have hle := reads_length_le hv
          obtain ⟨inner', ws, hin', hws⟩ := shorter vs (by omega)
          rcases lone_or_barren hin' hws with ⟨l, n, stop', xs, hx⟩ | hno
          · have hle := reads_length_le hx
            obtain ⟨items, ys, h, hys⟩ := shorter xs (by omega)
            exact ⟨_, ys, .annotated ht hv hx h, hys⟩
          · refine ⟨[], _, .nil _, .inr fun st => ?_⟩
            rw [State.run]
            simp only [State.push, ht]
            rw [run_of_reads hv, State.addAll_lone]
            exact hno (.target t.start m) _ _ (by simp)
        · refine ⟨[], _, .nil _, .inr fun st => ?_⟩
          simpa [State.run, State.push, ht] using hno (.metadata t.start) _ _ (by simp)
      | discard =>
        rcases lone_or_barren hin hus with ⟨k, n, stop, vs, hv⟩ | hno
        · have hle := reads_length_le hv
          obtain ⟨items, ws, h, hws⟩ := shorter vs (by omega)
          exact ⟨_, ws, .discard ht hv h, hws⟩
        · refine ⟨[], _, .nil _, .inr fun st => ?_⟩
          simpa [State.run, State.push, ht] using hno .discard _ _ (by simp)

/-- The items of an outline are those that the machine completes. -/
lemma outline_items (cs : List Char) :
    (outline cs).items = (State.start.run (lex 0 cs).tokens).1.items := by
  simp only [outline]
  split <;> rename_i heq <;> simp [heq]

/-- An outline that makes up the whole text is one of all tokens. -/
lemma lex_complete {cs : List Char} (h : (outline cs).complete = true) :
    (lex 0 cs).complete = true ∧ (outline cs).stop = (lex 0 cs).stop := by
  simp only [outline] at h ⊢
  split at h
  · cases h
  · exact ⟨(Bool.and_eq_true _ _ ▸ h).1, rfl⟩

/-- The items of an outline are what the grammar reads. -/
theorem outline_reads (cs : List Char) :
    ∃ us, Reads (lex 0 cs).tokens (outline cs).items us := by
  obtain ⟨items, us, h, hus⟩ := exists_reads (lex 0 cs).tokens
  have hitems : (State.start.run (lex 0 cs).tokens).1.items = items := by
    rw [run_of_reads h, State.start, State.addAll_outside, List.nil_append]
    rcases hus with ⟨u, us', c, rfl, hu⟩ | hus
    · simp [State.run, State.push, hu]
    · exact hus _
  refine ⟨us, ?_⟩
  rw [outline_items, hitems]
  exact h

/-- A text whose tokens are all read has these items and nothing else. -/
lemma outline_of_reads {cs : List Char} {items : List Item}
    (h : Reads (lex 0 cs).tokens items []) :
    outline cs = ⟨items, (lex 0 cs).stop, (lex 0 cs).complete⟩ := by
  have hrun : State.start.run (lex 0 cs).tokens = (⟨[], items⟩, none) := by
    rw [run_of_reads h, State.start, State.addAll_outside, List.nil_append, State.run]
  simp [outline, hrun]

end Reader

end Listener
