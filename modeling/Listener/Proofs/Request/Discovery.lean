/-
Modules of the library are loaded from where the manifests say.

* `LastPair`: the last pair for a name in a list; `get?_merge` says that a merged index has the
  last pairs, and the old ones of all other names.
* `Pool.Alone`: nobody but one request can initialize; `Alone.step` says that this stays so.
* `Stage.Discovers`: how far the request that initializes has come, with the module index and the
  loader that it has then; `discovers_run`: this is told by the number of its steps.
* `Pool.discovery`: what the module index says when a request has initialized, and where the loader
  of the same request looks.
-/
import Listener.Proofs.Request.Initialization
import Listener.Proofs.Request.ResetFrame
import Listener.Proofs.Source.Manifest
import Listener.Proofs.Source.Search

namespace Listener

open Source (FileReader Search bundled bundledMacros joinPath manifestPairs pathLoader_library)

/-! ### Merging pairs -/

/-- In the list of pairs, the last one for a name has this path. -/
def LastPair (pairs : List (Symbol × String)) (name : Symbol) (path : String) : Prop :=
  ∃ front behind, pairs = front ++ (name, path) :: behind ∧ ∀ p ∈ behind, p.1 ≠ name

/-- The first pair of a list is the last one for its name if the name does not come again. -/
lemma lastPair_cons {p : Symbol × String} {ps : List (Symbol × String)} {name : Symbol}
    {path : String} :
    LastPair (p :: ps) name path ↔
      LastPair ps name path ∨ (∀ q ∈ ps, q.1 ≠ name) ∧ p = (name, path) := by
  constructor
  · rintro ⟨front, behind, hpairs, hbehind⟩
    cases front with
    | nil =>
      cases hpairs
      exact .inr ⟨hbehind, rfl⟩
    | cons q front =>
      cases hpairs
      exact .inl ⟨front, behind, rfl, hbehind⟩
  · rintro (⟨front, behind, rfl, hbehind⟩ | ⟨hps, rfl⟩)
    · exact ⟨p :: front, behind, rfl, hbehind⟩
    · exact ⟨[], ps, rfl, hps⟩

/-- A merged index has the last pair for every name in the list, and the old paths of all other
names. -/
theorem get?_merge (index : ModuleIndex) (pairs : List (Symbol × String)) (name : Symbol)
    (path : String) :
    (index.merge pairs).get? name = some path ↔
      LastPair pairs name path ∨ (∀ p ∈ pairs, p.1 ≠ name) ∧ index.get? name = some path := by
  induction pairs generalizing index with
  | nil =>
    have hnone : ¬ LastPair [] name path := by
      rintro ⟨front, behind, hpairs, -⟩
      cases front <;> cases hpairs
    simp [ModuleIndex.merge, hnone]
  | cons p ps ih =>
    have hmerge : index.merge (p :: ps) = (index.insert p.1 p.2).merge ps := rfl
    rw [hmerge, ih, lastPair_cons, ModuleIndex.get?_insert, List.forall_mem_cons]
    obtain ⟨other, found⟩ := p
    by_cases hname : name = other
    · subst hname
      simp
    · simp [hname, Ne.symm hname]

/-! ### One request that initializes -/

/-- A request that does not initialize leaves the module index alone. -/
lemma index_step {s : Stage} (hs : ¬ s.Initializes) (w : World) :
    (s.step w).1.session.index = w.session.index := by
  cases s with
  | submitted sub =>
    have hclaim : w.session.claimInit.2.index = w.session.index := rfl
    simp only [Stage.step, Stage.submit]
    split
    · rfl
    · split
      · rfl
      · split
        · rename_i session h
          rwa [h] at hclaim
        · rename_i session _ h
          rwa [h] at hclaim
  | initializing => exact absurd trivial hs
  | ready => rfl
  | seen => rfl
  | served strict pending delivery => exact deliver_index strict pending delivery w.session
  | answered => rfl
  | delivered => rfl

namespace Pool

variable {p q : Pool} {k : Nat}

/-- Nobody but the request with a number initializes, and no claim is the owner's. -/
structure Alone (p : Pool) (k : Nat) : Prop where
  /-- Whoever claims is not the owner. -/
  claimed : p.world.session.init.claim.1 ≠ .owner
  /-- Whoever initializes is that request. -/
  only : ∀ (i : Nat) (s : Stage), p.stages[i]? = some s → s.Initializes → i = k

lemma Moves.alone {i : Nat} {s s' : Stage} {e : Option InitEvent} (h : p.Moves i s e s' q)
    (halone : p.Alone k) : q.Alone k := by
  have hclaimed := halone.claimed
  have hothers (hs' : s'.Initializes → i = k) :
      ∀ (j : Nat) (t : Stage), q.stages[j]? = some t → t.Initializes → j = k :=
    h.places (fun j t hj _ => halone.only j t hj) hs'
  have hstep := h.step
  cases hstep with
  | quiet hs hs' hflags =>
    rw [← hflags] at hclaimed
    exact ⟨hclaimed, hothers fun ht => absurd ht hs'⟩
  | owner hform hoptions hanswer => exact absurd hanswer hclaimed
  | other hform hoptions hanswer hne hflags =>
    rw [claim_other hclaimed] at hflags
    rw [← hflags] at hclaimed
    exact ⟨hclaimed, hothers False.elim⟩
  | action hran hflags =>
    rw [← hflags] at hclaimed
    exact ⟨hclaimed, hothers fun _ => halone.only i _ h.here trivial⟩
  | finish hran hflags =>
    refine ⟨?_, hothers False.elim⟩
    rw [hflags]
    exact nofun

lemma Alone.step (h : p.Alone k) (i : Nat) : (p.step i).Alone k := by
  cases hi : p.stages[i]? with
  | none => rwa [step_of_none hi]
  | some s => exact (moves_step hi).alone h

/-- When a request becomes the owner of a pending initialization, it initializes alone, from its
first action on. -/
lemma alone_owner {sub : Submission} {form : Form} {options : RequestOptions}
    (hstage : p.stages[k]? = some (.submitted sub)) (hform : readForm sub.source = .ok form)
    (hoptions : sub.options.normalize = .ok options)
    (hpending : p.world.session.init = ⟨true, false⟩)
    (hidle : ∀ (i : Nat) (s : Stage), p.stages[i]? = some s → ¬ s.Initializes) :
    (p.step k).Alone k ∧
      (p.step k).stages[k]? = some (.initializing sub form options p.world.session.current 0) ∧
      (p.step k).world.session.index = p.world.session.index := by
  have hmoves := moves_step hstage
  have hstages := hmoves.new
  rw [step_of_stage hstage, submit_owner hpending hform hoptions] at hmoves hstages ⊢
  exact ⟨⟨nofun, hmoves.places (fun j t hj _ ht => absurd ht (hidle j t hj)) fun _ => rfl⟩,
    hstages, rfl⟩

/-- A step of anybody else changes neither the module index nor how far the request has come. -/
lemma Alone.step_other (h : p.Alone k) {i : Nat} (hik : i ≠ k) :
    (p.step i).world.session.index = p.world.session.index ∧
      (p.step i).stages[k]? = p.stages[k]? := by
  cases hi : p.stages[i]? with
  | none =>
    rw [step_of_none hi]
    exact ⟨rfl, rfl⟩
  | some s =>
    refine ⟨?_, (moves_step hi).other hik⟩
    rw [step_of_stage hi]
    exact index_step (fun hs => hik (h.only i s hi hs)) p.world

end Pool

/-! ### How far a request has come -/

section

variable {sub : Submission} {form : Form} {options : RequestOptions} {old new : ModuleIndex}

/-- How far the request that initializes has come after a number of its steps, counted from when it
became the owner, with the module index at that time: it runs its actions, completes the index, and
looks at it. -/
inductive Stage.Discovers (sub : Submission) (form : Form) (options : RequestOptions)
    (old new : ModuleIndex) : Nat → ModuleIndex → Stage → Prop
  | initializing {ns : Symbol} {ran : Nat} (hran : ran ≤ options.initActions) :
      Discovers sub form options old new ran old (.initializing sub form options ns ran)
  | ready : Discovers sub form options old new (options.initActions + 1) new
      (.ready sub form options)
  | seen {request : Request} (hloader : request.loader = options.loader new) :
      Discovers sub form options old new (options.initActions + 2) new (.seen request)
  | past {count : Nat} {s : Stage} (hcount : options.initActions + 2 < count) (hs : s.rank ≤ 2) :
      Discovers sub form options old new count new s

lemma rank_step_le {s : Stage} (hs : s.rank ≤ 2) (w : World) :
    ¬ s.Initializes ∧ (s.step w).2.rank ≤ 2 := by
  cases s with
  | served strict pending delivery => exact ⟨id, Nat.le_succ 1⟩
  | answered reply => exact ⟨id, Nat.zero_le 2⟩
  | delivered d => exact ⟨id, Nat.zero_le 2⟩
  | _ => simp [Stage.rank] at hs

/-- The request that initializes comes one step further. -/
lemma Stage.Discovers.step {count : Nat} {s : Stage} {w : World}
    (h : s.Discovers sub form options old new count w.session.index)
    (hnew : ∀ w : World, w.session.index = old →
      (Stage.finishInit w options).session.index = new) :
    (s.step w).2.Discovers sub form options old new (count + 1) (s.step w).1.session.index := by
  generalize hindex : w.session.index = index at h
  cases h with
  | initializing hran =>
    simp only [Stage.step, resumeInit_workspace]
    split
    · rename_i hlt
      rw [← hindex]
      exact .initializing hlt
    · rename_i hlt
      obtain rfl : count = options.initActions := by omega
      rw [hnew w hindex]
      exact .ready
  | ready =>
    subst hindex
    exact .seen rfl
  | seen =>
    subst hindex
    exact .past (Nat.lt_succ_self _) (Nat.le_refl 2)
  | past hcount hs =>
    obtain ⟨hquiet, hrank⟩ := rank_step_le hs w
    rw [index_step hquiet, hindex]
    exact .past (Nat.lt_succ_of_lt hcount) hrank

section

variable {count : Nat} {index : ModuleIndex} {s : Stage}

lemma Stage.Discovers.index_eq (h : s.Discovers sub form options old new count index)
    (hcount : options.initActions < count) : index = new := by
  cases h with
  | initializing hran => exact absurd hcount (Nat.not_lt_of_le hran)
  | ready => rfl
  | seen => rfl
  | past => rfl

lemma Stage.Discovers.exists_seen (h : s.Discovers sub form options old new count index)
    (hcount : count = options.initActions + 2) : ∃ request, s = .seen request := by
  cases h with
  | initializing hran => omega
  | ready => omega
  | @seen request => exact ⟨request, rfl⟩
  | past hpast => omega

/-- The loader of the request goes by the complete module index. -/
lemma Stage.Discovers.loader_eq {request : Request}
    (h : (Stage.seen request).Discovers sub form options old new count index) :
    request.loader = options.loader index := by
  cases h with
  | seen hloader => exact hloader
  | past hcount hs => cases Nat.not_succ_le_self 2 hs

end

namespace Pool

variable {p : Pool} {k : Nat}

/-- In every run, the number of steps that the request has made since it became the owner tells how
far it has come. -/
theorem discovers_run {count : Nat} {s : Stage} (halone : p.Alone k)
    (hstage : p.stages[k]? = some s)
    (h : s.Discovers sub form options old new count p.world.session.index)
    (hnew : ∀ w : World, w.session.index = old →
      (Stage.finishInit w options).session.index = new) (schedule : List Nat) :
    ∃ s', (p.run schedule).stages[k]? = some s' ∧
      s'.Discovers sub form options old new (count + schedule.count k)
        (p.run schedule).world.session.index := by
  induction schedule generalizing p count s with
  | nil => exact ⟨s, hstage, h⟩
  | cons i schedule ih =>
    rw [run_cons, List.count_cons]
    by_cases hik : i = k
    · -- the request itself comes one step further
      subst hik
      have hcount : count + (schedule.count i + if (i == i) = true then 1 else 0) =
          count + 1 + schedule.count i := by
        rw [beq_self_eq_true, if_pos rfl]
        omega
      have hnext : (p.step i).stages[i]? = some (s.step p.world).2 := by
        rw [stages_step hstage, if_pos rfl]
      have hworld : (p.step i).world = (s.step p.world).1 := by rw [step_of_stage hstage]
      rw [hcount]
      exact ih (halone.step i) hnext (hworld ▸ h.step hnew)
    · -- nobody else touches the index
      obtain ⟨hindex, hplace⟩ := halone.step_other hik
      rw [if_neg fun h => hik (beq_iff_eq.mp h), Nat.add_zero]
      exact ih (halone.step i) (hplace.trans hstage) (hindex ▸ h)

end Pool

end

/-! ### Where modules are found -/

/-- The options of a request, with files from a table and source paths. -/
def Options.overTable (o : Options) (files : List (String × String)) : RequestOptions :=
  ⟨o.settings, o.initActions, some (.table files), .paths (.table files) o.settings.sourcePaths⟩

/-- Options with a table of files and source paths, and without a loader of their own, are settled
as they are. -/
lemma normalize_eq_overTable {o : Options} {files : List (String × String)}
    (hreader : o.reader = some (.table files)) (hloader : o.loader = none)
    (hpaths : o.settings.sourcePaths ≠ []) : o.normalize = .ok (o.overTable files) := by
  have hfiles : o.fileReader = some (.table files) := by
    rw [Options.fileReader, hreader]
  simp only [Options.normalize, hloader, hfiles, ne_eq, hpaths, not_false_eq_true, if_true,
    Options.overTable]

/-- Discovery goes through the manifests under the source paths. -/
lemma discover_table (files : List (String × String)) (directories : List String) :
    Source.discover (.table files) directories = directories.flatMap fun directory =>
      ((files.lookup (joinPath directory "goog/deps.js")).map manifestPairs).getD [] := by
  rw [Source.discover, Source.underEach, List.flatMap_map]
  refine List.flatMap_congr fun directory _ => ?_
  simp only [FileReader.read, Source.manifestFile]
  cases files.lookup (joinPath directory "goog/deps.js") <;> rfl

namespace Pool

variable {p : Pool} {k : Nat} {sub : Submission} {form : Form} {files : List (String × String)}

/-- In every run from there, the number of its steps tells how far a request has come that becomes
the owner of a pending initialization. -/
lemma discovers_pending (hstage : p.stages[k]? = some (.submitted sub))
    (hform : readForm sub.source = .ok form)
    (hoptions : sub.options.normalize = .ok (sub.options.overTable files))
    (hpending : p.world.session.init = ⟨true, false⟩)
    (hidle : ∀ (i : Nat) (s : Stage), p.stages[i]? = some s → ¬ s.Initializes)
    (schedule : List Nat) :
    ∃ s, ((p.step k).run schedule).stages[k]? = some s ∧
      s.Discovers sub form (sub.options.overTable files) p.world.session.index
        (p.world.session.index.merge
          (Source.discover (.table files) sub.options.settings.sourcePaths))
        (schedule.count k) ((p.step k).run schedule).world.session.index := by
  obtain ⟨halone, hfirst, hindex⟩ := alone_owner hstage hform hoptions hpending hidle
  have hstart (new : ModuleIndex) : Stage.Discovers sub form (sub.options.overTable files)
      p.world.session.index new 0 (p.step k).world.session.index
      (.initializing sub form (sub.options.overTable files) p.world.session.current 0) := by
    rw [hindex]
    exact .initializing (Nat.zero_le _)
  rw [← Nat.zero_add (schedule.count k)]
  refine discovers_run halone hfirst (hstart _) (fun w hw => ?_) schedule
  rw [← hw]
  rfl

/-- A request becomes the owner of a pending initialization, while other requests are under way and
none of them initializes. Whoever makes the next steps: when the actions of the request have run and
it has made one step more, the module index has the last pair for every name in the manifests under
the source paths, the old paths of all other names, and nothing else. With one more step the request
is ready to be served. Its loader then searches for a name of the library under every source path,
where this index says or else where the name itself says. -/
theorem discovery (hstage : p.stages[k]? = some (.submitted sub))
    (hform : readForm sub.source = .ok form) (hreader : sub.options.reader = some (.table files))
    (hloader : sub.options.loader = none) (hpaths : sub.options.settings.sourcePaths ≠ [])
    (hpending : p.world.session.init = ⟨true, false⟩)
    (hidle : ∀ (i : Nat) (s : Stage), p.stages[i]? = some s → ¬ s.Initializes)
    (schedule : List Nat) :
    let directories := sub.options.settings.sourcePaths
    let pairs := directories.flatMap fun directory =>
      ((files.lookup (joinPath directory "goog/deps.js")).map manifestPairs).getD []
    let q := (p.step k).run schedule
    (sub.options.initActions < schedule.count k → ∀ name path,
      q.world.session.index.get? name = some path ↔ LastPair pairs name path ∨
        (∀ pair ∈ pairs, pair.1 ≠ name) ∧ p.world.session.index.get? name = some path) ∧
      (schedule.count k = sub.options.initActions + 2 →
        ∃ request, q.stages[k]? = some (.seen request)) ∧
      ∀ request, q.stages[k]? = some (.seen request) → ∀ (ns name : Symbol) (isMacros : Bool),
        "goog.".toList <+: name.text.toList →
          name.text ∉ (if isMacros then bundledMacros else bundled) →
          Search files
            (directories.map fun directory =>
              joinPath directory ((q.world.session.index.get? name).getD (name.path ++ ".js")))
            ((request.evalOptions ns).loader (.ofNamespace name isMacros)) := by
  intro directories pairs q
  have hoptions := normalize_eq_overTable hreader hloader hpaths
  -- how far the request has come is told by the number of its steps alone
  obtain ⟨s, hs, hdiscovers⟩ := discovers_pending hstage hform hoptions hpending hidle schedule
  rw [discover_table] at hdiscovers
  refine ⟨fun hcount name path => ?_, fun hcount => ?_, fun request hseen ns name isMacros => ?_⟩
  · rw [hdiscovers.index_eq hcount]
    exact get?_merge _ _ _ _
  · obtain ⟨request, rfl⟩ := hdiscovers.exists_seen hcount
    exact ⟨request, hs⟩
  · intro hlibrary hname
    cases hseen.symm.trans hs
    have hrequest : (request.evalOptions ns).loader =
        Source.pathLoader (.table files) directories q.world.session.index :=
      hdiscovers.loader_eq
    rw [hrequest]
    exact pathLoader_library hlibrary hname files directories q.world.session.index

/-- Two manifests that list the same name, an old index, and another request in between. -/
theorem discovery_overlapping :
    let files :=
      [("a/goog/deps.js", "goog.addDependency('x.js',['goog.x'])"),
        ("b/goog/deps.js", "goog.addDependency('y.js',['goog.x'])"), ("b/goog/y.js", "0")]
    let sub : Submission :=
      ⟨"x", { reader := some (.table files), settings := { sourcePaths := ["a", "b"] } }⟩
    let w : World := { session := { index := ⟨[(⟨"goog.x"⟩, "x.js"), (⟨"goog.z"⟩, "z.js")]⟩ } }
    let q := ((start w [sub, ⟨"z", {}⟩]).step 0).run [1, 0, 1, 0]
    q.world.session.index.get? ⟨"goog.x"⟩ = some "goog/y.js" ∧
      q.world.session.index.get? ⟨"goog.z"⟩ = some "z.js" ∧
      ∃ request, q.stages[0]? = some (.seen request) ∧
        Search files ["a/goog/y.js", "b/goog/y.js"]
          ((request.evalOptions request.ns).loader (.ofNamespace ⟨"goog.x"⟩ false)) := by
  intro files sub w q
  have hform : readForm sub.source = .ok (.ofName "x") := by
    show readForm "x" = _
    cbv
  have hstage : (start w [sub, ⟨"z", {}⟩]).stages[0]? = some (.submitted sub) := rfl
  have hreader : sub.options.reader = some (.table files) := rfl
  obtain ⟨hindex, hseen, hloader⟩ := discovery hstage hform hreader rfl (List.cons_ne_nil _ _) rfl
    (idle_start w _) [1, 0, 1, 0]
  have hpairs : (sub.options.settings.sourcePaths.flatMap fun directory =>
      ((files.lookup (joinPath directory "goog/deps.js")).map manifestPairs).getD []) =
      [(⟨"goog.x"⟩, "goog/x.js"), (⟨"goog.x"⟩, "goog/y.js")] := by
    have hx : Source.readEntry "goog.addDependency('x.js',['goog.x'])".toList =
        some (⟨"x.js".toList, "'goog.x'".toList⟩, [')']) := rfl
    have hy : Source.readEntry "goog.addDependency('y.js',['goog.x'])".toList =
        some (⟨"y.js".toList, "'goog.x'".toList⟩, [')']) := rfl
    have hname : Source.quotedText? "'goog.x'".toList = some ("goog.x".toList, []) := rfl
    show manifestPairs _ ++ (manifestPairs _ ++ []) = _
    rw [Source.manifestPairs_singleton hx hname, Source.manifestPairs_singleton hy hname]
    rfl
  have hq : q = ((start w [sub, ⟨"z", {}⟩]).step 0).run [1, 0, 1, 0] := rfl
  rw [hpairs, ← hq] at hindex
  rw [← hq] at hseen hloader
  clear_value q
  have hlast : q.world.session.index.get? ⟨"goog.x"⟩ = some "goog/y.js" :=
    (hindex (by decide) _ _).mpr (.inl ⟨[_], [], rfl, List.forall_mem_nil _⟩)
  have hold : q.world.session.index.get? ⟨"goog.z"⟩ = some "z.js" :=
    (hindex (by decide) _ _).mpr (.inr ⟨by decide, rfl⟩)
  obtain ⟨request, hrequest⟩ := hseen (by decide)
  have hsearch := hloader request hrequest request.ns ⟨"goog.x"⟩ false (by decide) (by decide)
  rw [hlast] at hsearch
  exact ⟨hlast, hold, request, hrequest, hsearch⟩

end Pool

end Listener
