/-
The search for a module ends at the first file that can be read.

* `Joined`: a file in a directory with one slash between them, however many there were;
  `joined_iff` says that this is `joinPath`.
* `getElem?_candidates`: extension by extension, a candidate for every directory.
* `Search`: what came of looking through a list of paths, either nothing or the first file that can
  be read; `lookupFirst_search`: this is what a search comes to.
* `pathLoader_library`: where names of the library are searched for.
* `pathLoader_search`: bundled names are found without a search, all others by one.
-/
import Listener.Source.Loader
import Mathlib.Data.List.Infix

namespace Listener

namespace Source

/-! ### Directories and files -/

/-- A file in a directory. However many slashes stand at the end of the directory and at the start
of the file, one stands between them. Without a directory the file stands alone. -/
inductive Joined : List Char → List Char → List Char → Prop
  | alone (file : List Char) : Joined [] file file
  | inside {directory ending start file : List Char} (hne : directory ++ ending ≠ [])
      (hending : ∀ c ∈ ending, c = '/') (hdirectory : directory.getLast? ≠ some '/')
      (hstart : ∀ c ∈ start, c = '/') (hfile : file.head? ≠ some '/') :
      Joined (directory ++ ending) (start ++ file) (directory ++ '/' :: file)

/-- Slashes at the start are dropped, and nothing else. -/
lemma dropWhile_slashes {start file : List Char} (hstart : ∀ c ∈ start, c = '/')
    (hfile : file.head? ≠ some '/') : (start ++ file).dropWhile (· == '/') = file := by
  have hall : ∀ c ∈ start, (c == '/') = true := fun c hc => beq_iff_eq.mpr (hstart c hc)
  rw [List.dropWhile_append_of_pos hall]
  cases file with
  | nil => rfl
  | cons c cs =>
    refine List.dropWhile_cons_of_neg fun hc => hfile ?_
    rw [List.head?_cons, beq_iff_eq.mp hc]

lemma trimSlashesEnd_append {directory ending : List Char} (hending : ∀ c ∈ ending, c = '/')
    (hdirectory : directory.getLast? ≠ some '/') :
    trimSlashesEnd (directory ++ ending) = directory := by
  have hdrop : (ending.reverse ++ directory.reverse).dropWhile (· == '/') = directory.reverse :=
    dropWhile_slashes (fun c hc => hending c (List.mem_reverse.mp hc))
      (by rwa [List.head?_reverse])
  rw [trimSlashesEnd, List.reverse_append, hdrop, List.reverse_reverse]

/-- A text is some slashes in front of a text that does not start with one. -/
lemma exists_slashes (cs : List Char) :
    ∃ start file, cs = start ++ file ∧ (∀ c ∈ start, c = '/') ∧ file.head? ≠ some '/' := by
  refine ⟨cs.takeWhile (· == '/'), cs.dropWhile (· == '/'),
    List.takeWhile_append_dropWhile.symm, fun c hc => ?_, fun h => ?_⟩
  · exact beq_iff_eq.mp (List.all_eq_true.mp List.all_takeWhile c hc)
  · have hhead := List.head?_dropWhile_not (· == '/') cs
    rw [h] at hhead
    exact absurd hhead (by decide)

/-- There is only one way to join a directory and a file. -/
lemma Joined.eq_ite {directory file path : List Char} (h : Joined directory file path) :
    path = if directory = [] then file
      else trimSlashesEnd directory ++ '/' :: file.dropWhile (· == '/') := by
  cases h with
  | alone => rw [if_pos rfl]
  | inside hne hending hdirectory hstart hfile =>
    rw [if_neg hne, trimSlashesEnd_append hending hdirectory, dropWhile_slashes hstart hfile]

lemma exists_joined (directory file : List Char) : ∃ path, Joined directory file path := by
  by_cases hne : directory = []
  · subst hne
    exact ⟨file, .alone file⟩
  · obtain ⟨ending, body, hbody, hending, hhead⟩ := exists_slashes directory.reverse
    obtain ⟨start, file, rfl, hstart, hfile⟩ := exists_slashes file
    obtain rfl : directory = body.reverse ++ ending.reverse := by
      rw [← List.reverse_append, ← hbody, List.reverse_reverse]
    refine ⟨_, .inside hne (fun c hc => hending c (List.mem_reverse.mp hc)) ?_ hstart hfile⟩
    rwa [List.getLast?_reverse]

/-- Joining puts one slash between a directory and a file. -/
theorem joined_iff {directory file path : String} :
    Joined directory.toList file.toList path.toList ↔ path = joinPath directory file := by
  have heq : (joinPath directory file).toList = if directory.toList = [] then file.toList
      else trimSlashesEnd directory.toList ++ '/' :: file.toList.dropWhile (· == '/') := by
    simp only [joinPath, String.toList_eq_nil_iff]
    split
    · rfl
    · exact String.toList_ofList
  constructor
  · intro h
    exact String.toList_injective (h.eq_ite.trans heq.symm)
  · rintro rfl
    obtain ⟨path, hpath⟩ := exists_joined directory.toList file.toList
    rwa [heq, ← hpath.eq_ite]

/-! ### Candidates -/

/-- In a table written row by row, a place is told by the number of its row and its place there. -/
lemma getElem?_rows {α β γ : Type} (f : α → β → γ) {xs : List α} {ys : List β} {i j : Nat}
    {x : α} {y : β} (hx : xs[i]? = some x) (hy : ys[j]? = some y) :
    (xs.flatMap fun x => ys.map (f x))[i * ys.length + j]? = some (f x y) := by
  induction xs generalizing i with
  | nil => cases hx
  | cons x' xs ih =>
    rw [List.flatMap_cons]
    cases i with
    | zero =>
      cases hx
      have hj : j < (ys.map (f x)).length := by
        rw [List.length_map]
        exact (List.getElem?_eq_some_iff.mp hy).1
      rw [Nat.zero_mul, Nat.zero_add, List.getElem?_append_left hj, List.getElem?_map, hy]
      rfl
    | succ i =>
      have hplace : (i + 1) * ys.length + j = (ys.map (f x')).length + (i * ys.length + j) := by
        rw [List.length_map, Nat.succ_mul]
        omega
      rw [hplace, List.getElem?_append_right (Nat.le_add_right _ _), Nat.add_sub_cancel_left]
      exact ih hx

/-- The candidates are as many as there are extensions for every directory. -/
lemma length_candidates (directories : List String) (isMacros : Bool) (path : String) :
    (candidates directories isMacros path).length =
      (if isMacros then macroExtensions else sourceExtensions).length * directories.length := by
  simp [candidates, underEach, List.length_flatMap]

/-- Extension by extension there is a candidate for every directory. -/
theorem getElem?_candidates {directories : List String} {isMacros : Bool} {path : String}
    {i j : Nat} {extension directory : String}
    (hextension : (if isMacros then macroExtensions else sourceExtensions)[i]? = some extension)
    (hdirectory : directories[j]? = some directory) :
    (candidates directories isMacros path)[i * directories.length + j]? =
      some (joinPath directory (path ++ extension)) :=
  getElem?_rows (fun extension directory => joinPath directory (path ++ extension)) hextension
    hdirectory

/-! ### Searches -/

/-- What comes of looking for a source under some paths, in order: none of them can be read, and
all were asked for; or one can be read and none in front of it, and those were asked for. -/
inductive Search (files : List (String × String)) (paths : List String) : Lookup → Prop
  | missed (hpaths : ∀ path ∈ paths, files.lookup path = none) :
      Search files paths ⟨paths, .ok none⟩
  | found {front behind : List String} {path text : String} {language : Language}
      (hpaths : paths = front ++ path :: behind)
      (hfront : ∀ other ∈ front, files.lookup other = none) (hpath : files.lookup path = some text)
      (hlanguage : language = .script ↔ ".js".toList <:+ path.toList) :
      Search files paths ⟨front ++ [path], .ok (some ⟨language, text, some path⟩)⟩

lemma Search.found_eq_none_iff {files : List (String × String)} {paths : List String}
    {answer : Lookup} (h : Search files paths answer) :
    answer.found = .ok none ↔ ∀ path ∈ paths, files.lookup path = none := by
  cases h with
  | missed hpaths => exact ⟨fun _ => hpaths, fun _ => rfl⟩
  | @found front behind path text language hpaths hfront hpath =>
    refine ⟨nofun, fun hnone => ?_⟩
    have hmem : path ∈ paths := hpaths ▸ List.mem_append_right front List.mem_cons_self
    cases hpath.symm.trans (hnone path hmem)

lemma languageOf_eq_script_iff (path : String) :
    languageOf path = .script ↔ ".js".toList <:+ path.toList := by
  rw [languageOf, ← List.isSuffixOf_iff_suffix]
  split <;> simp_all

/-- The first of several files is looked for as a search says. -/
theorem lookupFirst_search (files : List (String × String)) (paths : List String) :
    Search files paths (lookupFirst (.table files) paths) := by
  induction paths with
  | nil => exact .missed nofun
  | cons path paths ih =>
    cases hpath : files.lookup path with
    | some text =>
      have hfirst : lookupFirst (.table files) (path :: paths) =
          ⟨[] ++ [path], .ok (some ⟨languageOf path, text, some path⟩)⟩ := by
        simp [lookupFirst, readFirst, FileReader.read, FileReader.note, hpath]
      rw [hfirst]
      exact .found rfl nofun hpath (languageOf_eq_script_iff path)
    | none =>
      have hnext : lookupFirst (.table files) (path :: paths) =
          ⟨path :: (lookupFirst (.table files) paths).reads,
            (lookupFirst (.table files) paths).found⟩ := by
        simp [lookupFirst, readFirst, FileReader.read, FileReader.note, hpath]
      rw [hnext]
      generalize lookupFirst (.table files) paths = answer at ih
      cases ih with
      | missed hpaths => exact .missed (List.forall_mem_cons.mpr ⟨hpath, hpaths⟩)
      | @found front behind other text language hpaths hfront hother hlanguage =>
        have hnone : ∀ p ∈ path :: front, files.lookup p = none :=
          List.forall_mem_cons.mpr ⟨hpath, hfront⟩
        exact .found (congrArg (path :: ·) hpaths) hnone hother hlanguage

/-! ### Loading -/

/-- Unless its name is bundled, a module is searched for under its candidates. -/
lemma pathLoader_candidates {request : LoadRequest}
    (hname : request.name.text ∉ if request.isMacros then bundledMacros else bundled)
    (files : List (String × String)) (directories : List String) (index : ModuleIndex) :
    Search files (request.candidates directories index)
      (pathLoader (.table files) directories index request) := by
  have hbundled : ¬ request.isBundled = true := mt List.contains_iff_mem.mp hname
  rw [pathLoader, if_neg hbundled]
  exact lookupFirst_search files _

/-- A name in the library is searched for under every directory, where the index says or else where
its own path says. -/
theorem pathLoader_library {name : Symbol} {isMacros : Bool}
    (hlibrary : "goog.".toList <+: name.text.toList)
    (hname : name.text ∉ if isMacros then bundledMacros else bundled)
    (files : List (String × String)) (directories : List String) (index : ModuleIndex) :
    Search files
      (directories.map fun directory =>
        joinPath directory ((index.get? name).getD (name.path ++ ".js")))
      (pathLoader (.table files) directories index (.ofNamespace name isMacros)) := by
  have hsearch : Search files ((LoadRequest.ofNamespace name isMacros).candidates directories index)
      (pathLoader (.table files) directories index (.ofNamespace name isMacros)) :=
    pathLoader_candidates hname files directories index
  have hpath : (LoadRequest.ofNamespace name isMacros).isLibrary = true := by
    have htext : name.path.toList = name.text.toList.map _ := String.toList_ofList
    obtain ⟨rest, hrest⟩ := hlibrary
    rw [← hrest, List.map_append] at htext
    exact List.isPrefixOf_iff_prefix.mpr ⟨_, htext.symm⟩
  rwa [LoadRequest.candidates, if_pos hpath] at hsearch

/-- The search for a module ends at the first file that can be read, and nothing behind it is read.
A bundled name is found without reading. Outside of the library the candidates come extension by
extension, each under every source path in turn. -/
theorem pathLoader_search (files : List (String × String)) (directories : List String)
    (index : ModuleIndex) (request : LoadRequest) :
    let asked := request.candidates directories index
    let answer := pathLoader (.table files) directories index request
    let skipped := if request.isMacros then bundledMacros else bundled
    let extensions :=
      if request.isMacros then [".clj", ".cljc"] else [".cljs", ".cljc", ".js"]
    (request.name.text ∈ skipped → answer = ⟨[], .ok (some ⟨.script, "", none⟩)⟩) ∧
      (request.name.text ∉ skipped → Search files asked answer ∧
        (answer.found = .ok none ↔ ∀ path ∈ asked, files.lookup path = none)) ∧
      (¬ "goog/".toList <+: request.path.toList →
        asked.length = extensions.length * directories.length ∧
          ∀ (i j : Nat) (extension directory : String), extensions[i]? = some extension →
            directories[j]? = some directory → ∃ path,
              asked[i * directories.length + j]? = some path ∧
                Joined directory.toList (request.path ++ extension).toList path.toList) := by
  intro asked answer skipped extensions
  refine ⟨fun hname => ?_, fun hname => ?_, fun houtside => ?_⟩
  · have hbundled : request.isBundled = true := List.contains_iff_mem.mpr hname
    simp only [answer, pathLoader, hbundled, if_true]
  · have hsearch : Search files asked answer := pathLoader_candidates hname files directories index
    exact ⟨hsearch, hsearch.found_eq_none_iff⟩
  · have hlibrary : ¬ request.isLibrary = true := mt List.isPrefixOf_iff_prefix.mp houtside
    have hasked : asked = candidates directories request.isMacros request.path := by
      simp only [asked, LoadRequest.candidates, if_neg hlibrary]
    rw [hasked]
    refine ⟨length_candidates _ _ _, fun i j extension directory hextension hdirectory => ?_⟩
    exact ⟨_, getElem?_candidates hextension hdirectory, joined_iff.mpr rfl⟩

end Source

end Listener
