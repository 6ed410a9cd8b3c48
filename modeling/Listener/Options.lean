/-
The options of a request.

* `Options`: the settings, the init actions, and where sources come from.
* `Options.normalize`: the options that a request works with. Files are read by
  the given reader, or from the disk on a server; a reader without source paths
  is refused unless there is a loader. `keeps_of_normalize` says what it leaves
  as it is.
* `RequestOptions.loader`: the loader for a request that sees a module index.
-/
import Listener.Options.Settings
import Listener.Source.Loader

namespace Listener

open Source (FileReader Loader)

/-- The options that a caller gives. -/
structure Options where
  /-- The options that are plain data. -/
  settings : Settings := {}
  /-- The number of init actions. -/
  initActions : Nat := 0
  /-- Whether an init action lets others run before it ends. -/
  initYields : Bool := false
  /-- The caller's own loader. -/
  loader : Option Loader := none
  /-- The caller's own reader of files. -/
  reader : Option FileReader := none
  /-- The contents of the files on the disk. -/
  disk : String → Option String := fun _ => none

/-- Where sources come from. -/
inductive LoaderSource where
  /-- From the caller's own loader. -/
  | custom (loader : Loader)
  /-- From files under source paths. -/
  | paths (reader : FileReader) (directories : List String)
  /-- From nowhere. -/
  | nothing

/-- The options that a request works with. -/
structure RequestOptions where
  /-- The options that are plain data. -/
  settings : Settings
  /-- The number of init actions. -/
  initActions : Nat
  /-- Where files are read from, if they are. -/
  reader : Option FileReader
  /-- Where sources come from. -/
  source : LoaderSource

namespace Options

/-- The reader of files: the caller's own, or the disk on a server. -/
def fileReader (o : Options) : Option FileReader :=
  match o.reader, o.settings.target with
  | some reader, _ => some reader
  | none, .nodejs => some (.disk o.disk)
  | none, .browser => none

/-- The options that a request works with, or why it cannot. -/
def normalize (o : Options) : Except Error RequestOptions :=
  let settings := o.settings
  let reader := o.fileReader
  match o.loader, reader with
  | some loader, _ => .ok ⟨settings, o.initActions, reader, .custom loader⟩
  | none, some r =>
    if settings.sourcePaths ≠ [] then
      .ok ⟨settings, o.initActions, reader, .paths r settings.sourcePaths⟩
    else if o.reader.isSome then
      .error (.config
        "Invalid options: :read-file-fn! requires :src-paths to build a load function")
    else .ok ⟨settings, o.initActions, reader, .nothing⟩
  | none, none => .ok ⟨settings, o.initActions, reader, .nothing⟩

/-- Normalizing keeps the settings and the init actions. -/
theorem keeps_of_normalize {o : Options} {options : RequestOptions}
    (h : o.normalize = .ok options) :
    options.settings = o.settings ∧ options.initActions = o.initActions := by
  simp only [normalize] at h
  split at h
  · cases h
    exact ⟨rfl, rfl⟩
  · split at h
    · cases h
      exact ⟨rfl, rfl⟩
    · split at h
      · cases h
      · cases h
        exact ⟨rfl, rfl⟩
  · cases h
    exact ⟨rfl, rfl⟩

end Options

/-- The loader for a request that sees a module index. -/
def RequestOptions.loader (o : RequestOptions) (index : ModuleIndex) : Loader :=
  match o.source with
  | .custom loader => loader
  | .paths reader directories => Source.pathLoader reader directories index
  | .nothing => Source.noLoader

end Listener
