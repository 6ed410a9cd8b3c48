/-
Looking for the source of a module.

* `FileReader`: where files are read from.
* `readFirst`: the first of several files that can be read. It asks for no file
  behind that one.
* `Loader`, `pathLoader`: from a request to the source of a module. Bundled
  namespaces are found without reading, modules of the library by the module
  index, all others by their path and the extensions.
* `discover`: the pairs of the manifests under the source paths.
-/
import Listener.Error
import Listener.Session.ModuleIndex
import Listener.Source.Manifest

namespace Listener

namespace Source

/-! ### Files -/

/-- Where files are read from. -/
inductive FileReader where
  /-- A table of files, each path with its contents. -/
  | table (files : List (String × String))
  /-- The disk, by the contents of its files. -/
  | disk (contents : String → Option String)

namespace FileReader

/-- The contents of a file, if it can be read. -/
def read (r : FileReader) (path : String) : Option String :=
  match r with
  | .table files => files.lookup path
  | .disk contents => contents path

/-- What a table of files notes down when it is asked for paths. -/
def note (r : FileReader) (paths : List String) : List String :=
  match r with
  | .table _ => paths
  | .disk _ => []

end FileReader

/-! ### Modules -/

/-- The language of a source. -/
inductive Language where
  /-- Forms, to be read and evaluated. -/
  | forms
  /-- Script, to be run as it is. -/
  | script
  deriving DecidableEq

/-- A module that is looked for. -/
structure LoadRequest where
  /-- The namespace. -/
  name : Symbol
  /-- Whether its macros are wanted. -/
  isMacros : Bool
  /-- The path without an extension. -/
  path : String

/-- The request for a namespace, under the path that its name gives. -/
def LoadRequest.ofNamespace (name : Symbol) (isMacros : Bool) : LoadRequest :=
  ⟨name, isMacros, name.path⟩

/-- A source that was found. -/
structure LoadedSource where
  /-- The language of the text. -/
  language : Language
  text : String
  /-- The file it came from, if it came from one. -/
  file : Option String

/-- What came of looking for a source. -/
structure Lookup where
  /-- The paths that a table of files was asked for, in order. -/
  reads : List String
  /-- The source, nothing if there is none, or a failure to look for it. -/
  found : Except Error (Option LoadedSource)

/-- A way to find modules. -/
abbrev Loader := LoadRequest → Lookup

/-- The loader that finds nothing. -/
def noLoader : Loader := fun _ => ⟨[], .ok none⟩

/-- The language of a file, told by the end of its path. -/
def languageOf (path : String) : Language :=
  if ".js".toList.isSuffixOf path.toList then .script else .forms

/-- The candidates up to and including the first that can be read, and the
source in that one. -/
def readFirst (r : FileReader) : List String → List String × Option LoadedSource
  | [] => ([], none)
  | path :: paths =>
    match r.read path with
    | some text => ([path], some ⟨languageOf path, text, some path⟩)
    | none =>
      let (asked, found) := readFirst r paths
      (path :: asked, found)

/-- The source of the first candidate that can be read. -/
def lookupFirst (r : FileReader) (paths : List String) : Lookup :=
  let (asked, found) := readFirst r paths
  ⟨r.note asked, .ok found⟩

/-! ### Bundled namespaces -/

/-- The namespaces that come with the compiler. -/
def bundled : List String :=
  ["cljs.core", "cljs.env", "cljs.pprint", "cljs.tools.reader", "clojure.walk", "goog.array",
    "goog.object", "goog.string", "goog.string.StringBuffer"]

/-- The namespaces of macros that come with the compiler. -/
def bundledMacros : List String :=
  ["cljs.core", "cljs.env.macros", "cljs.analyzer.macros", "cljs.compiler.macros", "cljs.pprint"]

/-- Whether a module comes with the compiler. -/
def LoadRequest.isBundled (request : LoadRequest) : Bool :=
  (if request.isMacros then bundledMacros else bundled).contains request.name.text

/-! ### Source paths -/

/-- Whether a module belongs to the library with a manifest. -/
def LoadRequest.isLibrary (request : LoadRequest) : Bool :=
  "goog/".toList.isPrefixOf request.path.toList

/-- The files that may hold a module. A module of the library lies where the
index says, or else where its path says. -/
def LoadRequest.candidates (directories : List String) (index : ModuleIndex)
    (request : LoadRequest) : List String :=
  if request.isLibrary then
    underEach directories ((index.get? request.name).getD (request.path ++ ".js"))
  else Source.candidates directories request.isMacros request.path

/-- The loader over a list of directories. -/
def pathLoader (r : FileReader) (directories : List String) (index : ModuleIndex) : Loader :=
  fun request =>
    if request.isBundled then ⟨[], .ok (some ⟨.script, "", none⟩)⟩
    else lookupFirst r (request.candidates directories index)

/-! ### Discovery -/

/-- The manifest of the library, from a source path. -/
def manifestFile : String := "goog/deps.js"

/-- The pairs of all manifests under the directories, in order. -/
def discover (r : FileReader) (directories : List String) : List (Symbol × String) :=
  (underEach directories manifestFile).flatMap fun path =>
    match r.read path with
    | some text => manifestPairs text
    | none => []

/-- The paths that discovery notes down. -/
def discoverReads (r : FileReader) (directories : List String) : List String :=
  r.note (underEach directories manifestFile)

end Source

end Listener
