/-
Paths of source files.

* `joinPath`: a directory and a file with one slash between them.
* `underEach`: a file under each of several directories.
* `candidates`: the files that may hold a module, extension by extension.
-/
namespace Listener

namespace Source

/-- The text without the slashes at its end. -/
def trimSlashesEnd (cs : List Char) : List Char :=
  (cs.reverse.dropWhile (· == '/')).reverse

/-- A file in a directory, with one slash between them. Without a directory the
file stands alone. -/
def joinPath (directory file : String) : String :=
  if directory = "" then file
  else
    String.ofList (trimSlashesEnd directory.toList ++
      '/' :: file.toList.dropWhile (· == '/'))

/-- A file under each directory, in their order. -/
def underEach (directories : List String) (file : String) : List String :=
  directories.map fun directory => joinPath directory file

/-- The extensions of files of macros. -/
def macroExtensions : List String := [".clj", ".cljc"]

/-- The extensions of source files. -/
def sourceExtensions : List String := [".cljs", ".cljc", ".js"]

/-- The files that may hold a module whose path has no extension. The
extensions come in their order, and each under every directory. -/
def candidates (directories : List String) (isMacros : Bool) (path : String) : List String :=
  (if isMacros then macroExtensions else sourceExtensions).flatMap fun extension =>
    underEach directories (path ++ extension)

end Source

end Listener
