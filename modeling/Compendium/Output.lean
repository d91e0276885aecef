import Compendium.Name
import Compendium.Path

/-!
# Where documents are put

The documents of modules and those of libraries have a directory each below the output directory.
The segments of a name are the directories and the file in there.
-/

namespace Compendium

/-- What a document is about. -/
inductive Kind where
  | module
  | library
deriving DecidableEq, Repr

namespace Kind

def directory : Kind → String
  | module => "module"
  | library => "library"

def codec : Json.Codec Kind :=
  .choice [("module", module), ("library", library)] directory

end Kind

/-- The forms that a document has. -/
inductive Format where
  | latex
  | json
deriving DecidableEq, Repr

namespace Format

def name : Format → String
  | latex => "latex"
  | json => "json"

def extension : Format → String
  | latex => "tex"
  | json => "json"

def codec : Json.Codec Format :=
  .choice [("latex", latex), ("json", json)] name

end Format

/-- The path of a document below the output directory. -/
def relativePath (kind : Kind) (name : Name) (extension : String) : Path :=
  (name.segments.foldl (fun path segment => path.join ⟨segment⟩) (Path.ofString kind.directory)).addExtension
    extension.toList

/-- How other documents refer to a document, given the text that all such references start with. It
is separated by slashes on every system. -/
def documentPath (root : String) (kind : Kind) (name : Name) (extension : String) : List Char :=
  let root := Text.dropEndWhile (· = '/') root.toList
  let start := if root.isEmpty then [] else [root]
  Text.join ['/'] (start ++ kind.directory.toList :: name.segments) ++ '.' :: extension.toList

structure Layout where
  base : Path
deriving DecidableEq, Repr

def Layout.pathFor (l : Layout) (kind : Kind) (name : Name) (format : Format) : Path :=
  l.base.join (relativePath kind name format.extension)

end Compendium
