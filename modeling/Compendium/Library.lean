import Compendium.Module.Latex

/-!
# Libraries

A library is a list of modules. Its index refers to their documents and holds nothing of them.
-/

namespace Compendium

def libraryItems (members : List Name) : List Item :=
  members.map fun member => .content (.module member)

structure LibraryIndex where
  name : Name
  /-- The paths of the documents of its modules, below the output directory. -/
  modules : List String
deriving DecidableEq, Repr

namespace LibraryIndex

def schema : Json.Schema LibraryIndex where
  name := "LibraryIndex"
  blank := ⟨⟨""⟩, []⟩
  fields := [
    Name.codec.field "name" .required name fun i name => { i with name },
    (Json.Codec.list Json.Codec.string).field "modules" .required modules fun i modules => { i with modules }]

def codec : Json.Codec LibraryIndex := schema.codec

def ofMembers (library : Name) (members : List Name) : LibraryIndex where
  name := library
  modules := members.map fun member =>
    String.ofList (documentPath "" .module member Format.json.extension)

end LibraryIndex

/-- The index of a library. In LaTeX it includes the documents, and in JSON it lists their paths. -/
def renderLibrary (config : Config) (library : Name) (members : List Name) : Format → Except Error String
  | .latex => do
    return String.ofList (← LatexRenderer.module ⟨.empty, config⟩ library (libraryItems members))
  | .json => .ok (LibraryIndex.codec.write (.ofMembers library members)).document

end Compendium
