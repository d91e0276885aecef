import Compendium.Config
import Compendium.Constant
import Compendium.Draft
import Compendium.Error
import Compendium.Module.Content

/-!
# Manifests

A manifest is all that is known about a formalization when its documents are made.
-/

namespace Compendium

/-- The nodes of another unit. -/
structure ImportedUnit where
  unit : Name
  nodes : List Node
deriving DecidableEq, Repr

namespace ImportedUnit

def schema : Json.Schema ImportedUnit where
  name := "ImportedUnit"
  blank := ⟨⟨""⟩, []⟩
  fields := [
    Name.codec.field "unit" .required unit fun i unit => { i with unit },
    (Json.Codec.list Node.codec).field "nodes" .defaulted nodes fun i nodes => { i with nodes }]

def codec : Json.Codec ImportedUnit := schema.codec

end ImportedUnit

/-- What the data of an entry means. -/
inductive EntryType where
  | library
  | module
  | node
  | text
deriving DecidableEq, Repr

namespace EntryType

def name : EntryType → String
  | library => "includeLibrary"
  | module => "includeModule"
  | node => "node"
  | text => "freeText"

def codec : Json.Codec EntryType :=
  .choice ([library, module, node, text].map fun t => (t.name, t)) name

end EntryType

/-- An entry whose node, if it has one, is given by name. -/
structure EntryRecord where
  position : Position
  type : EntryType
  data : String
deriving DecidableEq, Repr

namespace EntryRecord

def schema : Json.Schema EntryRecord where
  name := "EntryRecord"
  blank := ⟨⟨0, 0⟩, .text, ""⟩
  fields := [
    Position.codec.field "position" .required position fun e position => { e with position },
    EntryType.codec.field "type" .required EntryRecord.type fun e type => { e with type },
    Json.Codec.string.field "data" .required data fun e data => { e with data }]

def codec : Json.Codec EntryRecord := schema.codec

end EntryRecord

/-- The content of a module. -/
structure ModuleRecord where
  name : Name
  entries : List EntryRecord
  docs : List Doc
deriving DecidableEq, Repr

namespace ModuleRecord

def schema : Json.Schema ModuleRecord where
  name := "ModuleRecord"
  blank := ⟨⟨""⟩, [], []⟩
  fields := [
    Name.codec.field "name" .required name fun m name => { m with name },
    (Json.Codec.list EntryRecord.codec).field "entries" .defaulted entries fun m entries => { m with entries },
    (Json.Codec.list Doc.codec).field "docs" .defaulted docs fun m docs => { m with docs }]

def codec : Json.Codec ModuleRecord := schema.codec

end ModuleRecord

structure Manifest where
  config : Config
  constants : List Constant
  imports : List ImportedUnit
  drafts : List Draft
  modules : List ModuleRecord
deriving DecidableEq, Repr

namespace Manifest

def empty : Manifest := ⟨.default, [], [], [], []⟩

def schema : Json.Schema Manifest where
  name := "Manifest"
  blank := empty
  fields := [
    Config.codec.field "config" .defaulted config fun m config => { m with config },
    (Json.Codec.list Constant.codec).field "constants" .defaulted constants
      fun m constants => { m with constants },
    (Json.Codec.list ImportedUnit.codec).field "imports" .defaulted imports fun m imports => { m with imports },
    (Json.Codec.list Draft.codec).field "nodes" .defaulted drafts fun m drafts => { m with drafts },
    (Json.Codec.list ModuleRecord.codec).field "modules" .defaulted modules fun m modules => { m with modules }]

def codec : Json.Codec Manifest := schema.codec

def ofText (text : String) : Except Error Manifest :=
  (codec.readText text).mapError .json

end Manifest

end Compendium
