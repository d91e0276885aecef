import Compendium.Node.Basic

/-!
# Contents of a module

A module holds entries and docs, each at a position. Put in order, they are the items of the module.
-/

namespace Compendium

inductive Content where
  | library (name : Name)
  | module (name : Name)
  | node (n : Node)
  | text (t : String)
deriving DecidableEq, Repr

structure Entry where
  position : Position
  content : Content
deriving DecidableEq, Repr

structure Doc where
  text : String
  position : Position
deriving DecidableEq, Repr

def Doc.schema : Json.Schema Doc where
  name := "ModuleDoc"
  blank := ⟨"", ⟨0, 0⟩⟩
  fields := [
    Json.Codec.string.field "text" .required text fun d text => { d with text },
    Position.codec.field "position" .required position fun d position => { d with position }]

def Doc.codec : Json.Codec Doc := schema.codec

inductive Item where
  | content (c : Content)
  | doc (text : String)
deriving DecidableEq, Repr

namespace Item

/-- The word for the kind of an item. Text counts as documentation. -/
def tag : Item → String
  | content (.library _) => "includeLibrary"
  | content (.module _) => "includeModule"
  | content (.node _) => "node"
  | content (.text _) => "moduleDoc"
  | doc _ => "moduleDoc"

end Item

structure Contents where
  entries : List Entry
  docs : List Doc
  isFrozen : Bool
deriving DecidableEq, Repr

namespace Contents

def empty : Contents := ⟨[], [], false⟩

/-- Entries and docs as items with their positions, the entries first. -/
def positioned (c : Contents) : List (Position × Item) :=
  c.entries.map (fun e => (e.position, .content e.content)) ++ c.docs.map fun d => (d.position, .doc d.text)

/-- The items in the order of their positions. At the same position they keep their order, with the
entries before the docs. -/
def items (c : Contents) : List Item :=
  (c.positioned.mergeSort fun a b => a.1.le b.1).map Prod.snd

end Contents

end Compendium
