import Compendium.Module.Content

/-!
# Modules in JSON

An item becomes a word for its kind together with a name, a text or the record of a node. In such a
record the lists of names are complete, also where a name means no node.
-/

namespace Compendium

namespace Item

def data : Item → Json.Value
  | .content (.library name) => .string name.text
  | .content (.module name) => .string name.text
  | .content (.node n) => Node.codec.write n
  | .content (.text t) => .string t
  | .doc t => .string t

def json (i : Item) : Json.Value :=
  .object [("type", .string i.tag), ("data", i.data)]

end Item

def moduleJson (items : List Item) : Json.Value :=
  .array (items.map Item.json)

end Compendium
