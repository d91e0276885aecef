import Compendium.Json.Codec

/-!
# Names

A qualified name such as `Nat.add_comm`. Two names are the same if their texts are; the segments
between the dots only matter for where documents are put.
-/

namespace Compendium

structure Name where
  text : String
deriving DecidableEq, Repr

namespace Name

/-- The segments of a name between its dots, without the empty ones. -/
def segments (n : Name) : List (List Char) :=
  (Text.split '.' n.text.toList).filter (!·.isEmpty)

def components (n : Name) : List String :=
  n.segments.map String.ofList

/-- Each name at its first place only. -/
def distinct (names : List Name) : List Name :=
  names.eraseDups

/-- Names are ordered by their texts, character by character. -/
def le (m n : Name) : Bool :=
  !(n.text < m.text)

def sort (names : List Name) : List Name :=
  names.mergeSort le

def codec : Json.Codec Name :=
  Json.Codec.string.wrap Name.mk Name.text

end Name

end Compendium
