import Compendium.Citation
import Compendium.Name

/-!
# Settings of a run
-/

namespace Compendium

structure Config where
  /-- Where the paths of included documents start. -/
  inputRoot : String
  sourceExtension : String
  /-- The constant on which everything unproved depends. -/
  sorryMarker : Name
  bibliography : Bibliography
deriving DecidableEq, Repr

namespace Config

def default : Config := ⟨"", "lean", ⟨"sorryAx"⟩, ⟨[]⟩⟩

def schema : Json.Schema Config where
  name := "RenderConfig"
  blank := default
  fields := [
    Json.Codec.string.field "inputRoot" .defaulted inputRoot fun c inputRoot => { c with inputRoot },
    Json.Codec.string.field "sourceExtension" .defaulted sourceExtension
      fun c sourceExtension => { c with sourceExtension },
    Name.codec.field "sorryMarker" .defaulted sorryMarker fun c sorryMarker => { c with sorryMarker },
    ((Json.Codec.list Json.Codec.string).wrap Bibliography.mk Bibliography.keys).field "bibliography" .defaulted
      bibliography fun c bibliography => { c with bibliography }]

def codec : Json.Codec Config := schema.codec

end Config

end Compendium
