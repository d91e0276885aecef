import Compendium.Module.Json
import Compendium.Module.Latex

/-!
# Documents of modules

The LaTeX and the JSON document of a module are made in one walk through its items.
-/

namespace Compendium

structure RenderedModule where
  latex : List Char
  json : Json.Value

namespace RenderedModule

def latexText (d : RenderedModule) : String := String.ofList d.latex

/-- The text of the JSON document, with the members of objects in the order of their names. -/
def jsonText (d : RenderedModule) : String := d.json.sorted.document

def text (d : RenderedModule) : Format → String
  | .latex => d.latexText
  | .json => d.jsonText

end RenderedModule

def LatexRenderer.bothForms (r : LatexRenderer) (i : Item) : Except Error (List Char × Json.Value) := do
  return (← r.item i, i.json)

/-- The documents of a module, or the error of the first item that has one. -/
def renderModule (registry : Registry) (config : Config) (module : Name) (items : List Item) :
    Except Error RenderedModule := do
  let r : LatexRenderer := ⟨registry, config⟩
  let forms ← items.mapM fun i => LatexRenderer.inModule module (r.bothForms i)
  return ⟨LatexRenderer.document (forms.map Prod.fst), .array (forms.map Prod.snd)⟩

end Compendium
