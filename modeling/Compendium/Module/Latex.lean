import Compendium.Module.Content
import Compendium.Node.Latex
import Compendium.Output

/-!
# Modules in LaTeX

The items of a module follow one another with an empty line between any two. An item that stands for
another document includes it, and the texts between nodes are taken as they are.
-/

namespace Compendium

namespace LatexRenderer

def input (r : LatexRenderer) (kind : Kind) (name : Name) : List Char :=
  Markdown.Latex.command "input" [documentPath r.config.inputRoot kind name Format.latex.extension]

def item (r : LatexRenderer) : Item → Except Error (List Char)
  | .content (.library name) => .ok (r.input .library name)
  | .content (.module name) => .ok (r.input .module name)
  | .content (.node n) => r.node n
  | .content (.text t) => .ok t.toList
  | .doc t => .ok t.toList

/-- An error that came up in a module. -/
def inModule {α : Type} (module : Name) : Except Error α → Except Error α
  | .ok a => .ok a
  | .error e => .error (.inModule module e)

/-- A document with an empty line between any two items. -/
def document (items : List (List Char)) : List Char :=
  if items.isEmpty then [] else Text.join Markdown.Latex.blockGap items ++ ['\n']

theorem document_nil : document [] = [] := rfl

theorem document_cons (item : List Char) (items : List (List Char)) :
    document (item :: items) = item ++ items.flatMap (fun item => '\n' :: '\n' :: item) ++ ['\n'] := by
  rw [document, if_neg (by simp), Text.join_cons]
  rfl

def module (r : LatexRenderer) (module : Name) (items : List Item) : Except Error (List Char) := do
  return document (← items.mapM fun i => inModule module (r.item i))

end LatexRenderer

end Compendium
