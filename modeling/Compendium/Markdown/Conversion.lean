import Compendium.Citation
import Compendium.Markdown.Latex
import Compendium.Markdown.Outline
import Compendium.Markdown.Reading

/-!
# From Markdown to LaTeX

A text is converted block by block. Its citations are resolved before it is read, and its character
references stay as they are written.
-/

namespace Compendium.Markdown

/-- The bytes that link definitions may always add to a document; a longer document may double. -/
def minAllowance : Nat := 100000

def Document.ofText (cs : List Char) : Document :=
  let (outline, definitions) := Outline.ofText cs
  (Document.readBlocks definitions (max minAllowance (Text.byteLength cs)) outline).1

/-- The LaTeX form of each block of a text whose citations are resolved. A text without any block
that is not all white space is its own and only block. -/
def blocks (text : List Char) : Except Latex.Unsupported (List (List Char)) := do
  let forms ← Latex.ofBlocks (Document.ofText (CharRef.shield text))
  let forms := forms.map CharRef.unshield
  return if forms.isEmpty && !(text.all Text.isBlank) then [text] else forms

def convert (bibliography : Bibliography) (text : String) : Except Latex.Unsupported (List String) := do
  return (← blocks (bibliography.resolve text.toList)).map String.ofList

/-- The LaTeX form of a text, with an empty line between any two blocks. -/
def latex (bibliography : Bibliography) (text : String) : Except Latex.Unsupported (List Char) := do
  return Text.join Latex.blockGap (← blocks (bibliography.resolve text.toList))

end Compendium.Markdown
