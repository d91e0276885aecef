/-!
# Markdown documents

A document is a list of blocks. Blocks that hold running text are generic in the form of that text:
the block structure is found first, with running text still as it was written, and the text is read
once all link definitions are known.
-/

namespace Compendium.Markdown

inductive Style where
  | emphasis
  | strong
  | underline
  | strike
deriving DecidableEq, Repr

inductive Inline where
  | text (literal : List Char)
  | softBreak
  | hardBreak
  | html (literal : List Char)
  | code (literal : List Char)
  | math (display : Bool) (literal : List Char)
  | styled (style : Style) (content : List Inline)
  | link (url : List Char) (content : List Inline)
  | wikiLink (url : List Char) (label : List Char)
  | image (url : List Char) (alt : List Inline)
deriving Repr

/-- A block whose running text has the form `α`. The items of a list are lists of blocks. -/
inductive Block (α : Type) where
  | paragraph (content : α)
  | heading (level : Nat) (content : α)
  | list (ordered : Bool) (items : List (List (Block α)))
  | quote (content : List (Block α))
  | code (literal : List Char)
  | html (literal : List Char)
  | rule
  | table
deriving Repr

abbrev Document := List (Block (List Inline))

/-- A document whose running text is still as written. -/
abbrev Outline := List (Block (List Char))

end Compendium.Markdown
