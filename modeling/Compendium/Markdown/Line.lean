import Compendium.Text.Basic

/-!
# Reading along a line

The structure of a document hangs on columns. A tab reaches to the next multiple of four, and may be
used up in part: what is left of it then counts as spaces.
-/

namespace Compendium.Markdown

def tabStop : Nat := 4

def codeIndent : Nat := 4

def tabWidth (column : Nat) : Nat :=
  tabStop - column % tabStop

structure Cursor where
  rest : List Char
  column : Nat
  /-- Whether `rest` begins with a tab of which a part is used up. -/
  inTab : Bool
deriving Repr

namespace Cursor

def ofLine (line : List Char) : Cursor := ⟨line, 0, false⟩

/-- The columns that spaces and tabs take up from a column on. -/
def indentWidth (column : Nat) : List Char → Nat
  | c :: cs =>
    if c = ' ' then 1 + indentWidth (column + 1) cs
    else if c = '\t' then tabWidth column + indentWidth (column + tabWidth column) cs
    else 0
  | [] => 0

def indent (c : Cursor) : Nat := indentWidth c.column c.rest

def text (c : Cursor) : List Char := c.rest.dropWhile Text.isIndent

def isBlank (c : Cursor) : Bool := c.text.isEmpty

def isDeep (c : Cursor) : Bool := codeIndent ≤ c.indent

def skip : Nat → Cursor → Cursor
  | 0, c => c
  | n + 1, c =>
    match c.rest with
    | [] => c
    | d :: rest => skip n ⟨rest, c.column + (if d = '\t' then tabWidth c.column else 1), false⟩

/-- Moves on by columns, by part of a tab if need be. -/
def skipColumns : Nat → Cursor → Cursor
  | 0, c => c
  | n + 1, c =>
    match c.rest with
    | [] => c
    | d :: rest =>
      if d = '\t' then
        if n + 1 < tabWidth c.column then ⟨d :: rest, c.column + (n + 1), true⟩
        else skipColumns (n + 1 - tabWidth c.column) ⟨rest, c.column + tabWidth c.column, false⟩
      else skipColumns n ⟨rest, c.column + 1, false⟩
termination_by n => n
decreasing_by
  · have : 0 < tabWidth c.column := by
      have := Nat.mod_lt c.column (y := tabStop) (by decide)
      unfold tabWidth; omega
    omega
  · omega

def toText (c : Cursor) : Cursor :=
  c.skip (c.rest.length - c.text.length)

/-- Moves over one space or tab, or one column of a tab, if there is one. -/
def skipOneBlank (c : Cursor) : Cursor :=
  if c.rest.head?.any Text.isIndent then c.skipColumns 1 else c

/-- The rest of the line as it is kept: the rest of a tab that is used up in part becomes spaces. -/
def remainder (c : Cursor) : List Char :=
  if c.inTab then List.replicate (tabWidth c.column) ' ' ++ c.rest.drop 1 else c.rest

end Cursor

/-- The lines of a source text. A line feed, a carriage return or both in this order end a line;
what follows the last line end is a line only if it is not empty. -/
def sourceLines : List Char → List (List Char)
  | [] => []
  | '\r' :: '\n' :: cs => [] :: sourceLines cs
  | c :: cs =>
    if c = '\n' || c = '\r' then [] :: sourceLines cs
    else match sourceLines cs with
      | [] => [[c]]
      | line :: lines =>
        -- a line that has just begun takes the character in front of it
        (c :: line) :: lines

end Compendium.Markdown
