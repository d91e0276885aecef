import Compendium.Text.Basic

/-!
# Recognising tables

A table begins where a line of dashes and bars has as many cells as the line before it. Only its
presence matters: tables have no form in the output.
-/

namespace Compendium.Markdown.Table

def isRowBlank (c : Char) : Bool :=
  Text.isAsciiBlank c && c ≠ '\n' && c ≠ '\r'

/-- Whether a cell of a delimiter row: dashes, with a colon at either end or none. -/
def isDelimiterCell (cs : List Char) : Bool :=
  let cs := Text.trim isRowBlank cs
  let cs := if cs.head? = some ':' then cs.drop 1 else cs
  let cs := if cs.getLast? = some ':' then cs.dropLast else cs
  !cs.isEmpty && cs.all (· = '-')

/-- Whether a line is a delimiter row. Bars at its ends are optional. -/
def isDelimiterRow (line : List Char) : Bool :=
  let cells := Text.split '|' (if line.head? = some '|' then line.drop 1 else line)
  let cells := match cells.getLast? with
    | some last => if 1 < cells.length && last.all isRowBlank then cells.dropLast else cells
    | none => cells
  cells.all isDelimiterCell

/-- What follows a cell. It ends before the next bar that has no backslash in front, or with its
line. -/
def cellEnd (escaped : Bool) : List Char → List Char
  | [] => []
  | c :: cs =>
    if c = '\n' || (c = '|' && !escaped) then c :: cs else cellEnd (c = '\\') cs

def bar? : List Char → Option (List Char)
  | '|' :: cs => some (cs.dropWhile isRowBlank)
  | _ => none

/-- The number of cells in the last line of a text, of which `count` are counted already; at most
`n` steps are taken. -/
def countCells : Nat → Nat → List Char → Nat
  | 0, count, _ => count
  | _, count, [] => count
  | n + 1, count, cs =>
    let rest := cellEnd false cs
    let isCell := rest.length < cs.length
    match bar? rest with
    | some rest => countCells n (count + 1) rest
    | none =>
      let count := if isCell then count + 1 else count
      match rest with
      | '\n' :: next => if next.isEmpty then count else countCells n 0 ((bar? next).getD next)
      | _ => count

def cells (cs : List Char) : Nat :=
  countCells (cs.length + 1) 0 ((bar? cs).getD cs)

/-- Whether `line`, a delimiter row, makes the last line of the paragraph before it the head of a
table. -/
def begins (paragraph line : List Char) : Bool :=
  0 < cells line && cells paragraph = cells line

end Compendium.Markdown.Table
