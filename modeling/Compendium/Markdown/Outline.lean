import Compendium.Markdown.Document
import Compendium.Markdown.Html
import Compendium.Markdown.Line
import Compendium.Markdown.Link
import Compendium.Markdown.Table

/-!
# The block structure of a document

Lines are read one after the other. At any time some containers (quotes, lists and their items) are
open inside one another, and at most one leaf (a paragraph, code, HTML or a table) is open in the
innermost. A line first goes through the containers that it continues, then may begin new blocks,
and what is left of it belongs to a leaf.
-/

namespace Compendium.Markdown.Outline

/-! ### Open blocks -/

structure ListKind where
  ordered : Bool
  mark : Char
deriving DecidableEq, Repr

/-- An open container with its finished blocks, the latest first. -/
inductive Container where
  | quote (done : Outline)
  | list (kind : ListKind) (items : List Outline)
  | item (indent : Nat) (done : Outline)

/-- An open leaf with its lines, the latest first. -/
inductive Leaf where
  /-- A paragraph; `noTable` tells that no table can begin in it any more. -/
  | paragraph (lines : List (List Char)) (noTable : Bool)
  /-- Code between fences of `count` marks, of which the first is indented by `offset` characters.
  -/
  | fenced (mark : Char) (count offset : Nat) (lines : List (List Char))
  | indented (lines : List (List Char))
  | html (kind : Html.BlockKind) (lines : List (List Char))
  | table

structure State where
  done : Outline
  /-- The open containers, the innermost first. -/
  containers : List Container
  leaf : Option Leaf
  definitions : Definitions

namespace State

def empty : State := ⟨[], [], none, []⟩

def textOf (lines : List (List Char)) : List Char :=
  (lines.reverse.map (· ++ ['\n'])).flatten

def add (b : Block (List Char)) (s : State) : State :=
  match s.containers with
  | .quote done :: outer => { s with containers := .quote (b :: done) :: outer }
  | .item indent done :: outer => { s with containers := .item indent (b :: done) :: outer }
  | .list kind items :: outer => { s with containers := .list kind ([b] :: items) :: outer }
  | [] => { s with done := b :: s.done }

def startsBlank (cs : List Char) : Bool :=
  (cs.dropWhile Text.isIndent).head?.all (· = '\n')

/-- Finishes the open leaf. A paragraph first gives up its link definitions, and vanishes if nothing
is left. -/
def closeLeaf (s : State) : State :=
  let s' := { s with leaf := none }
  match s.leaf with
  | none => s'
  | some (.paragraph lines _) =>
    let (definitions, text) := Definitions.read s.definitions (textOf lines)
    let s' := { s' with definitions }
    if startsBlank text then s' else s'.add (.paragraph text)
  | some (.fenced _ _ _ lines) => s'.add (.code (textOf lines))
  | some (.indented lines) => s'.add (.code (textOf (lines.dropWhile (·.all Text.isIndent))))
  | some (.html _ lines) => s'.add (.html (textOf lines))
  | some .table => s'.add .table

def closeContainer (s : State) : State :=
  match s.containers with
  | [] => s
  | .quote done :: outer => { s with containers := outer }.add (.quote done.reverse)
  | .list kind items :: outer => { s with containers := outer }.add (.list kind.ordered items.reverse)
  | .item _ done :: .list kind items :: outer =>
    { s with containers := .list kind (done.reverse :: items) :: outer }
  | .item _ done :: outer => { s with containers := outer, done := done ++ s.done }

/-- Finishes containers until at most `depth` are open, of which `n` are at most too many. -/
def closeContainers (depth : Nat) : Nat → State → State
  | 0, s => s
  | n + 1, s => if depth < s.containers.length then closeContainers depth n s.closeContainer else s

def closeTo (depth : Nat) (s : State) : State :=
  let s := s.closeLeaf
  closeContainers depth s.containers.length s

/-- Finishes a list that is between two items, so that a block of another kind can follow. -/
def leaveList (s : State) : State :=
  match s.containers with
  | .list .. :: _ => s.closeContainer
  | _ => s

def openLeaf (leaf : Leaf) (s : State) : State :=
  { s.leaveList with leaf := some leaf }

def openQuote (s : State) : State :=
  let s := s.leaveList
  { s with containers := .quote [] :: s.containers }

/-- Opens an item, in the list that is open if it is of the same kind, else in a new one. -/
def openItem (kind : ListKind) (indent : Nat) (s : State) : State :=
  match s.containers with
  | .list kind' _ :: _ =>
    if kind = kind' then { s with containers := .item indent [] :: s.containers }
    else
      let s := s.closeContainer
      { s with containers := .item indent [] :: .list kind [] :: s.containers }
  | _ => { s with containers := .item indent [] :: .list kind [] :: s.containers }

end State

/-! ### Forms of lines -/

def headingStart? (text : List Char) : Option (Nat × List Char) :=
  let level := (text.takeWhile (· = '#')).length
  let rest := text.dropWhile (· = '#')
  if 1 ≤ level && level ≤ 6 && rest.head?.all Text.isIndent then some (level, rest) else none

def headingText (rest : List Char) : List Char :=
  let text := Text.dropEndWhile Text.isLineBlank (rest.dropWhile Text.isIndent)
  let open_ := Text.dropEndWhile (· = '#') text
  if open_.length = text.length then text
  else match open_.getLast? with
    | none => []
    | some c => if Text.isIndent c then Text.dropEndWhile Text.isLineBlank open_ else text

/-- The mark and length of a fence that a text begins. Behind backticks, no other backtick may
follow. -/
def fence? (text : List Char) : Option (Char × Nat) :=
  match text with
  | c :: _ =>
    let n := (text.takeWhile (· = c)).length
    if n < 3 then none
    else if c = '~' then some (c, n)
    else if c = '\x60' && !(text.drop n).contains c then some (c, n)
    else none
  | [] => none

def closesFence (mark : Char) (n : Nat) (c : Cursor) : Bool :=
  !c.isDeep && n ≤ (c.text.takeWhile (· = mark)).length &&
    (c.text.dropWhile (· = mark)).all Text.isIndent

/-- The level of the heading that a line of equals signs or hyphens makes of the paragraph above it.
-/
def underline? (text : List Char) : Option Nat :=
  let text := Text.dropEndWhile Text.isIndent text
  if text.isEmpty then none
  else if text.all (· = '=') then some 1
  else if text.all (· = '-') then some 2
  else none

def isRule (text : List Char) : Bool :=
  match text with
  | c :: _ =>
    (c = '*' || c = '_' || c = '-') && text.all (fun d => d = c || Text.isIndent d) &&
      3 ≤ text.countP (· = c)
  | [] => false

/-- A list marker at the start of a text: its kind, its length, the number in it (one for a bullet)
and what follows it, which is nothing or begins with a blank. -/
def marker? (text : List Char) : Option (ListKind × Nat × Nat × List Char) :=
  let ended (kind : ListKind) (n number : Nat) : Option (ListKind × Nat × Nat × List Char) :=
    let rest := text.drop n
    if rest.head?.all Text.isLineBlank then some (kind, n, number, rest) else none
  match text with
  | [] => none
  | c :: _ =>
    if c = '*' || c = '-' || c = '+' then ended ⟨false, c⟩ 1 1
    else
      let digits := text.takeWhile Char.isDigit
      if digits.isEmpty || 9 < digits.length then none
      else
        let number := digits.foldl (fun n d => 10 * n + (d.toNat - '0'.toNat)) 0
        match (text.drop digits.length).head? with
        | some mark =>
          if mark = '.' || mark = ')' then ended ⟨true, mark⟩ (digits.length + 1) number else none
        | none => none

/-! ### Going through the open containers -/

/-- The number of containers, listed from the outermost, that a line continues, and the place in the
line behind their marks. A blank line continues an item that is not empty; `filled` tells whether
the innermost container has an open leaf. -/
def continued (filled : Bool) : List Container → Cursor → Nat × Cursor
  | [], c => (0, c)
  | .quote _ :: inner, c =>
    match c.text with
    | '>' :: _ =>
      if c.isDeep then (0, c)
      else
        let (n, c) := continued filled inner (c.toText.skip 1).skipOneBlank
        (n + 1, c)
    | _ => (0, c)
  | .list .. :: inner, c =>
    let (n, c) := continued filled inner c
    (n + 1, c)
  | .item indent done :: inner, c =>
    if indent ≤ c.indent then
      let (n, c) := continued filled inner (c.skipColumns indent)
      (n + 1, c)
    else if c.isBlank && (!done.isEmpty || !inner.isEmpty || filled) then
      let (n, c) := continued filled inner c.toText
      (n + 1, c)
    else (0, c)

/-! ### New blocks -/

inductive Rest where
  | used
  /-- It is the text of a paragraph, if it is not blank. -/
  | text (c : Cursor)

structure Place where
  depth : Nat
  cursor : Cursor
  inParagraph : Bool
  /-- Whether the line could continue a paragraph outside the containers that it continues. -/
  afterParagraph : Bool

/-- The number of blocks in one line beyond which no list begins. -/
def maxNesting : Nat := 100

/-- The number of columns by which the text of an item is indented, counted from its marker, and the
place where the text begins. One to four blanks behind the marker belong to it; of more, only one
does, and none if nothing follows. -/
def itemText (markerLength : Nat) (c : Cursor) : Nat × Cursor :=
  let wide := c.skipOneBlank.skipOneBlank.skipOneBlank.skipOneBlank.skipOneBlank.skipOneBlank
  let blanks := wide.column - c.column
  if blanks = 0 || 5 ≤ blanks || wide.rest.isEmpty then
    (markerLength + 1, if blanks = 0 then c else c.skipColumns 1)
  else (markerLength + blanks, wide)

/-- Whether a marker with this number and rest may begin a list right behind the line of a
paragraph. -/
def markerInterrupts (number : Nat) (rest : List Char) : Bool :=
  number = 1 && !(rest.all Text.isIndent)

/-- A block that begins at a place, if one does: the state and the rest of the line. A quote and an
item leave a rest of the line in which other blocks may begin. -/
def begin? (nesting : Nat) (p : Place) (s : State) : Option (State × Rest) :=
  let c := p.cursor
  let text := c.text
  if c.isDeep then
    if p.afterParagraph || c.isBlank then none
    else some ((s.closeTo p.depth).openLeaf (.indented [(c.skipColumns codeIndent).remainder]), .used)
  else if text.head? = some '>' then
    some ((s.closeTo p.depth).openQuote, .text (c.toText.skip 1).skipOneBlank)
  else if let some (level, rest) := headingStart? text then
    some ((s.closeTo p.depth).leaveList.add (.heading level (headingText rest)), .used)
  else if let some (mark, count) := fence? text then
    let offset := c.rest.length - text.length
    some ((s.closeTo p.depth).openLeaf (.fenced mark count offset []), .used)
  else if let some kind := (Html.blockStart? text).filter (fun k => !p.inParagraph || k.interrupts) then
    let s := (s.closeTo p.depth).openLeaf (.html kind [c.remainder])
    some (if kind.endsWith text then s.closeLeaf else s, .used)
  else if let (some level, true, some (.paragraph lines noTable)) := (underline? text, p.inParagraph, s.leaf) then
    let (definitions, content) := Definitions.read s.definitions (State.textOf lines)
    if State.startsBlank content then
      some ({ s with definitions, leaf := some (.paragraph [text] noTable) }, .used)
    else some ({ s with definitions, leaf := none }.add (.heading level content), .used)
  else if isRule text then
    some ((s.closeTo p.depth).leaveList.add .rule, .used)
  else
    match marker? text with
    | none => none
    | some (kind, n, number, rest) =>
      if maxNesting ≤ nesting || (p.inParagraph && !markerInterrupts number rest) then none
      else
        let (width, inside) := itemText n (c.toText.skip n)
        some ((s.closeTo p.depth).openItem kind (c.indent + width), .text inside)

def beginAll : Nat → Nat → State → Cursor → State × Rest
  | 0, _, s, c => (s, .text c)
  | n + 1, nesting, s, c =>
    match begin? nesting ⟨s.containers.length, c, false, false⟩ s with
    | some (s, .text c) => beginAll n (nesting + 1) s c
    | some (s, .used) => (s, .used)
    | none => (s, .text c)

/-! ### Lines -/

/-- What a line does to a leaf that it may continue, if the line goes to the leaf whatever it holds.
-/
def intoLeaf? (s : State) (c : Cursor) : Option State :=
  match s.leaf with
  | some (.fenced mark count offset lines) =>
    if closesFence mark count c then some s.closeLeaf
    else
      let c := (List.range offset).foldl (fun c _ => c.skipOneBlank) c
      some { s with leaf := some (.fenced mark count offset (c.remainder :: lines)) }
  | some (.indented lines) =>
    if c.isDeep then
      some { s with leaf := some (.indented ((c.skipColumns codeIndent).remainder :: lines)) }
    else if c.isBlank then some { s with leaf := some (.indented (c.toText.remainder :: lines)) }
    else none
  | some (.html kind lines) =>
    if c.isBlank && kind.endsAtBlank then none
    else
      let s := { s with leaf := some (.html kind (c.remainder :: lines)) }
      some (if kind.endsWith c.text then s.closeLeaf else s)
  | _ => none

def addText (p : Place) (s : State) : State :=
  let c := p.cursor
  if c.isBlank then s.closeTo p.depth
  else match s.leaf with
    | some (.paragraph lines noTable) =>
      if !p.inParagraph then
        -- the line of a paragraph may lack the marks of its containers
        { s with leaf := some (.paragraph (c.remainder :: lines) noTable) }
      else if !c.isDeep && !noTable && Table.isDelimiterRow c.text then
        if Table.begins (State.textOf lines) (c.text ++ ['\n']) then
          let s := if lines.length < 2 then s else s.add (.paragraph (State.textOf lines.tail))
          { s with leaf := some .table }
        else { s with leaf := some (.paragraph (c.text :: lines) true) }
      else { s with leaf := some (.paragraph (c.text :: lines) noTable) }
    | some .table =>
      if p.depth = s.containers.length then s
      else (s.closeTo p.depth).openLeaf (.paragraph [c.text] false)
    | _ => (s.closeTo p.depth).openLeaf (.paragraph [c.text] false)

def addLine (s : State) (line : Cursor) : State :=
  let (depth, c) := continued s.leaf.isSome s.containers.reverse line
  let reachesLeaf := depth = s.containers.length
  match if reachesLeaf then intoLeaf? s c else none with
  | some s => s
  | none =>
    let isParagraph := match s.leaf with
      | some (.paragraph ..) => true
      | _ => false
    let p : Place := ⟨depth, c, isParagraph && reachesLeaf && !c.isBlank, isParagraph⟩
    match begin? 1 p s with
    | none => addText p s
    | some (s, .used) => s
    | some (s, .text c) =>
      match beginAll (c.rest.length + 1) 2 s c with
      | (s, .used) => s
      | (s, .text c) => if c.isBlank then s else s.openLeaf (.paragraph [c.text] false)

/-- The first line of a text may begin with a byte order mark, which is no part of it. -/
def dropByteOrderMark : List Char → List Char
  | '\ufeff' :: cs => cs
  | cs => cs

def ofText (cs : List Char) : Outline × Definitions :=
  let lines := sourceLines (dropByteOrderMark (cs.map fun c => if c = '\x00' then '\ufffd' else c))
  let s := (lines.foldl (fun s line => addLine s (.ofLine line)) State.empty).closeTo 0
  (s.done.reverse, s.definitions)

end Compendium.Markdown.Outline
