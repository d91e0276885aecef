import Compendium.Markdown.CharRef
import Compendium.Text.Folding

/-!
# The parts of a link

Destinations, titles and labels of links, and the definitions that labels refer to. Recognisers take
the text at the place in question and return what follows the recognised part.
-/

namespace Compendium.Markdown

def unescape : List Char → List Char
  | '\\' :: c :: cs => if Text.isAsciiPunct c then c :: unescape cs else '\\' :: unescape (c :: cs)
  | c :: cs => c :: unescape cs
  | [] => []

/-- What `rest`, a later part of `cs`, leaves of it. -/
def upTo (cs rest : List Char) : List Char :=
  cs.take (cs.length - rest.length)

namespace Link

def clean (cs : List Char) : List Char :=
  unescape (CharRef.expandLong cs)

/-! ### Destinations -/

/-- The rest of a destination in angle brackets, from behind the first of them. A backslash covers
the character after it, whatever that is. -/
def bracketedEnd? : List Char → Option (List Char)
  | '>' :: cs => some cs
  | '\\' :: _ :: cs => bracketedEnd? cs
  | '\n' :: _ => none
  | '<' :: _ => none
  | _ :: cs => bracketedEnd? cs
  | [] => none

/-- Destinations do not nest parentheses deeper than this. -/
def maxParens : Nat := 32

/-- What follows a plain destination inside `depth` open parentheses. It ends before a blank, a
control or a parenthesis that it does not open, and not at the end of the text. -/
def plainEnd? : Nat → List Char → Option (List Char)
  | depth, '\\' :: c :: cs =>
    if Text.isAsciiPunct c then plainEnd? depth cs else plainEnd? depth (c :: cs)
  | depth, '(' :: cs => if depth < maxParens then plainEnd? (depth + 1) cs else none
  | 0, ')' :: cs => some (')' :: cs)
  | depth + 1, ')' :: cs => plainEnd? depth cs
  | depth, c :: cs =>
    if Text.isAsciiBlank c || Text.isAsciiControl c then
      if depth = 0 then some (c :: cs) else none
    else plainEnd? depth cs
  | _, [] => none
termination_by _ cs => cs.length

/-- A destination as it is written and what follows it, which is never nothing. -/
def destination? : List Char → Option (List Char × List Char)
  | '<' :: cs =>
    match bracketedEnd? cs with
    | some [] => none
    | some rest => some ((upTo cs rest).dropLast, rest)
    | none => none
  | cs => (plainEnd? 0 cs).map fun rest => (upTo cs rest, rest)

def cleanUrl (cs : List Char) : List Char :=
  clean (Text.trim Text.isLineBlank cs)

/-! ### Titles -/

/-- What follows a title that is closed by `close`, from behind its opening mark; `escaped` tells
whether a backslash comes just before. A closing mark behind a backslash ends the title only if no
later mark does; inside parentheses, another opening one ends the search. -/
def titleEnd? (close : Char) : Bool → List Char → Option (List Char)
  | _, [] => none
  | escaped, c :: cs =>
    if c = close then
      if escaped then (titleEnd? close false cs).or (some cs) else some cs
    else if close = ')' && c = '(' && !escaped then none
    else titleEnd? close (c = '\\') cs

def title? (cs : List Char) : Option (List Char × List Char) :=
  let found := match cs with
    | '"' :: rest => titleEnd? '"' false rest
    | '\x27' :: rest => titleEnd? '\x27' false rest
    | '(' :: rest => titleEnd? ')' false rest
    | _ => none
  found.map fun rest => (upTo cs rest, rest)

def cleanTitle (cs : List Char) : List Char :=
  clean (cs.drop 1).dropLast

/-! ### Labels -/

def maxLabel : Nat := 1000

/-- Characters up to a bracket or one of the `stops`, of which backslashes escape the next
punctuation mark, and what follows them. There is no such text if it has more than `budget` bytes.
-/
def component? (stops : List Char) : Nat → List Char → Option (List Char × List Char)
  | _, [] => some ([], [])
  | budget, '\\' :: c :: cs =>
    if Text.isAsciiPunct c then
      if budget < 2 then none
      else (component? stops (budget - 2) cs).map fun p => ('\\' :: c :: p.1, p.2)
    else if budget < 1 then none
    else (component? stops (budget - 1) (c :: cs)).map fun p => ('\\' :: p.1, p.2)
  | budget, c :: cs =>
    if c = '[' || c = ']' || stops.contains c then some ([], c :: cs)
    else if budget < c.utf8Size then none
    else (component? stops (budget - c.utf8Size) cs).map fun p => (c :: p.1, p.2)
termination_by _ cs => cs.length

def label? : List Char → Option (List Char × List Char)
  | '[' :: cs =>
    match component? [] maxLabel cs with
    | some (label, ']' :: rest) => some (Text.trim Text.isLineBlank label, rest)
    | _ => none
  | _ => none

def collapseBlanks : List Char → List Char
  | [] => []
  | [c] => [if Text.isBlank c then ' ' else c]
  | c :: d :: cs =>
    if Text.isBlank c then
      if Text.isBlank d then collapseBlanks (d :: cs) else ' ' :: collapseBlanks (d :: cs)
    else c :: collapseBlanks (d :: cs)

def normalLabel (label : List Char) : List Char :=
  Text.foldCase (collapseBlanks (Text.trim Text.isLineBlank label))

end Link

/-! ### Definitions -/

structure Definition where
  label : List Char
  url : List Char
  title : List Char
deriving Repr

/-- The definitions of a document, the earliest last. -/
abbrev Definitions := List Definition

namespace Definitions

/-- The definition of a label in normal form; of several, the first. -/
def find? (defs : Definitions) (label : List Char) : Option Definition :=
  defs.reverse.find? (·.label = label)

/-- Spaces and tabs with at most one line end among them. -/
def skipGap (cs : List Char) : List Char :=
  match cs.dropWhile Text.isIndent with
  | '\n' :: rest => rest.dropWhile Text.isIndent
  | rest => rest

/-- What follows the spaces, tabs and line end at the start of a text. The end of the text is the
end of a line. -/
def lineEnd? (cs : List Char) : Option (List Char) :=
  match cs.dropWhile Text.isIndent with
  | '\n' :: rest => some rest
  | [] => some []
  | _ => none

def titleLine? (cs : List Char) : Option (List Char × List Char) :=
  let gap := skipGap cs
  let titled := if gap.length = cs.length then none else Link.title? gap
  match titled with
  | some (title, rest) =>
    match lineEnd? rest with
    | some rest => some (title, rest)
    | none => (lineEnd? cs).map fun rest => ([], rest)
  | none => (lineEnd? cs).map fun rest => ([], rest)

def definition? (cs : List Char) : Option (Definition × List Char) := do
  let (label, rest) ← Link.label? cs
  if label.isEmpty then none
  match rest with
  | ':' :: rest =>
    let (url, rest) ← Link.destination? (skipGap rest)
    let (title, rest) ← titleLine? rest
    return (⟨Link.normalLabel label, Link.cleanUrl url, Link.cleanTitle title⟩, rest)
  | _ => none

/-- Takes the definitions off the start of a paragraph, at most `n` of them. -/
def takeFrom : Nat → Definitions → List Char → Definitions × List Char
  | 0, defs, cs => (defs, cs)
  | n + 1, defs, cs =>
    match definition? cs with
    | some (d, rest) => takeFrom n (if d.label.isEmpty then defs else d :: defs) rest
    | none => (defs, cs)

def read (defs : Definitions) (cs : List Char) : Definitions × List Char :=
  takeFrom cs.length defs cs

end Definitions

end Compendium.Markdown
