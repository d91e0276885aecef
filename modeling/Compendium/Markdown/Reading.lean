import Compendium.Markdown.Emphasis
import Compendium.Markdown.Html
import Compendium.Markdown.Link

/-!
# Reading running text

Running text is read from left to right. Code, mathematics, raw HTML and escapes are taken as they
come; brackets are kept open until a closing one decides whether they belong to a link; marks of
emphasis are settled last, inside each link and then in the whole text.
-/

namespace Compendium.Markdown

structure Bracket where
  image : Bool
  start : List Char
  followed : Bool
  pieces : List Piece

structure Reader where
  definitions : Definitions
  /-- The characters that are read, the latest first. -/
  before : List Char
  rest : List Char
  /-- What was read outside all open brackets, the latest first. -/
  pieces : List Piece
  brackets : List Bracket
  /-- Whether the last bracket was an opening one. -/
  inBrackets : Bool
  /-- Whether the open brackets may not become links, because they hold one. -/
  noLinks : Bool
  /-- Whether declarations and comments are still looked for. -/
  declarations : Bool
  /-- How many bytes link definitions may still add to the text. -/
  allowance : Nat

namespace Reader

/-! ### Moving on -/

def push (p : Piece) (s : Reader) : Reader :=
  match s.brackets with
  | b :: outer => { s with brackets := { b with pieces := p :: b.pieces } :: outer }
  | [] => { s with pieces := p :: s.pieces }

def pushText (cs : List Char) (s : Reader) : Reader :=
  s.push (.inline (.text cs))

def moveTo (rest : List Char) (s : Reader) : Reader :=
  { s with before := (upTo s.rest rest).reverse ++ s.before, rest }

def lastPiece? (s : Reader) : Option Piece :=
  match s.brackets with
  | b :: _ => b.pieces.head?
  | [] => s.pieces.head?

/-! ### Plain text, line ends and escapes -/

def isSpecial (c : Char) : Bool :=
  "\n_*\x60\\&<[]!~$".toList.contains c

/-- Plain text up to the next character that may be more. Blanks at the end of a line are dropped,
and those behind a line break that was asked for. -/
def readText (s : Reader) : Reader :=
  let rest := match s.rest with
    | [] => []
    | _ :: cs => cs.dropWhile (!isSpecial ·)
  let text := upTo s.rest rest
  let text := if rest.head? = some '\n' then Text.dropEndWhile Text.isLineBlank text else text
  let text := match s.lastPiece? with
    | some (.inline .hardBreak) => text.dropWhile Text.isLineBlank
    | _ => text
  (s.moveTo rest).pushText text

/-- The end of a line, from behind it. Two spaces before it ask for a line break. -/
def readLineEnd (rest : List Char) (s : Reader) : Reader :=
  let break_ := match s.before with
    | ' ' :: ' ' :: _ => Inline.hardBreak
    | _ => .softBreak
  (s.moveTo (rest.dropWhile Text.isIndent)).push (.inline break_)

/-- A backslash, from behind it: it escapes a punctuation mark or asks for a line break. -/
def readBackslash (rest : List Char) (s : Reader) : Reader :=
  match rest with
  | c :: after =>
    if Text.isAsciiPunct c then (s.moveTo after).pushText [c]
    else if c = '\n' then (s.moveTo after).push (.inline .hardBreak)
    else (s.moveTo rest).pushText ['\\']
  | [] => (s.moveTo rest).pushText ['\\']

def readAmpersand (rest : List Char) (s : Reader) : Reader :=
  match CharRef.long? rest with
  | some (c, after) => (s.moveTo after).pushText [c]
  | none => (s.moveTo rest).pushText ['&']

/-! ### Code and mathematics -/

/-- The text between two fences: line ends count as spaces, and one space at either end is dropped
if the text is not all spaces. -/
def spanText (cs : List Char) : List Char :=
  let cs := cs.map fun c => if c = '\n' then ' ' else c
  if cs.any (· ≠ ' ') && cs.head? = some ' ' && cs.getLast? = some ' ' then (cs.drop 1).dropLast else cs

def codeEnd? (n : Nat) : List Char → Option (List Char)
  | [] => none
  | c :: cs =>
    if c = '\x60' then
      let rest := cs.dropWhile (· = '\x60')
      if cs.length - rest.length + 1 = n then some rest else codeEnd? n rest
    else codeEnd? n cs
termination_by cs => cs.length
decreasing_by
  all_goals
    have := List.dropWhile_sublist (· = '\x60') (l := cs) |>.length_le
    simp
    try omega

/-- Longer runs of backticks do not fence code. -/
def maxBackticks : Nat := 80

def readBackticks (s : Reader) : Reader :=
  let inside := s.rest.dropWhile (· = '\x60')
  let fence := upTo s.rest inside
  match if fence.length ≤ maxBackticks then codeEnd? fence.length inside else none with
  | some rest =>
    let body := (upTo inside rest)
    (s.moveTo rest).push (.inline (.code (spanText (body.take (body.length - fence.length)))))
  | none => (s.moveTo inside).pushText fence

/-- What follows the dollar signs that close mathematics between `n` of them; `last` is the
character before the text. Single ones close neither behind a blank nor behind a backslash nor
before a digit. -/
def mathEnd? (n : Nat) (last : Char) : List Char → Option (List Char)
  | [] => none
  | c :: cs =>
    if c ≠ '$' then mathEnd? n c cs
    else if n = 1 && Text.isLineBlank last then none
    else if n = 1 && last = '\\' then mathEnd? n c cs
    else if n = 1 then
      if cs.head?.any Char.isDigit then none else some cs
    else match cs with
      | d :: cs => if d = '$' then some cs else mathEnd? n d cs
      | [] => none

/-- A character behind which a single dollar sign begins no mathematics. -/
def isClosedToMath (c : Char) : Bool :=
  Text.isLineBlank c || c = '\x60'

def readDollars (s : Reader) : Reader :=
  let inside := s.rest.dropWhile (· = '$')
  let fence := upTo s.rest inside
  let n := fence.length
  let found :=
    if 2 < n || (n = 1 && inside.head?.any isClosedToMath) then none else mathEnd? n '$' inside
  match found with
  | some rest =>
    let body := upTo inside rest
    let body := body.take (body.length - n)
    if body.isEmpty then (s.moveTo inside).pushText fence
    else (s.moveTo rest).push (.inline (.math (n = 2) (if n = 1 then spanText body else body)))
  | none => (s.moveTo inside).pushText fence

/-! ### Emphasis -/

def readMarks (mark : Char) (s : Reader) : Reader :=
  let rest := s.rest.dropWhile (· = mark)
  let count := s.rest.length - rest.length
  let before := ((s.before.dropWhile (· = '~')).head?).getD '\n'
  let after := ((rest.dropWhile (· = '~')).head?).getD '\n'
  let run := Run.between mark count before after
  (s.moveTo rest).push (if run.opens || run.closes then .run run else .inline run.text)

/-! ### Angle brackets -/

def isSchemeChar (c : Char) : Bool :=
  c.isAlphanum || c = '.' || c = '+' || c = '-'

/-- What follows an address in angle brackets, from behind the first of them: a scheme of two to
thirty-two characters, a colon, and no blanks. -/
def uriEnd? : List Char → Option (List Char)
  | c :: cs =>
    let n := (cs.takeWhile isSchemeChar).length
    match cs.dropWhile isSchemeChar with
    | ':' :: rest =>
      if c.isAlpha && 1 ≤ n && n ≤ 31 then
        Html.after? '>' (rest.dropWhile fun c => !(c ≤ ' ' || c = '<' || c = '>'))
      else none
    | _ => none
  | [] => none

def isLocalChar (c : Char) : Bool :=
  c.isAlphanum || ".!#$%&\x27*+/=?^_\x60\x7b|\x7d~-".toList.contains c

/-- A part of a domain: at most 63 letters, digits and hyphens, without a hyphen at either end. -/
def isDomainLabel (cs : List Char) : Bool :=
  cs.length ≤ 63 && cs.all (fun c => c.isAlphanum || c = '-') &&
    cs.head?.any (· ≠ '-') && cs.getLast?.any (· ≠ '-')

def mailEnd? (cs : List Char) : Option (List Char) :=
  match cs.takeWhile isLocalChar, cs.dropWhile isLocalChar with
  | _ :: _, '@' :: domain =>
    if (Text.split '.' (domain.takeWhile (· ≠ '>'))).all isDomainLabel then
      Html.after? '>' (domain.dropWhile (· ≠ '>'))
    else none
  | _, _ => none

def readAngle (rest : List Char) (s : Reader) : Reader :=
  let address (scheme : List Char) (after : List Char) : Reader :=
    let text := CharRef.expandLong (upTo rest after).dropLast
    let url := scheme ++ CharRef.expandLong (Text.trim Text.isLineBlank (upTo rest after).dropLast)
    (s.moveTo after).push (.inline (.link url [.text text]))
  match uriEnd? rest with
  | some after => address [] after
  | none => match mailEnd? rest with
    | some after => address "mailto:".toList after
    | none => match Html.inlined s.declarations rest with
      | .html after => (s.moveTo after).push (.inline (.html (upTo s.rest after)))
      | .absent => (s.moveTo rest).pushText ['<']
      | .openComment => { (s.moveTo rest).pushText ['<'] with declarations := false }

/-! ### Brackets -/

def wikiLink? : List Char → Option (List Char × List Char × List Char)
  | '[' :: cs =>
    match Link.component? ['|'] Link.maxLabel cs with
    | some (url, ']' :: ']' :: rest) => some (Text.trim Text.isLineBlank url, Text.trim Text.isLineBlank url, rest)
    | some (url, '|' :: cs) =>
      match Link.component? ['|'] Link.maxLabel cs with
      | some (label, ']' :: ']' :: rest) =>
        some (Text.trim Text.isLineBlank url, Text.trim Text.isLineBlank label, rest)
      | _ => none
    | _ => none
  | _ => none

def openBracket (image : Bool) (rest : List Char) (s : Reader) : Reader :=
  let s := s.moveTo rest
  let outer := match s.brackets with
    | b :: outer => { b with followed := true } :: outer
    | [] => []
  { s with
    brackets := ⟨image, rest, false, []⟩ :: outer
    inBrackets := true
    noLinks := s.noLinks && image }

def readOpening (rest : List Char) (s : Reader) : Reader :=
  match if s.inBrackets then none else wikiLink? rest with
  | some (url, label, after) =>
    (s.moveTo after).push (.inline (.wikiLink (Link.clean url) (Link.clean label)))
  | none => s.openBracket false rest

/-- An exclamation mark, from behind it: it begins an image if a bracket follows, but not before
`[^`. -/
def readExclamation (rest : List Char) (s : Reader) : Reader :=
  match rest with
  | '[' :: '^' :: _ => (s.moveTo rest).pushText ['!']
  | '[' :: after => s.openBracket true after
  | _ => (s.moveTo rest).pushText ['!']

/-- The address in parentheses at the start of a text and what follows it; a title may follow the
address. -/
def inlineTarget? : List Char → Option (List Char × List Char)
  | '(' :: cs => do
    let (url, rest) ← Link.destination? (cs.dropWhile Text.isAsciiBlank)
    let gap := rest.dropWhile Text.isAsciiBlank
    let afterTitle := if gap.length = rest.length then gap
      else match Link.title? gap with
        | some (_, rest) => rest
        | none => gap
    let rest ← Html.after? ')' (afterTitle.dropWhile Text.isAsciiBlank)
    return (Link.cleanUrl url, rest)
  | _ => none

/-- The definition that a closing bracket refers to, from behind it, and what follows the reference:
the label in brackets that comes next, or the text in the brackets themselves. -/
def reference? (b : Bracket) (rest : List Char) (s : Reader) : Option (Definition × List Char) :=
  let own := (upTo b.start s.rest, rest)
  let (label, after) := match Link.label? rest with
    | some (label, after) =>
      if label.isEmpty && !b.followed then (own.1, after) else (label, after)
    | none => if b.followed then ([], rest) else own
  match s.definitions.find? (Link.normalLabel label) with
  | some d =>
    if Text.byteLength d.url + Text.byteLength d.title ≤ s.allowance then some (d, after) else none
  | none => none

/-- Closes the innermost bracket without a link: it becomes text, and so does the closing one. -/
def dropBracket (rest : List Char) (s : Reader) : Reader :=
  match s.brackets with
  | [] => (s.moveTo rest).pushText [']']
  | b :: outer =>
    let s := ({ s with brackets := outer }.pushText (if b.image then ['!', '['] else ['['])).moveTo rest
    let s := match s.brackets with
      | c :: outer => { s with brackets := { c with pieces := b.pieces ++ c.pieces } :: outer }
      | [] => { s with pieces := b.pieces ++ s.pieces }
    s.pushText [']']

def closeLink (b : Bracket) (url rest : List Char) (s : Reader) : Reader :=
  let content := Piece.resolve b.pieces.reverse
  let s := { s with brackets := s.brackets.tail, noLinks := s.noLinks || !b.image }.moveTo rest
  s.push (.inline (if b.image then .image url content else .link url content))

def readClosing (rest : List Char) (s : Reader) : Reader :=
  let s := { s with inBrackets := false }
  match s.brackets with
  | [] => s.dropBracket rest
  | b :: _ =>
    if !b.image && s.noLinks then s.dropBracket rest
    else match inlineTarget? rest with
      | some (url, after) => s.closeLink b url after
      | none => match s.reference? b rest with
        | some (d, after) =>
          let cost := Text.byteLength d.url + Text.byteLength d.title
          { s with allowance := s.allowance - cost }.closeLink b d.url after
        | none => s.dropBracket rest

/-! ### The whole text -/

def step (s : Reader) : Reader :=
  match s.rest with
  | [] => s
  | c :: rest =>
    if c = '\n' then s.readLineEnd rest
    else if c = '\\' then s.readBackslash rest
    else if c = '&' then s.readAmpersand rest
    else if c = '\x60' then s.readBackticks
    else if c = '$' then s.readDollars
    else if c = '*' || c = '_' || c = '~' then s.readMarks c
    else if c = '<' then s.readAngle rest
    else if c = '[' then s.readOpening rest
    else if c = ']' then s.readClosing rest
    else if c = '!' then s.readExclamation rest
    else s.readText

def run : Nat → Reader → Reader
  | 0, s => s
  | n + 1, s => if s.rest.isEmpty then s else run n s.step

/-- All that was read; brackets that are still open are text. -/
def allPieces (s : Reader) : List Piece :=
  (s.brackets.foldr
    (fun b pieces => b.pieces ++ .inline (.text (if b.image then ['!', '['] else ['['])) :: pieces)
    s.pieces).reverse

/-- Reads a running text. The second component is what is left of the allowance. -/
def read (definitions : Definitions) (allowance : Nat) (cs : List Char) : List Inline × Nat :=
  let cs := Text.dropEndWhile Text.isLineBlank cs
  let s := run cs.length ⟨definitions, [], cs, [], [], false, true, true, allowance⟩
  (Piece.resolve s.allPieces, s.allowance)

end Reader

/-! ### Documents -/

namespace Document

mutual

def readBlock (defs : Definitions) (allowance : Nat) : Block (List Char) → Block (List Inline) × Nat
  | .paragraph cs =>
    let (content, allowance) := Reader.read defs allowance cs
    (.paragraph content, allowance)
  | .heading level cs =>
    let (content, allowance) := Reader.read defs allowance cs
    (.heading level content, allowance)
  | .list ordered items =>
    let (items, allowance) := readItems defs allowance items
    (.list ordered items, allowance)
  | .quote blocks =>
    let (blocks, allowance) := readBlocks defs allowance blocks
    (.quote blocks, allowance)
  | .code cs => (.code cs, allowance)
  | .html cs => (.html cs, allowance)
  | .rule => (.rule, allowance)
  | .table => (.table, allowance)

def readBlocks (defs : Definitions) (allowance : Nat) : Outline → Document × Nat
  | [] => ([], allowance)
  | b :: bs =>
    let (b, allowance) := readBlock defs allowance b
    let (bs, allowance) := readBlocks defs allowance bs
    (b :: bs, allowance)

def readItems (defs : Definitions) (allowance : Nat) : List Outline → List Document × Nat
  | [] => ([], allowance)
  | item :: items =>
    let (item, allowance) := readBlocks defs allowance item
    let (items, allowance) := readItems defs allowance items
    (item :: items, allowance)

end

end Document

end Compendium.Markdown
