import Compendium.Text.Basic

/-!
# HTML inside Markdown

Raw HTML is recognised by its outer form only and copied as written. Recognisers take the text at
the place in question and return what follows the recognised form.
-/

namespace Compendium.Markdown.Html

def after? (c : Char) : List Char → Option (List Char)
  | d :: cs => if d = c then some cs else none
  | [] => none

/-! ### Tags -/

def isTagNameChar (c : Char) : Bool :=
  c.isAlphanum || c = '-'

def isAttributeStart (c : Char) : Bool :=
  c.isAlpha || c = '_' || c = ':'

def isAttributeChar (c : Char) : Bool :=
  c.isAlphanum || c = ':' || c = '.' || c = '_' || c = '-'

def isBareValueChar (c : Char) : Bool :=
  !(Text.isAsciiBlank c || c = '"' || c = '\x27' || c = '=' || c = '<' || c = '>' || c = '\x60')

/-- A tag name: a letter, then letters, digits and hyphens. -/
def tagName? : List Char → Option (List Char)
  | c :: cs => if c.isAlpha then some (cs.dropWhile isTagNameChar) else none
  | [] => none

/-- A value in quotes of either kind, or a run of plain characters. -/
def attributeValue? : List Char → Option (List Char)
  | [] => none
  | c :: cs =>
    if c = '"' || c = '\x27' then
      match cs.dropWhile (· ≠ c) with
      | _ :: rest => some rest
      | [] => none
    else if isBareValueChar c then some (cs.dropWhile isBareValueChar)
    else none

def attribute? (cs : List Char) : Option (List Char) :=
  let named := cs.dropWhile Text.isAsciiBlank
  if named.length = cs.length then none
  else match named with
    | [] => none
    | c :: named =>
      if isAttributeStart c then
        let rest := named.dropWhile isAttributeChar
        match after? '=' (rest.dropWhile Text.isAsciiBlank) with
        | some value => attributeValue? (value.dropWhile Text.isAsciiBlank)
        | none => some rest
      else none

/-- What follows all attributes at the start of a text of which at most `n` are read. -/
def skipAttributes : Nat → List Char → List Char
  | 0, cs => cs
  | n + 1, cs =>
    match attribute? cs with
    | some rest => skipAttributes n rest
    | none => cs

/-- An opening tag, from behind its angle bracket. -/
def openTag? (cs : List Char) : Option (List Char) := do
  let rest := (skipAttributes cs.length (← tagName? cs)).dropWhile Text.isAsciiBlank
  after? '>' ((after? '/' rest).getD rest)

def closeTag? (cs : List Char) : Option (List Char) := do
  let rest ← tagName? (← after? '/' cs)
  after? '>' (rest.dropWhile Text.isAsciiBlank)

/-! ### Comments and the like -/

/-- The end of a comment, from behind `<!--`. Hyphens are taken in threes where that is possible,
and two of them end the comment if `>` follows. -/
def commentEnd? : List Char → Option (List Char)
  | '-' :: '-' :: '>' :: cs => some cs
  | '-' :: '-' :: _ :: cs => commentEnd? cs
  | ['-', '-'] => none
  | '-' :: _ :: cs => commentEnd? cs
  | _ :: cs => commentEnd? cs
  | [] => none

def cdataEnd? : List Char → Option (List Char)
  | ']' :: ']' :: '>' :: cs => some cs
  | ']' :: ']' :: _ :: cs => cdataEnd? cs
  | [']', ']'] => none
  | ']' :: _ :: cs => cdataEnd? cs
  | _ :: cs => cdataEnd? cs
  | [] => none

def instructionEnd? : List Char → Option (List Char)
  | '?' :: '>' :: cs => some cs
  | '?' :: _ :: cs => instructionEnd? cs
  | _ :: cs => instructionEnd? cs
  | [] => none

/-- A declaration, from behind `<!`: a letter, and all up to the closing angle bracket. -/
def declaration? : List Char → Option (List Char)
  | c :: cs => if c.isAlpha then after? '>' (cs.dropWhile (· ≠ '>')) else none
  | [] => none

inductive Inlined where
  | html (rest : List Char)
  | absent
  /-- A comment that does not end. -/
  | openComment
deriving Repr

/-- Raw HTML in running text, from behind its angle bracket. Unless `declarations` are looked for,
nothing that begins with an exclamation mark is recognised. -/
def inlined (declarations : Bool) : List Char → Inlined
  | '!' :: cs =>
    if !declarations then .absent
    else match cs with
      | '-' :: '-' :: '>' :: rest => .html rest
      | '-' :: '-' :: '-' :: '>' :: rest => .html rest
      | '-' :: '-' :: body => (commentEnd? body).elim .openComment .html
      | '[' :: body =>
        match Text.dropStart? "CDATA[".toList body with
        | some section_ => (cdataEnd? section_).elim .absent .html
        | none => .absent
      | body => (declaration? body).elim .absent .html
  | '?' :: cs => (instructionEnd? cs).elim .absent .html
  | cs => ((openTag? cs).or (closeTag? cs)).elim .absent .html

/-! ### Blocks -/

inductive BlockKind where
  /-- A script, style sheet or preformatted text, up to a closing tag. -/
  | verbatim
  | comment
  | instruction
  | declaration
  | cdata
  /-- A tag of a block element, up to a blank line. -/
  | element
  /-- Any other tag alone on its line, up to a blank line. -/
  | tag
deriving DecidableEq, Repr

def verbatimNames : List String := ["script", "pre", "textarea", "style"]

def elementNames : List String :=
  ["address", "article", "aside", "base", "basefont", "blockquote", "body", "caption", "center",
    "col", "colgroup", "dd", "details", "dialog", "dir", "div", "dl", "dt", "fieldset", "figcaption",
    "figure", "footer", "form", "frame", "frameset", "h1", "h2", "h3", "h4", "h5", "h6", "head",
    "header", "hr", "html", "iframe", "legend", "li", "link", "main", "menu", "menuitem", "nav",
    "noframes", "ol", "optgroup", "option", "p", "param", "search", "section", "summary", "table",
    "tbody", "td", "tfoot", "th", "thead", "title", "tr", "track", "ul"]

def elementName (cs : List Char) : String × List Char :=
  (String.ofList ((cs.takeWhile Char.isAlphanum).map Char.toLower), cs.dropWhile Char.isAlphanum)

/-- Whether a tag name ends where `cs` begins: at a blank, at the end of the line or at the end of
the tag. -/
def nameEnds (cs : List Char) : Bool :=
  match cs with
  | [] => true
  | c :: _ => Text.isAsciiBlank c || c = '>'

def startsVerbatim (cs : List Char) : Bool :=
  let (name, rest) := elementName cs
  verbatimNames.contains name && nameEnds rest

def startsElement (cs : List Char) : Bool :=
  let (name, rest) := elementName ((after? '/' cs).getD cs)
  elementNames.contains name && (nameEnds rest || "/>".toList.isPrefixOf rest)

def startsTag (cs : List Char) : Bool :=
  match (openTag? cs).or (closeTag? cs) with
  | some rest => rest.all fun c => c = ' ' || c = '\t' || c = '\x0c'
  | none => false

def blockStart? : List Char → Option BlockKind
  | '<' :: cs =>
    if startsVerbatim cs then some .verbatim
    else if "!--".toList.isPrefixOf cs then some .comment
    else if "?".toList.isPrefixOf cs then some .instruction
    else if ((after? '!' cs).bind List.head?).any Char.isAlpha then some .declaration
    else if "![cdata[".toList.isPrefixOf ((cs.take 8).map Char.toLower) then some .cdata
    else if startsElement cs then some .element
    else if startsTag cs then some .tag
    else none
  | _ => none

def BlockKind.interrupts : BlockKind → Bool
  | .tag => false
  | _ => true

def BlockKind.endsAtBlank : BlockKind → Bool
  | .element | .tag => true
  | _ => false

def BlockKind.endsWith (line : List Char) : BlockKind → Bool
  | .verbatim => verbatimNames.any fun name =>
      Text.contains ("</".toList ++ name.toList ++ ['>']) (line.map Char.toLower)
  | .comment => Text.contains "-->".toList line
  | .instruction => Text.contains "?>".toList line
  | .declaration => line.contains '>'
  | .cdata => Text.contains "]]>".toList line
  | .element | .tag => false

end Compendium.Markdown.Html
