import Compendium.Markdown.Document
import Compendium.Text.Basic

/-!
# Markdown documents in LaTeX

Each kind of block and of running text has a fixed LaTeX form around what it holds. Literal text is
copied as it is. Tables have no such form, and a document with a table has none either.
-/

namespace Compendium.Markdown.Latex

inductive Unsupported where
  | table
deriving DecidableEq, Repr

def Unsupported.feature : Unsupported → String
  | .table => "table"

def command (name : String) (args : List (List Char)) : List Char :=
  '\\' :: name.toList ++ args.flatMap fun arg => '\x7b' :: arg ++ ['\x7d']

/-- An environment on lines of its own. -/
def environment (name : String) (body : List Char) : List Char :=
  command "begin" [name.toList] ++ '\n' :: body ++ '\n' :: command "end" [name.toList]

/-- Blocks are separated by an empty line. -/
def blockGap : List Char := ['\n', '\n']

def styleCommand : Style → String
  | .emphasis => "emph"
  | .strong => "textbf"
  | .underline => "uline"
  | .strike => "sout"

def headingCommand (level : Nat) : String :=
  if level ≤ 1 then "section"
  else if level = 2 then "subsection"
  else if level = 3 then "subsubsection"
  else if level = 4 then "paragraph"
  else "subparagraph"

/-- The signs around mathematics. -/
def mathFence (display : Bool) : List Char :=
  if display then ['$', '$'] else ['$']

/-- Literal text without the line ends after its last line. -/
def dropLineEnds (literal : List Char) : List Char :=
  Text.dropEndWhile (· = '\n') literal

/-- The lines of code, with an empty line between any two. -/
def codeText (literal : List Char) : List Char :=
  Text.join blockGap (Text.lines (dropLineEnds literal))

mutual

/-- The LaTeX form of a stretch of running text. Of an image, only the address is kept. -/
def ofInline : Inline → List Char
  | .text literal => literal
  | .softBreak => ['\n']
  | .hardBreak => ['\n']
  | .html literal => literal
  | .code literal => command "texttt" [literal]
  | .math display literal => mathFence display ++ literal ++ mathFence display
  | .styled style content => command (styleCommand style) [ofInlines content]
  | .link url content => command "href" [url, ofInlines content]
  | .wikiLink url label => command "href" [url, label]
  | .image url _ => command "includegraphics" [url]

def ofInlines : List Inline → List Char
  | [] => []
  | i :: is => ofInline i ++ ofInlines is

end

def listEnvironment (ordered : Bool) : String :=
  if ordered then "enumerate" else "itemize"

mutual

def ofBlock : Block (List Inline) → Except Unsupported (List Char)
  | .paragraph content => .ok (ofInlines content)
  | .heading level content => .ok (command (headingCommand level) [ofInlines content])
  | .list ordered items => do
    return environment (listEnvironment ordered) (Text.join ['\n'] (← ofItems items))
  | .quote blocks => do return environment "quote" (Text.join blockGap (← ofBlocks blocks))
  | .code literal => .ok (environment "verbatim" (codeText literal))
  | .html literal => .ok (dropLineEnds literal)
  | .rule => .ok (command "hrule" [])
  | .table => .error .table

def ofBlocks : Document → Except Unsupported (List (List Char))
  | [] => .ok []
  | b :: bs => do return (← ofBlock b) :: (← ofBlocks bs)

def ofItems : List Document → Except Unsupported (List (List Char))
  | [] => .ok []
  | item :: items => do
    let body := Text.join blockGap (← ofBlocks item)
    return (command "item" [] ++ ' ' :: body) :: (← ofItems items)

end

end Compendium.Markdown.Latex
