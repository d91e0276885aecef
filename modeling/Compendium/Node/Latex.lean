import Compendium.Config
import Compendium.Error
import Compendium.Markdown.Conversion
import Compendium.Node.Registry

/-!
# Nodes in LaTeX

A node becomes the environment of its statement, followed by that of its proof. Of the names that a
part uses, only those that mean a node are written.
-/

namespace Compendium

structure LatexRenderer where
  registry : Registry
  config : Config

namespace LatexRenderer

/-- A command without arguments that text can follow. -/
def flag (name : String) : List Char := Markdown.Latex.command name [[]]

/-- The names that a part uses and that mean a node. -/
def usesCommand (r : LatexRenderer) (uses : List Name) : List Char :=
  let known := r.registry.filterKnown uses
  if known.isEmpty then []
  else Markdown.Latex.command "uses" [Text.join [','] (known.map fun name => name.text.toList)]

def partHead (r : LatexRenderer) (p : Part) (title : Option String) : List Char :=
  (match title with
    | some title => '[' :: title.toList ++ [']']
    | none => []) ++
  (if p.leanOk then flag "leanok" else []) ++ r.usesCommand p.uses

/-- The environment of a part, with `foot` behind its text. -/
def part (r : LatexRenderer) (p : Part) (title : Option String) (foot : List Char) :
    Except Markdown.Latex.Unsupported (List Char) := do
  let text ← Markdown.latex r.config.bibliography p.text
  let environment := p.environment.toList
  return Markdown.Latex.command "begin" [environment] ++ r.partHead p title ++ text ++ foot ++
    '\n' :: Markdown.Latex.command "end" [environment]

def sourceComment (r : LatexRenderer) (location : Option Location) : List Char :=
  let (file, range) := match location with
    | some l =>
      (Text.join ['/'] l.module.segments ++ '.' :: r.config.sourceExtension.toList,
        (l.range.map Range.text).getD [])
    | none => ([], [])
  '\n' :: '%' :: ' ' :: file ++ ':' :: range

/-- What stands behind the text of a statement: the names under which its node is known, and where
it comes from. -/
def statementFoot (r : LatexRenderer) (n : Node) : List Char :=
  let name := n.name.text.toList
  Markdown.Latex.command "lean" [name] ++ Markdown.Latex.command "label" [name] ++
  (if n.notReady then flag "notready" else []) ++
  (match n.discussion with
    | some number => Markdown.Latex.command "discussion" [Nat.toDigits 10 number.1]
    | none => []) ++
  r.sourceComment n.location

def parts (r : LatexRenderer) (n : Node) : Except Markdown.Latex.Unsupported (List Char) := do
  let statement ← r.part n.statement n.title (r.statementFoot n)
  match n.proof with
  | some proof => return statement ++ '\n' :: (← r.part proof none [])
  | none => return statement

def node (r : LatexRenderer) (n : Node) : Except Error (List Char) :=
  match r.parts n with
  | .ok latex => .ok latex
  | .error construct => .error (.inNode n.name (.unsupported construct))

end LatexRenderer

end Compendium
