import Compendium.Files.System
import Compendium.Json.Error
import Compendium.Markdown.Latex
import Compendium.Name

/-!
# Errors

What can go wrong on the way from a manifest to documents. An error that comes up in a node or in a
module says so and holds its cause. Some errors come with a hint at what to do about them.
-/

namespace Compendium

inductive Error where
  | unsupported (construct : Markdown.Latex.Unsupported)
  | inNode (node : Name) (cause : Error)
  | inModule (module : Name) (cause : Error)
  | moduleNotFound (module : Name)
  | moduleFrozen (module : Name)
  | nodeNotFound (node : Name)
  | repeatedModule (module : Name)
  | json (e : Json.Error)
  | file (e : FileError)
deriving DecidableEq, Repr

namespace Error

def message : Error → String
  | unsupported construct => "feature not supported: " ++ construct.feature
  | inNode node cause => "failed to render node " ++ node.text ++ ": " ++ cause.message
  | inModule module cause => "failed to render module " ++ module.text ++ ": " ++ cause.message
  | moduleNotFound module => "module not found: " ++ module.text
  | moduleFrozen module => "module " ++ module.text ++ " is frozen"
  | nodeNotFound node => "node not found: " ++ node.text
  | repeatedModule module => "invalid manifest: module " ++ module.text ++ " is listed more than once"
  | json e => "JSON error: " ++ e.message
  | file e => "IO error: " ++ e.message

def chain : Error → List Error
  | inNode node cause => inNode node cause :: chain cause
  | inModule module cause => inModule module cause :: chain cause
  | e => [e]

/-- Whether the root cause is a construct without a LaTeX form. -/
def isUnsupported : Error → Bool
  | unsupported _ => true
  | inNode _ cause => isUnsupported cause
  | inModule _ cause => isUnsupported cause
  | _ => false

/-- What to do about an error that has no cause of its own. -/
def hint? : Error → Option String
  | unsupported construct =>
    some ("remove the " ++ construct.feature ++ " from the docstring or move it to a free-text block")
  | moduleNotFound _ => some "check that the module is listed in the manifest"
  | nodeNotFound _ => some "declare the node in `nodes` or `imports` before referencing it"
  | repeatedModule _ => some "regenerate the manifest with the host toolchain"
  | json _ => some "regenerate the manifest with the host toolchain"
  | inNode .. | inModule .. | moduleFrozen _ | file _ => none

def hintMark : String := "hint:"

def isHintLine (line : List Char) : Bool :=
  hintMark.toList.isPrefixOf (line.dropWhile Text.isBlank)

/-- The first line of a message that has a hint, or an empty line. -/
def hintLine (message : List Char) : List Char :=
  ((Text.lines message).find? isHintLine).getD []

/-- The message with a hint on a line of its own. Around a cause, it is the hint of the cause. -/
def messageWithHint : Error → List Char
  | inNode node cause => (inNode node cause).message.toList ++ '\n' :: hintLine (messageWithHint cause)
  | inModule module cause => (inModule module cause).message.toList ++ '\n' :: hintLine (messageWithHint cause)
  | e =>
    e.message.toList ++ match e.hint? with
      | some hint => ['\n', ' ', ' '] ++ hintMark.toList ++ ' ' :: hint.toList
      | none => []

end Error

end Compendium
