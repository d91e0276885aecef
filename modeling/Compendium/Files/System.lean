import Compendium.Path

/-!
# File systems

The few things that are done with files, and what can go wrong with them.
-/

namespace Compendium

inductive FileError where
  | notFound
  | alreadyThere
  | notDirectory
  | isDirectory
  | nameTooLong
  | nulInPath
  | notText
  /-- Any other reason that the system gives, by number and in words. -/
  | system (number : Nat) (reason : String)
deriving DecidableEq, Repr

namespace FileError

def systemMessage (number : Nat) (reason : String) : String :=
  reason ++ " (os error " ++ toString number ++ ")"

def message : FileError → String
  | notFound => systemMessage 2 "No such file or directory"
  | alreadyThere => systemMessage 17 "File exists"
  | notDirectory => systemMessage 20 "Not a directory"
  | isDirectory => systemMessage 21 "Is a directory"
  | nameTooLong => systemMessage 36 "File name too long"
  | nulInPath => "file name contained an unexpected NUL byte"
  | notText => "stream did not contain valid UTF-8"
  | system number reason => systemMessage number reason

end FileError

class FileSystem (m : Type → Type) where
  isThere : Path → m Bool
  isDirectory : Path → m Bool
  readText : Path → m (Except FileError String)
  /-- Makes a directory in one that is there. -/
  makeDirectory : Path → m (Except FileError Unit)
  /-- Writes a file, and replaces the one that is there. -/
  writeText : Path → String → m (Except FileError Unit)

namespace FileSystem

variable {m : Type → Type} [Monad m] [FileSystem m]

def ensureDirectory (p : Path) : m (Except FileError Unit) := do
  match ← makeDirectory p with
  | .error .alreadyThere => return if ← isDirectory p then .ok () else .error .alreadyThere
  | outcome => return outcome

/-- Makes a directory and those that it lies in, unless they are there. -/
def makeDirectories (p : Path) : m (Except FileError Unit) := do
  if p.chars.isEmpty then return .ok ()
  match ← ensureDirectory p with
  | .error .notFound =>
    match _h : p.parent? with
    | some parent =>
      match ← makeDirectories parent with
      | .ok () => ensureDirectory p
      | .error e => return .error e
    | none => return .error .notFound
  | outcome => return outcome
termination_by p.chars.length
decreasing_by exact Path.length_parent?_lt _h

end FileSystem

end Compendium
