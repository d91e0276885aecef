import Compendium.Files.System
import Compendium.Library
import Compendium.Session

/-!
# Writing documents

Documents are written below the output directory, together with the directories that they need.
Writing ends with the first thing that goes wrong; what has been written by then stays.
-/

namespace Compendium

inductive ExportError where
  /-- A file, or a directory for files, cannot be written. -/
  | write (path : Path) (cause : FileError)
  | document (e : Error)
deriving DecidableEq, Repr

namespace ExportError

def message : ExportError → String
  | write path cause => "Failed to write file " ++ path.text ++ ": " ++ cause.message
  | document e => e.message

/-- The message with the hint that an error has. -/
def messageWithHint : ExportError → List Char
  | write path cause => (write path cause).message.toList
  | document e => e.messageWithHint

end ExportError

variable {m : Type → Type} [Monad m] [FileSystem m]

/-- Reports that something at a path could not be written. -/
def orWriteError {α : Type} (path : Path) (outcome : m (Except FileError α)) : ExceptT ExportError m α := do
  match ← (outcome : m (Except FileError α)) with
  | .ok a => return a
  | .error e => throw (.write path e)

def orDocumentError {α : Type} : Except Error α → ExceptT ExportError m α
  | .ok a => return a
  | .error e => throw (.document e)

def Session.load (p : Path) : m (Except Error Session) := do
  match ← FileSystem.readText p with
  | .ok text => return ofText text
  | .error e => return .error (.file e)

/-- Writes a text to a file, in directories that are made if need be. -/
def writeFile (p : Path) (text : String) : ExceptT ExportError m Path := do
  match p.parent? with
  | some parent => orWriteError parent (FileSystem.makeDirectories parent)
  | none => pure ()
  orWriteError p (FileSystem.writeText p text)
  return p

namespace Layout

def write (l : Layout) (kind : Kind) (name : Name) (text : String) (format : Format) :
    ExceptT ExportError m Path :=
  writeFile (l.pathFor kind name format) text

def writeModule (l : Layout) (s : Session) (module : Name) (format : Format) : ExceptT ExportError m Path := do
  let documents ← orDocumentError (s.render module)
  l.write .module module (documents.text format) format

def writeLibrary (l : Layout) (config : Config) (library : Name) (members : List Name) (format : Format) :
    ExceptT ExportError m Path := do
  let text ← orDocumentError (renderLibrary config library members format)
  l.write .library library text format

def writeBoth (l : Layout) (s : Session) (module : Name) : ExceptT ExportError m (List Path) := do
  let documents ← orDocumentError (s.render module)
  let latex ← l.write .module module documents.latexText .latex
  let json ← l.write .module module documents.jsonText .json
  return [latex, json]

/-- Writes both documents of every module, in the order of the modules. -/
def writeAll (l : Layout) (s : Session) : ExceptT ExportError m (List Path) := do
  return (← s.store.names.mapM (l.writeBoth s)).flatten

end Layout

end Compendium
