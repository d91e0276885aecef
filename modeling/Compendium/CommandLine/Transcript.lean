import Compendium.CommandLine.Run
import Compendium.Files.Tree

/-!
# Transcripts

A command that runs on a tree of files, with all that it says written down.
-/

namespace Compendium.CommandLine

structure Transcript where
  printed : String
  errors : String
deriving DecidableEq, Repr

namespace Transcript

def empty : Transcript := ⟨"", ""⟩

end Transcript

/-- Computations on a tree of files that are written down. -/
abbrev Recorded := StateT Transcript (StateM FileTree)

instance : FileSystem Recorded where
  isThere p := (FileSystem.isThere p : StateM FileTree Bool)
  isDirectory p := (FileSystem.isDirectory p : StateM FileTree Bool)
  readText p := (FileSystem.readText p : StateM FileTree (Except FileError String))
  makeDirectory p := (FileSystem.makeDirectory p : StateM FileTree (Except FileError Unit))
  writeText p text := (FileSystem.writeText p text : StateM FileTree (Except FileError Unit))

/-- No time passes. -/
instance : Terminal Recorded where
  print text := modify fun t => { t with printed := t.printed ++ text }
  printError text := modify fun t => { t with errors := t.errors ++ text }
  now := pure 0

/-- The exit code of a command, what it said, and the files behind it. -/
def record (args : List String) (files : FileTree) : (Nat × Transcript) × FileTree :=
  ((run args : Recorded Nat).run .empty).run files

end Compendium.CommandLine
