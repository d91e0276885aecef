import Compendium.Files.System
import Compendium.Keyed

/-!
# Trees of files

A file system as a value: directories and files by their places below the root. A path is followed
component by component, and everything before its last component has to be a directory.
-/

namespace Compendium

/-- The components on the way from the root. -/
abbrev Place := List (List Char)

inductive FileEntry where
  | directory
  | file (content : ByteArray)

structure FileTree where
  /-- What there is below the root, by place. -/
  entries : Keyed Place FileEntry
  /-- The directory where relative paths start. -/
  here : Place

namespace FileTree

def empty : FileTree := ⟨[], []⟩

/-- What is at a place. The root is a directory. -/
def at? (t : FileTree) (place : Place) : Option FileEntry :=
  if place.isEmpty then some .directory else t.entries.find? place

/-- Puts a file or a directory in its place, instead of what is there. -/
def put (t : FileTree) (place : Place) (e : FileEntry) : FileTree :=
  { t with entries := t.entries.set place e }

theorem at?_put (t : FileTree) {place : Place} (h : place ≠ []) (e : FileEntry) (place' : Place) :
    (t.put place e).at? place' = if place = place' then some e else t.at? place' := by
  simp only [at?, put, Keyed.find?_set, List.isEmpty_iff]
  by_cases h' : place' = []
  · rw [if_pos h', if_pos h', if_neg fun hp => h (hp.trans h')]
  · rw [if_neg h', if_neg h']

def maxComponent : Nat := 255

def maxPath : Nat := 4095

def step (directory : Place) (component : List Char) : Place :=
  if component = ['.'] then directory
  else if component = ['.', '.'] then directory.dropLast
  else directory ++ [component]

def walk (t : FileTree) (directory : Place) : List (List Char) → Except FileError Place
  | [] => .ok directory
  | c :: cs =>
    if maxComponent < Text.byteLength c then .error .nameTooLong
    else
      let place := step directory c
      if cs.isEmpty then .ok place
      else match t.at? place with
        | none => .error .notFound
        | some (.file _) => .error .notDirectory
        | some .directory => walk t place cs

/-- The place that a path leads to. A slash at the end leads into a directory. -/
def place (t : FileTree) (p : Path) : Except FileError Place :=
  if p.chars.isEmpty then .error .notFound
  else if p.chars.contains '\x00' then .error .nulInPath
  else if maxPath < Text.byteLength p.chars then .error .nameTooLong
  else
    let last := if p.chars.getLast? = some '/' then [['.']] else []
    t.walk (if p.isAbsolute then [] else t.here) (p.components ++ last)

def find (t : FileTree) (p : Path) : Except FileError FileEntry := do
  match t.at? (← t.place p) with
  | some e => return e
  | none => throw .notFound

def isThere (t : FileTree) (p : Path) : Bool := (t.find p).isOk

def isDirectory (t : FileTree) (p : Path) : Bool :=
  match t.find p with
  | .ok .directory => true
  | _ => false

def readText (t : FileTree) (p : Path) : Except FileError String := do
  match ← t.find p with
  | .directory => throw .isDirectory
  | .file content =>
    match String.fromUTF8? content with
    | some s => return s
    | none => throw .notText

def makeDirectory (t : FileTree) (p : Path) : Except FileError FileTree := do
  let place ← t.place p
  match t.at? place with
  | some _ => throw .alreadyThere
  | none => return t.put place .directory

def writeText (t : FileTree) (p : Path) (text : String) : Except FileError FileTree := do
  let place ← t.place p
  match t.at? place with
  | some .directory => throw .isDirectory
  | _ => return t.put place (.file text.toUTF8)

end FileTree

/-- Applies an operation to the state, which stays as it is if the operation fails. -/
def changeState {σ ε : Type} (f : σ → Except ε σ) : StateM σ (Except ε Unit) := fun s =>
  match f s with
  | .ok s' => (.ok (), s')
  | .error e => (.error e, s)

instance : FileSystem (StateM FileTree) where
  isThere p := do return (← get).isThere p
  isDirectory p := do return (← get).isDirectory p
  readText p := do return (← get).readText p
  makeDirectory p := changeState fun t => t.makeDirectory p
  writeText p text := changeState fun t => t.writeText p text

end Compendium
