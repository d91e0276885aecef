import Compendium.CommandLine.Run

/-!
# The program

The file system and the terminal that a command really runs with.
-/

namespace Compendium

/-- The number of a failure, which some parts of the system give below zero. -/
def failureNumber (number : UInt32) : Nat :=
  (if number < 0x80000000 then number else 0 - number).toNat

/-- A failure by its number, with the system's words for it. -/
def FileError.ofNumber (number : UInt32) (reason : String) : FileError :=
  match failureNumber number with
  | 2 => .notFound
  | 17 => .alreadyThere
  | 20 => .notDirectory
  | 21 => .isDirectory
  | 36 => .nameTooLong
  | number => .system number reason

def FileError.ofIO : IO.Error → FileError
  | .noFileOrDirectory _ _ _ => .notFound
  | .alreadyExists _ number reason => .ofNumber number reason
  | .inappropriateType _ number reason => .ofNumber number reason
  | .invalidArgument _ number reason => .ofNumber number reason
  | .permissionDenied _ number reason => .ofNumber number reason
  | .resourceExhausted _ number reason => .ofNumber number reason
  | .noSuchThing _ number reason => .ofNumber number reason
  | .hardwareFault number reason => .ofNumber number reason
  | .resourceBusy number reason => .ofNumber number reason
  | .unsupportedOperation number reason => .ofNumber number reason
  | .otherError number reason => .ofNumber number reason
  | e => .system 0 (toString e)

/-- The outcome of an action on a path. -/
def attempt {α : Type} (p : Path) (action : String → IO α) : IO (Except FileError α) := do
  if p.chars.contains '\x00' then return .error .nulInPath
  try
    return .ok (← action p.text)
  catch e =>
    return .error (.ofIO e)

def readBytes (p : Path) : IO (Except FileError ByteArray) :=
  attempt p fun path => IO.FS.readBinFile path

instance : FileSystem IO where
  isThere p := do
    match ← readBytes p with
    | .error .notFound | .error .notDirectory | .error .nameTooLong | .error .nulInPath => return false
    | _ => return true
  isDirectory p := do
    match ← readBytes p with
    | .error .isDirectory => return true
    | _ => return false
  readText p := do
    match ← readBytes p with
    | .ok content =>
      match String.fromUTF8? content with
      | some text => return .ok text
      | none => return .error .notText
    | .error e => return .error e
  makeDirectory p := attempt p fun path => IO.FS.createDir path
  writeText p text := attempt p fun path => IO.FS.writeFile path text

instance : Terminal IO where
  print text := do
    let out ← IO.getStdout
    out.putStr text
    out.flush
  printError text := do (← IO.getStderr).putStr text
  now := return (← IO.monoNanosNow) / 1000

end Compendium

def main (args : List String) : IO UInt32 := do
  return UInt32.ofNat (← Compendium.CommandLine.run args)
