import Compendium.CommandLine.Command
import Compendium.Export

/-!
# Running commands

What a command does and what it says about it. Failures are told on a channel of their own, and in
the exit code.
-/

namespace Compendium

/-- A place to say something. -/
class Terminal (m : Type → Type) where
  print : String → m Unit
  printError : String → m Unit
  /-- The time in microseconds since some moment. -/
  now : m Nat

namespace CommandLine

inductive Failure where
  | noManifest (path : Path)
  | error (e : Error)
  | exportError (e : ExportError)
deriving DecidableEq, Repr

def Failure.message : Failure → List Char
  | noManifest path => "Manifest not found: ".toList ++ path.chars
  | error e => e.messageWithHint
  | exportError e => e.messageWithHint

/-! ### Texts -/

inductive Shade where
  | bold
  | dim
  | red
  | green
  | cyan
deriving DecidableEq, Repr

def Shade.code : Shade → Nat
  | bold => 1
  | dim => 2
  | red => 31
  | green => 32
  | cyan => 36

def plainCode : Nat := 0

def terminalCode (n : Nat) : String := "\x1b[" ++ toString n ++ "m"

def Shade.paint (s : Shade) (text : String) : String :=
  terminalCode s.code ++ text ++ terminalCode plainCode

def versionText : String := "blueprint 0.1.0\n"

def usageText : String :=
  "Usage: blueprint [--verbose] COMMAND\n\n" ++
  "  single MODULE --manifest FILE [--output DIRECTORY] [--json] [--input-root ROOT]\n" ++
  "  index LIBRARY [MODULE...] [--output DIRECTORY] [--json] [--input-root ROOT]\n" ++
  "  build --manifest FILE [--output DIRECTORY]\n"

def Misuse.message : Misuse → String
  | unknownSwitch written => "unknown switch " ++ written
  | missingValue name => "a value is missing for --" ++ name
  | needlessValue name => "--" ++ name ++ " takes no value"
  | repeatedSwitch name => "--" ++ name ++ " is given twice"
  | unexpectedOperand operand => "unexpected argument " ++ operand
  | missingSwitch name => "--" ++ name ++ " is missing"
  | missingOperand what => what ++ " is missing"
  | missingCommand => "a command is missing"
  | unknownCommand name => "unknown command " ++ name

def milliseconds (hundredths : Nat) : String :=
  let cents := toString (hundredths % 100)
  toString (hundredths / 100) ++ "." ++ (if cents.length < 2 then "0" ++ cents else cents) ++ "ms"

def elapsedText (microseconds : Nat) : String :=
  " (" ++ milliseconds ((microseconds + 5) / 10) ++ ")\n"

def ruleText : String := String.ofList (List.replicate 50 '─') ++ "\n"

/-! ### Commands -/

variable {m : Type → Type} [Monad m] [FileSystem m] [Terminal m]

def load (p : Path) : ExceptT Failure m Session := do
  match ← (Session.load p : m (Except Error Session)) with
  | .ok s => return s
  | .error e => throw (.error e)

def requireManifest (p : Path) : ExceptT Failure m Unit := do
  unless ← (FileSystem.isThere p : m Bool) do throw (.noManifest p)

/-- Goes on with what was exported. -/
def exported {α : Type} (outcome : ExceptT ExportError m α) : ExceptT Failure m α := do
  match ← (outcome.run : m (Except ExportError α)) with
  | .ok a => return a
  | .error e => throw (.exportError e)

def say (text : String) : ExceptT Failure m Unit := Terminal.print (m := m) text

def single (module : Name) (manifest output : Path) (format : Format) (inputRoot : Option String) :
    ExceptT Failure m Unit := do
  requireManifest manifest
  let s ← load manifest
  let s := { s with config := { s.config with inputRoot := inputRoot.getD s.config.inputRoot } }
  let start ← (Terminal.now : m Nat)
  say ("  " ++ module.text ++ " ... ")
  match ← ((Layout.writeModule ⟨output⟩ s module format).run : m (Except ExportError Path)) with
  | .ok path =>
    let stop ← (Terminal.now : m Nat)
    say (Shade.green.paint "✓" ++ " " ++ path.text ++ elapsedText (stop - start))
  | .error e =>
    say (Shade.red.paint "✗" ++ "\n")
    throw (.exportError e)

def index (library : Name) (members : List Name) (output : Path) (format : Format) (inputRoot : String) :
    ExceptT Failure m Unit := do
  let config := { Config.default with inputRoot }
  let path ← exported (Layout.writeLibrary ⟨output⟩ config library members format)
  say (Shade.green.paint "✓" ++ " " ++ path.text ++ " " ++
    Shade.dim.paint ("(" ++ toString members.length ++ " modules)") ++ "\n")

def build (manifest output : Path) : ExceptT Failure m Unit := do
  requireManifest manifest
  say ("\n" ++ Shade.bold.paint "Blueprint Build" ++ " - " ++ manifest.text ++ "\n")
  say ruleText
  let start ← (Terminal.now : m Nat)
  let s ← load manifest
  say ("  " ++ Shade.cyan.paint "Loaded" ++ " " ++ toString s.registry.size ++ " nodes, " ++
    toString s.store.modules.length ++ " modules\n")
  let written ← exported (Layout.writeAll ⟨output⟩ s)
  let stop ← (Terminal.now : m Nat)
  say ("\n" ++ Shade.green.paint ("✓ Wrote " ++ toString written.length ++ " files") ++ " to " ++ output.text ++
    elapsedText (stop - start))

def Command.execute : Command → ExceptT Failure m Unit
  | .single module manifest output format inputRoot => CommandLine.single module manifest output format inputRoot
  | .index library members output format inputRoot => CommandLine.index library members output format inputRoot
  | .build manifest output => CommandLine.build manifest output

def failureCode : Nat := 1

def misuseCode : Nat := 2

/-- Does what the arguments say, and returns the exit code. -/
def run (args : List String) : m Nat := do
  match Command.ofArguments args with
  | .ok command =>
    match ← (command.execute.run : m (Except Failure Unit)) with
    | .ok () => return 0
    | .error failure =>
      Terminal.printError ("Error: " ++ String.ofList failure.message ++ "\n")
      return failureCode
  | .error .help =>
    Terminal.print usageText
    return 0
  | .error .version =>
    Terminal.print versionText
    return 0
  | .error (.misuse misuse) =>
    Terminal.printError ("error: " ++ misuse.message ++ "\n\n" ++ usageText)
    return misuseCode

end CommandLine

end Compendium
