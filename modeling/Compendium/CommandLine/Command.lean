import Compendium.CommandLine.Arguments
import Compendium.Output

/-!
# Commands

There are three commands: one writes a document of a single module, one the index of a library, and
one all documents of a manifest.
-/

namespace Compendium.CommandLine

inductive Command where
  /-- Writes a document of a module. A root for the paths of included documents replaces that of the
  manifest. -/
  | single (module : Name) (manifest output : Path) (format : Format) (inputRoot : Option String)
  | index (library : Name) (members : List Name) (output : Path) (format : Format) (inputRoot : String)
  | build (manifest output : Path)
deriving DecidableEq, Repr

namespace Command

def verbose : Switch := ⟨"verbose", some 'v', false⟩
def help : Switch := ⟨"help", some 'h', false⟩
def version : Switch := ⟨"version", some 'V', false⟩
def manifest : Switch := ⟨"manifest", some 'm', true⟩
def output : Switch := ⟨"output", some 'o', true⟩
def json : Switch := ⟨"json", none, false⟩
def inputRoot : Switch := ⟨"input-root", none, true⟩

/-- What may stand before a command. -/
def programGrammar : Grammar := ⟨[verbose, help, version], none⟩

def singleGrammar : Grammar := ⟨[manifest, output, json, inputRoot, verbose, help], some 1⟩
def indexGrammar : Grammar := ⟨[output, json, inputRoot, verbose, help], none⟩
def buildGrammar : Grammar := ⟨[manifest, output, verbose, help], some 0⟩

def names : List String := ["single", "index", "build", "help"]

def defaultOutput : String := "blueprint"

def requireValue (a : Arguments) (s : Switch) : Except Halt String :=
  match a.value? s.name with
  | some value => .ok value
  | none => .error (.misuse (.missingSwitch s.name))

/-- The first operand, which has to be given, and the others. -/
def requireOperand (a : Arguments) (what : String) : Except Halt (String × List String) :=
  match a.operands with
  | operand :: others => .ok (operand, others)
  | [] => .error (.misuse (.missingOperand what))

def outputPath (a : Arguments) : Path :=
  .ofString ((a.value? output.name).getD defaultOutput)

def format (a : Arguments) : Format :=
  if a.has json.name then .json else .latex

def arguments (g : Grammar) (args : List String) : Except Halt Arguments :=
  (g.readFrom false none args .empty).map Prod.fst

def ofName (name : String) (args : List String) : Except Halt Command :=
  match name with
  | "single" => do
    let a ← arguments singleGrammar args
    let (module, _) ← requireOperand a "MODULE"
    return .single ⟨module⟩ (.ofString (← requireValue a manifest)) (outputPath a) (format a)
      (a.value? inputRoot.name)
  | "index" => do
    let a ← arguments indexGrammar args
    let (library, members) ← requireOperand a "LIBRARY"
    return .index ⟨library⟩ (members.map Name.mk) (outputPath a) (format a)
      ((a.value? inputRoot.name).getD "")
  | "build" => do
    let a ← arguments buildGrammar args
    return .build (.ofString (← requireValue a manifest)) (outputPath a)
  | "help" =>
    match args with
    | [] => .error .help
    | [topic] =>
      if names.contains topic then .error .help else .error (.misuse (.unknownCommand topic))
    | _ :: topic :: _ => .error (.misuse (.unknownCommand topic))
  | _ => .error (.misuse (.unknownCommand name))

def ofArguments (args : List String) : Except Halt Command := do
  match ← programGrammar.readFrom true none args .empty with
  | (_, name :: args) => ofName name args
  | (_, []) => throw (.misuse .missingCommand)

end Command

end Compendium.CommandLine
