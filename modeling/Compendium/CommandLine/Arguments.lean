/-!
# Arguments of commands

Arguments are switches, the values of switches, and operands. A switch is written with its long name
behind two hyphens or with its letter behind one; several letters can share a hyphen. A value
follows as an argument of its own, behind an equals sign, or right behind the letter. Behind an
argument of two hyphens, all arguments are operands.
-/

namespace Compendium.CommandLine

structure Switch where
  name : String
  letter : Option Char
  takesValue : Bool
deriving DecidableEq, Repr

inductive Misuse where
  | unknownSwitch (written : String)
  | missingValue (name : String)
  | needlessValue (name : String)
  | repeatedSwitch (name : String)
  | unexpectedOperand (operand : String)
  | missingSwitch (name : String)
  | missingOperand (what : String)
  | missingCommand
  | unknownCommand (name : String)
deriving DecidableEq, Repr

inductive Halt where
  | help
  | version
  | misuse (m : Misuse)
deriving DecidableEq, Repr

structure Grammar where
  switches : List Switch
  /-- The number of operands that may be given, if there is a limit. -/
  maxOperands : Option Nat

structure Arguments where
  switches : List (String × Option String)
  operands : List String
deriving DecidableEq, Repr

namespace Arguments

def empty : Arguments := ⟨[], []⟩

def has (a : Arguments) (name : String) : Bool := a.switches.any (·.1 = name)

def value? (a : Arguments) (name : String) : Option String :=
  (a.switches.lookup name).join

def addSwitch (a : Arguments) (s : Switch) (value : Option String) : Except Halt Arguments :=
  if s.name = "help" then .error .help
  else if s.name = "version" then .error .version
  else if a.has s.name then .error (.misuse (.repeatedSwitch s.name))
  else .ok { a with switches := a.switches ++ [(s.name, value)] }

def addOperand (g : Grammar) (a : Arguments) (operand : String) : Except Halt Arguments :=
  if g.maxOperands.any (· ≤ a.operands.length) then .error (.misuse (.unexpectedOperand operand))
  else .ok { a with operands := a.operands ++ [operand] }

end Arguments

inductive Form where
  | endOfSwitches
  | long (name : List Char) (value : Option (List Char))
  | letters (letters : List Char)
  | operand
deriving DecidableEq, Repr

/-- The form of an argument. A single hyphen is an operand. -/
def Form.of : List Char → Form
  | ['-', '-'] => endOfSwitches
  | '-' :: '-' :: cs =>
    match cs.dropWhile (· ≠ '=') with
    | _ :: value => long (cs.takeWhile (· ≠ '=')) (some value)
    | [] => long cs none
  | '-' :: c :: cs => letters (c :: cs)
  | _ => operand

def attachedValue? : List Char → Option (List Char)
  | [] => none
  | '=' :: cs => some cs
  | cs => some cs

namespace Grammar

/-- Adds the switches of letters that share a hyphen. The last of them may still need its value. -/
def readLetters (g : Grammar) : List Char → Arguments → Except Halt (Arguments × Option Switch)
  | [], a => .ok (a, none)
  | c :: cs, a =>
    match g.switches.find? (·.letter = some c) with
    | none => .error (.misuse (.unknownSwitch (String.ofList ['-', c])))
    | some s =>
      if s.takesValue then
        match attachedValue? cs with
        | some value => do return (← a.addSwitch s (some (String.ofList value)), none)
        | none => .ok (a, some s)
      else do readLetters g cs (← a.addSwitch s none)

/-- Adds a switch that was given by its long name. It may still need its value. -/
def readLong (g : Grammar) (name : List Char) (value : Option (List Char)) (a : Arguments) :
    Except Halt (Arguments × Option Switch) :=
  let name := String.ofList name
  match g.switches.find? (·.name = name), value with
  | none, _ => .error (.misuse (.unknownSwitch ("--" ++ name)))
  | some s, some value =>
    if s.takesValue then do return (← a.addSwitch s (some (String.ofList value)), none)
    else .error (.misuse (.needlessValue name))
  | some s, none =>
    if s.takesValue then .ok (a, some s) else do return (← a.addSwitch s none, none)

/-- Adds the arguments in their order to those read already, of which the last switch may still need
its value. If `stop` holds, the first operand ends the reading. Also returns the arguments that are
left. -/
def readFrom (g : Grammar) (stop : Bool) :
    Option Switch → List String → Arguments → Except Halt (Arguments × List String)
  | some s, [], _ => .error (.misuse (.missingValue s.name))
  | none, [], a => .ok (a, [])
  | pending, arg :: args, a =>
    match pending, Form.of arg.toList with
    | some s, .operand => do readFrom g stop none args (← a.addSwitch s (some arg))
    | some s, _ => .error (.misuse (.missingValue s.name))
    | none, .endOfSwitches => do
      match stop, args with
      | true, arg :: _ => throw (.misuse (.unexpectedOperand arg))
      | _, _ => return (← args.foldlM (fun a arg => a.addOperand g arg) a, [])
    | none, .long name value => do
      let (a, pending) ← g.readLong name value a
      readFrom g stop pending args a
    | none, .letters letters => do
      let (a, pending) ← g.readLetters letters a
      readFrom g stop pending args a
    | none, .operand => do
      if stop then return (a, arg :: args)
      readFrom g stop none args (← a.addOperand g arg)

end Grammar

end Compendium.CommandLine
