import Compendium.Text.Basic

/-!
# JSON values and how they are written

Only the numbers that occur in the output are values: whole numbers from zero on.
-/

namespace Compendium.Json

inductive Value where
  | null
  | bool (b : Bool)
  | number (n : Nat)
  | string (s : String)
  | array (elements : List Value)
  | object (members : List (String × Value))
deriving Repr

namespace Value

/-! ### Texts -/

def hexDigit (n : Nat) : Char :=
  if n < 10 then Char.ofNat ('0'.toNat + n) else Char.ofNat ('a'.toNat + (n - 10))

/-- A character between quotation marks. Quotation marks, backslashes and controls are escaped. -/
def escapeChar (c : Char) : List Char :=
  if c = '"' then ['\\', '"']
  else if c = '\\' then ['\\', '\\']
  else if c = '\x08' then ['\\', 'b']
  else if c = '\x0c' then ['\\', 'f']
  else if c = '\n' then ['\\', 'n']
  else if c = '\r' then ['\\', 'r']
  else if c = '\t' then ['\\', 't']
  else if c < ' ' then ['\\', 'u', '0', '0', hexDigit (c.toNat / 16), hexDigit (c.toNat % 16)]
  else [c]

def quote (s : String) : List Char :=
  '"' :: s.toList.flatMap escapeChar ++ ['"']

/-! ### Values in one line -/

mutual

/-- A value without any blanks. -/
def compact : Value → List Char
  | null => "null".toList
  | bool b => (if b then "true" else "false").toList
  | number n => Nat.toDigits 10 n
  | string s => quote s
  | array elements => '[' :: compactElements elements ++ [']']
  | object members => '\x7b' :: compactMembers members ++ ['\x7d']

def compactElements : List Value → List Char
  | [] => []
  | [v] => compact v
  | v :: vs => compact v ++ ',' :: compactElements vs

def compactMembers : List (String × Value) → List Char
  | [] => []
  | [(k, v)] => quote k ++ ':' :: compact v
  | (k, v) :: ms => quote k ++ ':' :: compact v ++ ',' :: compactMembers ms

end

/-! ### Values on several lines -/

/-- The start of a line at a nesting depth. -/
def lineStart (depth : Nat) : List Char :=
  '\n' :: List.replicate (2 * depth) ' '

mutual

/-- A value with each element and member on a line of its own, indented by two spaces per level. -/
def pretty (depth : Nat) : Value → List Char
  | null => "null".toList
  | bool b => (if b then "true" else "false").toList
  | number n => Nat.toDigits 10 n
  | string s => quote s
  | array [] => ['[', ']']
  | array (v :: vs) => '[' :: prettyElements (depth + 1) (v :: vs) ++ lineStart depth ++ [']']
  | object [] => ['\x7b', '\x7d']
  | object (m :: ms) => '\x7b' :: prettyMembers (depth + 1) (m :: ms) ++ lineStart depth ++ ['\x7d']

def prettyElements (depth : Nat) : List Value → List Char
  | [] => []
  | [v] => lineStart depth ++ pretty depth v
  | v :: vs => lineStart depth ++ pretty depth v ++ ',' :: prettyElements depth vs

def prettyMembers (depth : Nat) : List (String × Value) → List Char
  | [] => []
  | [(k, v)] => lineStart depth ++ quote k ++ ':' :: ' ' :: pretty depth v
  | (k, v) :: ms => lineStart depth ++ quote k ++ ':' :: ' ' :: pretty depth v ++ ',' :: prettyMembers depth ms

end

/-- A value as a document: on several lines, of which the last is ended too. -/
def document (v : Value) : String :=
  String.ofList (v.pretty 0 ++ ['\n'])

/-! ### Order of members -/

/-- Puts a member in its place among others that are in order. -/
def insertMember (m : String × Value) : List (String × Value) → List (String × Value)
  | [] => [m]
  | m' :: ms => if m.1 < m'.1 then m :: m' :: ms else m' :: insertMember m ms

mutual

/-- The value with the members of every object in the order of their names. -/
def sorted : Value → Value
  | null => null
  | bool b => bool b
  | number n => number n
  | string s => string s
  | array elements => array (sortedElements elements)
  | object members => object (sortedMembers members)

def sortedElements : List Value → List Value
  | [] => []
  | v :: vs => sorted v :: sortedElements vs

def sortedMembers : List (String × Value) → List (String × Value)
  | [] => []
  | (k, v) :: ms => insertMember (k, sorted v) (sortedMembers ms)

end

end Value

end Compendium.Json
