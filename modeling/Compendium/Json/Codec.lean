import Compendium.Json.Source

/-!
# Reading and writing records

A codec writes the values of a type as JSON and reads them back from a text that was taken apart.
Reading goes through the text in order and reports what is wrong first, be it a fault of the text or
a mismatch.

A record is written as an object. It is read from an object, whose unknown members are skipped, or
from an array that lists its fields in order.
-/

namespace Compendium.Json

/-! ### Reading faults and finds -/

abbrev Reading (α : Type) := Except Error α

def fail {α : Type} (f : Fault) : Reading α := .error (.fault f)

def mismatch {α : Type} (m : Mismatch) : Reading α := .error (.mismatch m)

/-- A string that is really used. -/
def Quoted.use (q : Quoted) : Reading String :=
  match q.text with
  | .ok s => .ok s
  | .error f => fail f

def Number.found : Number → Found
  | .integer n => .integer n
  | .float f => .decimal (Decimal.ofFloat f)

namespace Source

def useNumber (n : Numeral) : Reading Number :=
  match n.number with
  | .ok k => .ok k
  | .error f => fail f

/-- What stands in a place, unless the text is at fault there. Arrays and objects are not entered.
-/
def found : Source → Reading Found
  | .null => .ok .null
  | .bool b => .ok (.bool b)
  | .number n => do return (← useNumber n).found
  | .string q => do return .string (← q.use)
  | .array .. => .ok .array
  | .object .. => .ok .object
  | .brokenNumber f => fail f
  | .brokenWord f => fail f
  | .broken f => fail f

def reject {α : Type} (expected : String) (s : Source) : Reading α := do
  mismatch (.wrongType (← s.found) expected)

end Source

/-- The fault at the end of an array whose elements are used. -/
def ArrayEnd.fault? : ArrayEnd → Option Fault
  | .closed => none
  | .cut => some .endInArray
  | .noComma => some .expectedArrayComma
  | .trailingComma => some .trailingComma
  | .cutAtComma => some .endInValue

/-- The fault at the end of an array that is skipped. -/
def ArrayEnd.skippedFault? : ArrayEnd → Option Fault
  | .trailingComma => some .expectedValue
  | ending => ending.fault?

/-- The fault behind the last field of an array that stands for a record. -/
def ArrayEnd.recordFault? : ArrayEnd → Option Fault
  | .noComma => some .trailingText
  | .cutAtComma => some .trailingText
  | ending => ending.fault?

def ObjectEnd.fault? : ObjectEnd → Option Fault
  | .closed => none
  | .cut => some .endInObject
  | .noComma => some .expectedObjectComma
  | .trailingComma => some .trailingComma
  | .cutAtComma => some .endInValue
  | .noKey => some .expectedKey

def ObjectEnd.skippedFault? : ObjectEnd → Option Fault
  | .trailingComma => some .expectedKey
  | .cutAtComma => some .endInObject
  | ending => ending.fault?

def orFault {α : Type} (a : α) : Option Fault → Reading α
  | some f => fail f
  | none => .ok a

namespace Source

mutual

/-- Passes over a value that is not used. Its strings need not make sense, nor its numbers fit. -/
def skip : Source → Reading Unit
  | .string ⟨_, some b⟩ => fail b.fault
  | .array elements ending => do
    skipElements elements
    orFault () ending.skippedFault?
  | .object members ending _ => do
    skipMembers members
    orFault () ending.skippedFault?
  | .brokenNumber _ => fail .badNumber
  | .brokenWord f => fail f
  | .broken f => fail f
  | .null => .ok ()
  | .bool _ => .ok ()
  | .number _ => .ok ()
  | .string ⟨_, none⟩ => .ok ()

def skipElements : List Source → Reading Unit
  | [] => .ok ()
  | v :: vs => do
    skip v
    skipElements vs

def skipMembers : List (Quoted × Source) → Reading Unit
  | [] => .ok ()
  | (key, v) :: ms => do
    orFault () (key.broken.map Break.fault)
    skip v
    skipMembers ms

end

end Source

/-! ### Codecs -/

structure Codec (α : Type) where
  write : α → Value
  read : Source → Reading α

namespace Codec

def readText {α : Type} (c : Codec α) (text : String) : Reading α := do
  let (source, rest) := Source.read text.toList
  let a ← c.read source
  if (Source.skipSpace rest).isEmpty then return a else fail .trailingText

def string : Codec String where
  write := .string
  read
    | .string q => q.use
    | s => s.reject "a string"

def bool : Codec Bool where
  write := .bool
  read
    | .bool b => .ok b
    | s => s.reject "a boolean"

/-- A number between two bounds, of which the upper one is excluded; `expected` names them. -/
def readNat (low high : Nat) (expected : String) : Source → Reading { n : Nat // low ≤ n ∧ n < high }
  | .number numeral => do
    match ← Source.useNumber numeral with
    | .integer n =>
      if h : 0 ≤ n ∧ low ≤ n.toNat ∧ n.toNat < high then return ⟨n.toNat, h.2⟩
      else mismatch (.wrongValue (.integer n) expected)
    | .float f => mismatch (.wrongType (.decimal (Decimal.ofFloat f)) expected)
  | s => s.reject expected

def word : Codec UInt32 where
  write n := .number n.toNat
  read s := do return UInt32.ofNat (← readNat 0 (Nat.pow 2 32) "u32" s).1

def optional {α : Type} (c : Codec α) : Codec (Option α) where
  write
    | some a => c.write a
    | none => .null
  read
    | .null => .ok none
    | s => do return some (← c.read s)

def readAll {α : Type} (c : Codec α) : List Source → Reading (List α)
  | [] => .ok []
  | s :: ss => do return (← c.read s) :: (← readAll c ss)

def list {α : Type} (c : Codec α) : Codec (List α) where
  write as := .array (as.map c.write)
  read
    | .array elements ending => do orFault (← c.readAll elements) ending.fault?
    | s => s.reject "a sequence"

def wrap {α β : Type} (c : Codec α) (into : α → β) (out : β → α) : Codec β where
  write b := c.write (out b)
  read s := do return into (← c.read s)

/-! ### Named choices -/

def choose {α : Type} (choices : List (String × α)) (name : String) : Reading α :=
  match choices.lookup name with
  | some a => .ok a
  | none => mismatch (.unknownVariant name (choices.map Prod.fst))

/-- What follows the only member of an object that names a choice. -/
def onlyMember {α : Type} (a : α) (others : List (Quoted × Source)) (ending : ObjectEnd) : Reading α :=
  match others, ending with
  | [], .closed => .ok a
  | [], .cut => fail .endInObject
  | _, _ => fail .expectedValue

/-- One of several named values. It is written as its name, and may also be read from an object with
a member of this name that is null. -/
def choice {α : Type} (choices : List (String × α)) (name : α → String) : Codec α where
  write a := .string (name a)
  read
    | .string q => do choose choices (← q.use)
    | .object ((key, value) :: others) ending _ => do
      let a ← choose choices (← key.use)
      match value with
      | .null => onlyMember a others ending
      | s => s.reject "unit"
    | .object [] _ (some stray) => stray.reject "variant identifier"
    | .object [] .cut none => fail .endInValue
    | .broken f => fail f
    | _ => fail .expectedValue

end Codec

/-! ### Records -/

inductive Need where
  | required
  /-- It may be missing, and is empty then; but not from an array. -/
  | optional
  /-- It may be missing, and has a default then. -/
  | defaulted
deriving DecidableEq, Repr

structure Field (R : Type) where
  name : String
  need : Need
  write : R → Value
  read : Source → Reading (R → R)

def Codec.field {R α : Type} (c : Codec α) (name : String) (need : Need) (get : R → α) (set : R → α → R) :
    Field R where
  name := name
  need := need
  write r := c.write (get r)
  read s := do
    let a ← c.read s
    return fun r => set r a

structure Schema (R : Type) where
  name : String
  blank : R
  fields : List (Field R)

namespace Schema

variable {R : Type}

/-- Reads members into `r`, whose fields `seen` are read already. -/
def readMembers (schema : Schema R) : List (Quoted × Source) → List String → R → Reading (List String × R)
  | [], seen, r => .ok (seen, r)
  | (key, value) :: members, seen, r => do
    let name ← key.use
    match schema.fields.find? (·.name = name) with
    | none =>
      value.skip
      readMembers schema members seen r
    | some field =>
      if seen.contains name then mismatch (.duplicateField name)
      else readMembers schema members (name :: seen) ((← field.read value) r)

/-- Reads the elements of an array into the fields of `r` from the `n`th on, and returns the
elements left over. -/
def readElements (schema : Schema R) (ending : ArrayEnd) :
    Nat → List (Field R) → List Source → R → Reading (List Source × R)
  | _, [], elements, r => .ok (elements, r)
  | n, field :: fields, element :: elements, r => do
    readElements schema ending (n + 1) fields elements ((← field.read element) r)
  | n, field :: fields, [], r =>
    match ending with
    | .closed =>
      if field.need = .defaulted then readElements schema ending (n + 1) fields [] r
      else mismatch (.wrongLength n ("struct " ++ schema.name) schema.fields.length)
    | ending => orFault ([], r) ending.fault?

def codec (schema : Schema R) : Codec R where
  write r := .object (schema.fields.map fun field => (field.name, field.write r))
  read
    | .object members ending _ => do
      let (seen, r) ← schema.readMembers members [] schema.blank
      let r ← orFault r ending.fault?
      match schema.fields.find? fun field => field.need = .required && !seen.contains field.name with
      | some field => mismatch (.missingField field.name)
      | none => return r
    | .array elements ending => do
      let (left, r) ← schema.readElements ending 0 schema.fields elements schema.blank
      if left.isEmpty then orFault r ending.recordFault? else fail .trailingText
    | s => s.reject ("struct " ++ schema.name)

end Schema

end Compendium.Json
