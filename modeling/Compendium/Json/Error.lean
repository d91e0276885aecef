import Compendium.Text.Quotation

/-!
# What can be wrong with a JSON text
-/

namespace Compendium.Json

inductive Fault where
  | endInArray
  | endInObject
  | endInString
  | endInValue
  | expectedColon
  | expectedArrayComma
  | expectedObjectComma
  | expectedWord
  | expectedValue
  | expectedKey
  | trailingComma
  | trailingText
  | badEscape
  | badNumber
  | hugeNumber
  | controlInString
  | loneSurrogate
  | missingSurrogate
deriving DecidableEq, Repr

def Fault.message : Fault → String
  | endInArray => "EOF while parsing a list"
  | endInObject => "EOF while parsing an object"
  | endInString => "EOF while parsing a string"
  | endInValue => "EOF while parsing a value"
  | expectedColon => "expected `:`"
  | expectedArrayComma => "expected `,` or `]`"
  | expectedObjectComma => "expected `,` or `\x7d`"
  | expectedWord => "expected ident"
  | expectedValue => "expected value"
  | expectedKey => "key must be a string"
  | trailingComma => "trailing comma"
  | trailingText => "trailing characters"
  | badEscape => "invalid escape"
  | badNumber => "invalid number"
  | hugeNumber => "number out of range"
  | controlInString => "control character (\\u0000-\\u001F) found while parsing a string"
  | loneSurrogate => "lone leading surrogate in hex escape"
  | missingSurrogate => "unexpected end of hex escape"

/-- Whether a longer text might be without the fault. -/
def Fault.isEnd : Fault → Bool
  | endInArray | endInObject | endInString | endInValue => true
  | _ => false

inductive Found where
  | null
  | bool (b : Bool)
  | integer (n : Int)
  /-- A number with a fraction or an exponent, or out of the range of integers; as it is shown. -/
  | decimal (shown : String)
  | string (s : String)
  | array
  | object
deriving DecidableEq, Repr

def Found.describe : Found → String
  | null => "null"
  | bool b => "boolean `" ++ (if b then "true" else "false") ++ "`"
  | integer n =>
    let digits := Nat.toDigits 10 n.natAbs
    "integer `" ++ String.ofList (if n < 0 then '-' :: digits else digits) ++ "`"
  | decimal shown => "floating point `" ++ shown ++ "`"
  | string s => "string " ++ Text.quotation s
  | array => "sequence"
  | object => "map"

/-- Ways in which a well-formed text can fail to describe what it should. -/
inductive Mismatch where
  | wrongType (found : Found) (expected : String)
  | wrongValue (found : Found) (expected : String)
  | missingField (name : String)
  | duplicateField (name : String)
  | unknownVariant (name : String) (known : List String)
  | wrongLength (length : Nat) (expected : String) (size : Nat)
deriving DecidableEq, Repr

def tick (name : String) : String := "`" ++ name ++ "`"

def alternatives : List String → String
  | [a] => tick a
  | [a, b] => tick a ++ " or " ++ tick b
  | names => "one of " ++ ", ".intercalate (names.map tick)

def Mismatch.message : Mismatch → String
  | wrongType found expected => "invalid type: " ++ found.describe ++ ", expected " ++ expected
  | wrongValue found expected => "invalid value: " ++ found.describe ++ ", expected " ++ expected
  | missingField name => "missing field " ++ tick name
  | duplicateField name => "duplicate field " ++ tick name
  | unknownVariant name known => "unknown variant " ++ tick name ++ ", expected " ++ alternatives known
  | wrongLength length expected size =>
    "invalid length " ++ toString length ++ ", expected " ++ expected ++ " with " ++ toString size ++
      (if size = 1 then " element" else " elements")

inductive Error where
  | fault (f : Fault)
  | mismatch (m : Mismatch)
deriving DecidableEq, Repr

inductive Category where
  | syntactic
  | data
  | ended
deriving DecidableEq, Repr

namespace Error

/-- What is wrong, without where: the line and the column of the error, which a message about a text often ends with
(`at line 1 column 2`), are left out, since readers do not keep count of them. -/
def message : Error → String
  | fault f => f.message
  | mismatch m => m.message

def category : Error → Category
  | fault f => if f.isEnd then .ended else .syntactic
  | mismatch _ => .data

end Error

end Compendium.Json
