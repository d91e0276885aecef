import Compendium.Decimal
import Compendium.Json.Error
import Compendium.Json.Value

/-!
# JSON texts as they are written

A JSON text is first taken apart into a tree that leaves nothing undecided: strings keep their
escapes, numbers their digits, and where the text breaks off or goes wrong the tree says so at that
place. What is wrong only matters to one who gets that far, so a fault is reported together with the
mismatches before it, and some things are wrong only in values that are really used.
-/

namespace Compendium.Json

/-! ### Strings -/

/-- A part of a string: a character, or a UTF-16 unit that was given by number. -/
inductive Symbol where
  | char (c : Char)
  | unit (n : Nat)
deriving DecidableEq, Repr

inductive Break where
  | ended
  | control
  | escape
  | digits
deriving DecidableEq, Repr

def Break.fault : Break → Fault
  | .ended => .endInString
  | .control => .controlInString
  | .escape => .badEscape
  | .digits => .badEscape

structure Quoted where
  symbols : List Symbol
  broken : Option Break
deriving DecidableEq, Repr

def escaped? : Char → Option Char
  | '"' => some '"'
  | '\\' => some '\\'
  | '/' => some '/'
  | 'b' => some '\x08'
  | 'f' => some '\x0c'
  | 'n' => some '\n'
  | 'r' => some '\r'
  | 't' => some '\t'
  | _ => none

def fourDigits? (a b c d : Char) : Option Nat :=
  if [a, b, c, d].all Text.isHexDigit then
    some ([a, b, c, d].foldl (fun n x => 16 * n + Text.hexDigitValue x) 0)
  else none

namespace Quoted

def cons (s : Symbol) (q : Quoted) : Quoted := { q with symbols := s :: q.symbols }

/-- A string from behind its opening quotation mark, and what follows it. -/
def read : List Char → Quoted × List Char
  | [] => (⟨[], some .ended⟩, [])
  | '"' :: cs => (⟨[], none⟩, cs)
  | ['\\'] => (⟨[], some .ended⟩, [])
  | '\\' :: 'u' :: a :: b :: c :: d :: cs =>
    match fourDigits? a b c d with
    | some n =>
      let (q, rest) := read cs
      (q.cons (.unit n), rest)
    | none => (⟨[], some .digits⟩, cs)
  | '\\' :: 'u' :: cs => (⟨[], some (if Text.byteLength cs < 4 then .ended else .digits)⟩, [])
  | '\\' :: c :: cs =>
    match escaped? c with
    | some c =>
      let (q, rest) := read cs
      (q.cons (.char c), rest)
    | none => (⟨[], some .escape⟩, cs)
  | c :: cs =>
    if c < ' ' then (⟨[], some .control⟩, cs)
    else
      let (q, rest) := read cs
      (q.cons (.char c), rest)

def brokenPair : Option Break → Fault
  | some .ended => .endInString
  | some .digits => .badEscape
  | _ => .missingSurrogate

/-- The characters of a string, of which `broken` tells how it ends. Units beyond the range of one
must come in pairs. -/
def chars (broken : Option Break) : List Symbol → Except Fault (List Char)
  | [] =>
    match broken with
    | some b => .error b.fault
    | none => .ok []
  | .char c :: rest => do return c :: (← chars broken rest)
  | [.unit n] =>
    if n < 0xd800 || 0xdfff < n then do return Char.ofNat n :: (← chars broken [])
    else if 0xdc00 ≤ n then .error .loneSurrogate
    else .error (brokenPair broken)
  | .unit n :: .char c :: rest =>
    if n < 0xd800 || 0xdfff < n then do return Char.ofNat n :: (← chars broken (.char c :: rest))
    else if 0xdc00 ≤ n then .error .loneSurrogate
    else .error .missingSurrogate
  | .unit n :: .unit m :: rest =>
    if n < 0xd800 || 0xdfff < n then do return Char.ofNat n :: (← chars broken (.unit m :: rest))
    else if 0xdc00 ≤ n || m < 0xdc00 || 0xdfff < m then .error .loneSurrogate
    else do
      return Char.ofNat (0x10000 + (n - 0xd800) * 0x400 + (m - 0xdc00)) :: (← chars broken rest)

def text (q : Quoted) : Except Fault String := do
  return String.ofList (← chars q.broken q.symbols)

end Quoted

/-! ### Numbers -/

structure Numeral where
  negative : Bool
  whole : List Char
  /-- The digits behind the point; none if there is no point. -/
  fraction : List Char
  exponent : Option (Bool × List Char)
deriving DecidableEq, Repr

inductive Number where
  | integer (n : Int)
  | float (f : Float)

namespace Numeral

def digitValue (c : Char) : Nat := c.toNat - '0'.toNat

def readExponent? (cs : List Char) : Except Fault ((Bool × List Char) × List Char) :=
  let (negative, cs) := match cs with
    | '+' :: cs => (false, cs)
    | '-' :: cs => (true, cs)
    | cs => (false, cs)
  match cs with
  | [] => .error .endInValue
  | c :: _ =>
    if c.isDigit then .ok ((negative, cs.takeWhile Char.isDigit), cs.dropWhile Char.isDigit)
    else .error .badNumber

/-- The number at the start of a text, which begins with a digit or a minus sign, and what follows
it. -/
def read? (cs : List Char) : Except Fault (Numeral × List Char) := do
  let (negative, cs) := match cs with
    | '-' :: cs => (true, cs)
    | cs => (false, cs)
  let whole := cs.takeWhile Char.isDigit
  let rest := cs.dropWhile Char.isDigit
  if cs.isEmpty then throw .endInValue
  if whole.isEmpty || (whole.head? = some '0' && 1 < whole.length) then throw .badNumber
  let (fraction, rest) ← match rest with
    | '.' :: rest =>
      if rest.isEmpty then throw .endInValue
      else if rest.head?.any Char.isDigit then pure (rest.takeWhile Char.isDigit, rest.dropWhile Char.isDigit)
      else throw .badNumber
    | rest => pure ([], rest)
  match rest with
  | c :: after =>
    if c = 'e' || c = 'E' then
      let (exponent, rest) ← readExponent? after
      return (⟨negative, whole, fraction, some exponent⟩, rest)
    else return (⟨negative, whole, fraction, none⟩, rest)
  | [] => return (⟨negative, whole, fraction, none⟩, rest)

/-- Appends digits to a significand as long as it stays below two to the 64, and tells how many were
left over. -/
def accumulate (significand : Nat) : List Char → Nat × Nat
  | [] => (significand, 0)
  | d :: ds =>
    let next := 10 * significand + digitValue d
    if next < Nat.pow 2 64 then accumulate next ds else (significand, ds.length + 1)

def powerOfTen (n : Nat) : Float := Float.ofScientific 1 false n

def scale : Nat → Float → Int → Option Float
  | 0, f, _ => some f
  | n + 1, f, exponent =>
    if exponent.natAbs ≤ 308 then
      if 0 ≤ exponent then
        let f := f * powerOfTen exponent.natAbs
        if f.isInf then none else some f
      else some (f / powerOfTen exponent.natAbs)
    else if f == 0.0 then some f
    else if 0 ≤ exponent then none
    else scale n (f / powerOfTen 308) (exponent + 308)

def float (negative : Bool) (significand : Nat) (exponent : Int) : Except Fault Float :=
  match scale 5 significand.toUInt64.toFloat exponent with
  | some f => .ok (if negative then -f else f)
  | none => .error .hugeNumber

/-- The exponents above which a number is zero or too large whatever its significand. -/
def maxExponent : Nat := Nat.pow 2 31 - 1

/-- What a number means: an integer if it has neither a fraction nor an exponent and fits into 64
bits, else a floating-point number. -/
def number (n : Numeral) : Except Fault Number := do
  let (significand, left) := accumulate 0 n.whole
  if left = 0 && n.fraction.isEmpty && n.exponent.isNone then
    if !n.negative then return .integer significand
    else if 0 < significand && significand ≤ Nat.pow 2 63 then return .integer (-(significand : Int))
    else return .float (← float true significand 0)
  else
    let (significand, leftFraction) := accumulate significand n.fraction
    let exponent : Int := (left : Int) - (n.fraction.length - leftFraction : Nat)
    match n.exponent with
    | none => return .float (← float n.negative significand exponent)
    | some (negative, digits) =>
      let size := digits.foldl (fun k d => 10 * k + digitValue d) 0
      if maxExponent < size then
        if significand ≠ 0 && !negative then throw .hugeNumber
        else return .float (if n.negative then -0.0 else 0.0)
      else
        return .float (← float n.negative significand (if negative then exponent - size else exponent + size))

end Numeral

/-! ### Whole texts -/

inductive ArrayEnd where
  | closed
  /-- The text ends behind an element or the opening bracket. -/
  | cut
  | noComma
  | trailingComma
  /-- The text ends behind a comma. -/
  | cutAtComma
deriving DecidableEq, Repr

inductive ObjectEnd where
  | closed
  | cut
  | noComma
  | trailingComma
  | cutAtComma
  | noKey
deriving DecidableEq, Repr

inductive Source where
  | null
  | bool (b : Bool)
  | number (n : Numeral)
  | string (s : Quoted)
  | array (elements : List Source) (ending : ArrayEnd)
  /-- The members in their order, how the object ends, and what stands in the place of a key. -/
  | object (members : List (Quoted × Source)) (ending : ObjectEnd) (stray : Option Source)
  | brokenNumber (f : Fault)
  /-- One of the words for values that breaks off or goes wrong. -/
  | brokenWord (f : Fault)
  | broken (f : Fault)

namespace Source

def skipSpace (cs : List Char) : List Char := cs.dropWhile Text.isLineBlank

def readWord (letters : List Char) (value : Source) (cs : List Char) : Source × List Char :=
  match letters, cs with
  | [], cs => (value, cs)
  | _ :: _, [] => (.brokenWord .endInValue, [])
  | l :: letters, c :: cs => if c = l then readWord letters value cs else (.brokenWord .expectedWord, cs)

mutual

/-- A value and what follows it; at most `n` steps are taken. -/
def readValue : Nat → List Char → Source × List Char
  | 0, cs => (.broken .expectedValue, cs)
  | n + 1, cs =>
    match skipSpace cs with
    | [] => (.broken .endInValue, [])
    | c :: cs =>
      if c = 'n' then readWord "ull".toList .null cs
      else if c = 't' then readWord "rue".toList (.bool true) cs
      else if c = 'f' then readWord "alse".toList (.bool false) cs
      else if c = '"' then
        let (q, rest) := Quoted.read cs
        (.string q, rest)
      else if c = '[' then
        let (elements, ending, rest) := readElements n true cs
        (.array elements ending, rest)
      else if c = '\x7b' then
        let (members, ending, stray, rest) := readMembers n true cs
        (.object members ending stray, rest)
      else if c = '-' || c.isDigit then
        match Numeral.read? (c :: cs) with
        | .ok (numeral, rest) => (.number numeral, rest)
        | .error f => (.brokenNumber f, cs)
      else (.broken .expectedValue, c :: cs)

/-- The elements of an array from behind its bracket or behind an element, its end and what follows
it. -/
def readElements : Nat → Bool → List Char → List Source × ArrayEnd × List Char
  | 0, _, cs => ([], .cut, cs)
  | n + 1, first, cs =>
    let element (cs : List Char) : List Source × ArrayEnd × List Char :=
      let (v, rest) := readValue n cs
      let (vs, ending, rest) := readElements n false rest
      (v :: vs, ending, rest)
    match skipSpace cs with
    | [] => ([], .cut, [])
    | ']' :: rest => ([], .closed, rest)
    | c :: rest =>
      if first then element (c :: rest)
      else if c = ',' then
        match skipSpace rest with
        | [] => ([], .cutAtComma, [])
        | ']' :: rest => ([], .trailingComma, rest)
        | rest => element rest
      else ([], .noComma, c :: rest)

def readMembers : Nat → Bool → List Char → List (Quoted × Source) × ObjectEnd × Option Source × List Char
  | 0, _, cs => ([], .cut, none, cs)
  | n + 1, first, cs =>
    let member (cs : List Char) : List (Quoted × Source) × ObjectEnd × Option Source × List Char :=
      match cs with
      | '"' :: cs =>
        let (key, rest) := Quoted.read cs
        match skipSpace rest with
        | ':' :: rest =>
          let (v, rest) := readValue n rest
          let (ms, ending) := readMembers n false rest
          ((key, v) :: ms, ending)
        | [] => ([(key, .broken .endInObject)], .cut, none, [])
        | rest => ([(key, .broken .expectedColon)], .cut, none, rest)
      | cs =>
        let (v, rest) := readValue n cs
        ([], .noKey, some v, rest)
    match skipSpace cs with
    | [] => ([], .cut, none, [])
    | '\x7d' :: rest => ([], .closed, none, rest)
    | c :: rest =>
      if first then member (c :: rest)
      else if c = ',' then
        match skipSpace rest with
        | [] => ([], .cutAtComma, none, [])
        | '\x7d' :: rest => ([], .trailingComma, none, rest)
        | rest => member rest
      else ([], .noComma, none, c :: rest)

end

def read (cs : List Char) : Source × List Char :=
  readValue (2 * cs.length + 2) cs

/-! ### Values as texts -/

mutual

def ofValue : Value → Source
  | .null => .null
  | .bool b => .bool b
  | .number n => .number ⟨false, Nat.toDigits 10 n, [], none⟩
  | .string s => .string ⟨s.toList.map .char, none⟩
  | .array elements => .array (ofElements elements) .closed
  | .object members => .object (ofMembers members) .closed none

def ofElements : List Value → List Source
  | [] => []
  | v :: vs => ofValue v :: ofElements vs

def ofMembers : List (String × Value) → List (Quoted × Source)
  | [] => []
  | (k, v) :: ms => (⟨k.toList.map .char, none⟩, ofValue v) :: ofMembers ms

end

end Source

end Compendium.Json
