/-!
# Decimals of floating-point numbers

A floating-point number is shown with the fewest decimal digits that still tell it from its
neighbours; of several such decimals, by the nearest. All arithmetic here is exact.
-/

namespace Compendium

/-- A positive decimal: `digits` is its significand, read as `0.digits` times ten to the `point`. -/
structure Decimal where
  digits : List Char
  point : Int
deriving Repr

namespace Decimal

/-- A positive double: `significand * 2 ^ exponent`. -/
structure Binary where
  significand : Nat
  exponent : Int
  /-- Whether the next smaller double is only half as far away as the next larger one. -/
  lowerEdge : Bool
deriving Repr

def Binary.ofBits (bits : Nat) : Binary :=
  let fraction := bits % Nat.pow 2 52
  let biased := bits / Nat.pow 2 52
  if biased = 0 then ⟨fraction, -1074, false⟩
  else ⟨Nat.pow 2 52 + fraction, Int.ofNat biased - 1075, fraction = 0 && 1 < biased⟩

structure Interval where
  value : Nat
  below : Nat
  above : Nat
  divisor : Nat
  closed : Bool

def Binary.interval (b : Binary) : Interval :=
  let unit := Nat.pow 2 b.exponent.toNat
  ⟨4 * b.significand * unit, if b.lowerEdge then unit else 2 * unit, 2 * unit,
    4 * Nat.pow 2 (-b.exponent).toNat, b.significand % 2 = 0⟩

def Interval.holds (i : Interval) (n d : Nat) : Bool :=
  let x := n * i.divisor
  let low := (i.value - i.below) * d
  let high := (i.value + i.above) * d
  if i.closed then low ≤ x && x ≤ high else low < x && x < high

/-- The least `p` from `start` on, among `n` candidates, such that the number is below ten to the
`p`. -/
def Interval.pointFrom (i : Interval) : Nat → Int → Int
  | 0, start => start
  | n + 1, start =>
    if i.value * Nat.pow 10 (-start).toNat < i.divisor * Nat.pow 10 start.toNat then start
    else i.pointFrom n (start + 1)

/-- The decimal of `n` digits nearest to a number below ten to the `point`, if it reads back. -/
def Interval.rounded? (i : Interval) (point : Int) (n : Nat) : Option Nat :=
  -- the number counted in units of the last digit is `num / den`
  let shift : Int := n - point
  let num := i.value * Nat.pow 10 shift.toNat
  let den := i.divisor * Nat.pow 10 (-shift).toNat
  let low := num / den
  let reads (k : Nat) : Bool := i.holds (k * Nat.pow 10 (-shift).toNat) (Nat.pow 10 shift.toNat)
  let lowFirst := 2 * (num % den) < den || (2 * (num % den) = den && low % 2 = 0)
  if lowFirst then
    if reads low then some low else if reads (low + 1) then some (low + 1) else none
  else if reads (low + 1) then some (low + 1) else if reads low then some low else none

def significantDigits (k : Nat) : List Char :=
  ((Nat.toDigits 10 k).reverse.dropWhile (· = '0')).reverse

def shortest (b : Binary) : Decimal :=
  let i := b.interval
  let point := i.pointFrom 700 (-330)
  match (List.range 17).findSome? fun n => (i.rounded? point (n + 1)).map fun k => (n + 1, k) with
  | some (n, k) =>
    -- rounding up may have added a digit
    let carried := (Nat.toDigits 10 k).length - n
    ⟨significantDigits k, point + carried⟩
  | none => ⟨['0'], 1⟩

/-! ### Notation -/

/-- Numbers from ten to the `-5` on and below ten to the `16` are written without an exponent, and
with at least one digit on either side of the point. -/
def text (d : Decimal) : List Char :=
  let n : Int := d.digits.length
  if 0 < d.point ∧ d.point ≤ 16 then
    let p := d.point.toNat
    if n ≤ d.point then d.digits ++ List.replicate (p - d.digits.length) '0' ++ ['.', '0']
    else d.digits.take p ++ '.' :: d.digits.drop p
  else if -5 < d.point ∧ d.point ≤ 0 then
    '0' :: '.' :: List.replicate (-d.point).toNat '0' ++ d.digits
  else
    let e := d.point - 1
    let size := Nat.toDigits 10 e.natAbs
    let size := if size.length < 2 then '0' :: size else size
    let head := match d.digits with
      | [c] => [c]
      | c :: cs => c :: '.' :: cs
      | [] => []
    head ++ 'e' :: (if e < 0 then '-' else '+') :: size

def ofFloat (f : Float) : String :=
  let bits := f.toBits.toNat
  let sign := if bits / Nat.pow 2 63 = 1 then ['-'] else []
  let bits := bits % Nat.pow 2 63
  String.ofList (sign ++ if bits = 0 then ['0', '.', '0'] else (shortest (.ofBits bits)).text)

end Decimal

end Compendium
