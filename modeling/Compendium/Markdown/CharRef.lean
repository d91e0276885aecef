import Compendium.Text.Basic

/-!
# Character references

A character reference such as `&amp;` or `&#35;` is kept as it is written. To that end its ampersand
is replaced by a private character before the text is read as Markdown, and put back afterwards.
-/

namespace Compendium.Markdown.CharRef

/-- The private character that stands for the ampersand of a reference. -/
def mark : Char := '\ue000'

/-- Whether a text begins with `low` to `high` characters of a class and a semicolon after them. -/
def endsAfter (p : Char → Bool) (low high : Nat) (cs : List Char) : Bool :=
  let n := (cs.takeWhile p).length
  low ≤ n && n ≤ high && (cs.dropWhile p).head? = some ';'

/-- Whether the text after an ampersand completes a reference: up to seven decimal digits after a
hash, up to six hexadecimal digits after a hash and an `x`, or a name of two to thirty-two
characters. -/
def completes : List Char → Bool
  | '#' :: 'x' :: cs => endsAfter Text.isHexDigit 1 6 cs
  | '#' :: 'X' :: cs => endsAfter Text.isHexDigit 1 6 cs
  | '#' :: cs => endsAfter Char.isDigit 1 7 cs
  | c :: cs => c.isAlpha && endsAfter Char.isAlphanum 1 31 cs
  | [] => false

def shield : List Char → List Char
  | [] => []
  | c :: cs => (if c = '&' && completes cs then mark else c) :: shield cs

def unshield (cs : List Char) : List Char :=
  cs.map fun c => if c = mark then '&' else c

/-! ### References of seven hexadecimal digits

These are too long to be kept as written, and too short to be mere text: they are replaced by the
character they name. -/

/-- The character with a given code point; the replacement character for zero and for what is no
character. -/
def charOfCode (n : Nat) : Char :=
  if n = 0 then '\ufffd' else if h : n.isValidChar then Char.ofNatAux n h else '\ufffd'

def hexValue (ds : List Char) : Nat :=
  ds.foldl (fun n d => 16 * n + Text.hexDigitValue d) 0

/-- The character named by a reference of seven hexadecimal digits, from the text after its
ampersand, and what follows the reference. -/
def long? : List Char → Option (Char × List Char)
  | '#' :: x :: cs =>
    if (x = 'x' || x = 'X') && endsAfter Text.isHexDigit 7 7 cs then
      some (charOfCode (hexValue (cs.takeWhile Text.isHexDigit)), cs.drop 8)
    else none
  | _ => none

def expandLong (cs : List Char) : List Char :=
  go cs.length cs
where
  go : Nat → List Char → List Char
    | 0, cs => cs
    | _, [] => []
    | n + 1, c :: cs =>
      if c = '&' then
        match long? cs with
        | some (named, rest) => named :: go n rest
        | none => c :: go n cs
      else c :: go n cs

end Compendium.Markdown.CharRef
