/-!
# Characters and pieces of text

Text is handled as a list of characters. This module has the character classes of ASCII, the white
space of Unicode, and the ways of cutting a text that the rest of the library shares.
-/

namespace Compendium.Text

/-! ### Classes of characters -/

/-- The six blanks of ASCII: the space and the controls from tab to carriage return. -/
def isAsciiBlank (c : Char) : Bool :=
  c = ' ' || ('\t' ≤ c && c ≤ '\r')

/-- The blanks that keyboards have keys for: the space, the tab, and the two characters that end
lines. -/
def isLineBlank (c : Char) : Bool :=
  c = ' ' || c = '\t' || c = '\n' || c = '\r'

def isIndent (c : Char) : Bool :=
  c = ' ' || c = '\t'

def isAsciiPunct (c : Char) : Bool :=
  ('!' ≤ c && c ≤ '/') || (':' ≤ c && c ≤ '@') || ('[' ≤ c && c ≤ '\x60') || ('\x7b' ≤ c && c ≤ '~')

/-- The controls of ASCII, of which the last has the highest code. -/
def isAsciiControl (c : Char) : Bool :=
  c < ' ' || c = '\x7f'

def isHexDigit (c : Char) : Bool :=
  c.isDigit || ('a' ≤ c && c ≤ 'f') || ('A' ≤ c && c ≤ 'F')

/-- The value of a hexadecimal digit, and zero for any other character. -/
def hexDigitValue (c : Char) : Nat :=
  if c.isDigit then c.toNat - '0'.toNat
  else if 'a' ≤ c && c ≤ 'f' then c.toNat - 'a'.toNat + 10
  else if 'A' ≤ c && c ≤ 'F' then c.toNat - 'A'.toNat + 10
  else 0

def inRanges (ranges : List (Nat × Nat)) (n : Nat) : Bool :=
  ranges.any fun r => r.1 ≤ n && n ≤ r.2

/-- The twenty-five characters that Unicode calls white space. -/
def blankRanges : List (Nat × Nat) :=
  [(0x9, 0xd), (0x20, 0x20), (0x85, 0x85), (0xa0, 0xa0), (0x1680, 0x1680), (0x2000, 0x200a),
    (0x2028, 0x2029), (0x202f, 0x202f), (0x205f, 0x205f), (0x3000, 0x3000)]

def isBlank (c : Char) : Bool :=
  inRanges blankRanges c.toNat

/-! ### Cutting -/

def dropEndWhile (p : Char → Bool) (cs : List Char) : List Char :=
  (cs.reverse.dropWhile p).reverse

def trim (p : Char → Bool) (cs : List Char) : List Char :=
  dropEndWhile p (cs.dropWhile p)

/-- The pieces of a text between the occurrences of `sep`; there is one more piece than separators.
-/
def split (sep : Char) : List Char → List (List Char)
  | [] => [[]]
  | c :: cs =>
    if c = sep then [] :: split sep cs
    else match split sep cs with
      | [] => [[c]]
      | piece :: pieces => (c :: piece) :: pieces

def dropReturn (line : List Char) : List Char :=
  if line.getLast? = some '\r' then line.dropLast else line

/-- The lines of a text. A line feed ends a line, together with the carriage return before it; what
follows the last line feed is a line only if it is not empty. -/
def lines (cs : List Char) : List (List Char) :=
  match (split '\n' cs).reverse with
  | [] => []
  | last :: ended => (ended.reverse.map dropReturn) ++ (if last.isEmpty then [] else [last])

def join (sep : List Char) (pieces : List (List Char)) : List Char :=
  (pieces.intersperse sep).flatten

theorem join_cons (sep piece : List Char) (pieces : List (List Char)) :
    join sep (piece :: pieces) = piece ++ pieces.flatMap (sep ++ ·) := by
  induction pieces generalizing piece with
  | nil => simp [join]
  | cons piece' pieces ih =>
    have h := ih piece'
    simp only [join, List.intersperse_cons_cons, List.flatten_cons, List.flatMap_cons] at h ⊢
    rw [h, List.append_assoc]

def dropStart? (start : List Char) (cs : List Char) : Option (List Char) :=
  if start.isPrefixOf cs then some (cs.drop start.length) else none

def contains (part : List Char) : List Char → Bool
  | [] => part.isEmpty
  | c :: cs => part.isPrefixOf (c :: cs) || contains part cs

def byteLength (cs : List Char) : Nat :=
  cs.foldl (fun n c => n + c.utf8Size) 0

end Compendium.Text
