import Compendium.Markdown.Document
import Compendium.Text.Punctuation

/-!
# Emphasis

Runs of marks open and close stretches of set-off text. Which run goes with which is settled from
left to right: each run that may close looks for the nearest run before it that may open and goes
with it.
-/

namespace Compendium.Markdown

/-- A run of equal marks. `width` is its length as written, `count` the number of marks still free.
-/
structure Run where
  mark : Char
  count : Nat
  width : Nat
  opens : Bool
  closes : Bool
deriving Repr

inductive Piece where
  | inline (i : Inline)
  | run (r : Run)
deriving Repr

namespace Run

/-- Whether the characters before and after a run let it open and close. Both ends of a text count
as blank. -/
def flanks (before after : Char) : Bool × Bool :=
  let softBefore := Text.isBlank before || Text.isPunctuation before
  let softAfter := Text.isBlank after || Text.isPunctuation after
  let left := !Text.isBlank after && (!Text.isPunctuation after || softBefore)
  let right := !Text.isBlank before && (!Text.isPunctuation before || softAfter)
  (left, right)

/-- The run of `count` marks between two characters. An underscore inside a word neither opens nor
closes. -/
def between (mark : Char) (count : Nat) (before after : Char) : Run :=
  let (left, right) := flanks before after
  if mark = '_' then
    ⟨mark, count, count, left && (!right || Text.isPunctuation before),
      right && (!left || Text.isPunctuation after)⟩
  else ⟨mark, count, count, left, right⟩

/-- Whether two runs may not go together because one of them could do both and their lengths add up
to a multiple of three without being such multiples. -/
def clashes (opener closer : Run) : Bool :=
  (closer.opens || opener.closes) && (opener.width + closer.width) % 3 = 0 &&
    !(opener.width % 3 = 0 && closer.width % 3 = 0)

def pairsWith (opener closer : Run) : Bool :=
  opener.opens && opener.mark = closer.mark && !opener.clashes closer

def text (r : Run) : Inline := .text (List.replicate r.count r.mark)

def style (mark : Char) (n : Nat) : Style :=
  if mark = '~' then .strike
  else if n = 1 then .emphasis
  else if mark = '_' then .underline
  else .strong

end Run

namespace Piece

def settle : Piece → Inline
  | .inline i => i
  | .run r => r.text

/-- The nearest run that may open what `closer` closes, with the pieces between the two and the
pieces before it. All pieces are listed from the last to the first. -/
def findOpener (closer : Run) : List Piece → Option (List Piece × Run × List Piece)
  | [] => none
  | .inline i :: rest =>
    (findOpener closer rest).map fun (inner, opener, outer) => (.inline i :: inner, opener, outer)
  | .run r :: rest =>
    if r.pairsWith closer then some ([], r, rest)
    else (findOpener closer rest).map fun (inner, opener, outer) => (.run r :: inner, opener, outer)

/-- The pieces with one more run, which may close others. The second component tells whether the
rest of the text is to be left as it is: that is so where tildes meet tildes of another number. -/
def close (stack : List Piece) (r : Run) : List Piece × Bool :=
  match if r.closes then findOpener r stack else none with
  | none => ((if r.opens then .run r else .inline r.text) :: stack, false)
  | some (inner, opener, outer) =>
    let n := if 2 ≤ opener.count ∧ 2 ≤ r.count then 2 else 1
    if r.mark = '~' ∧ (opener.count - n ≠ r.count - n ∨ 0 < opener.count - n) then
      (.inline r.text :: stack, true)
    else
      let outer := if opener.count ≤ n then outer
        else .run { opener with count := opener.count - n } :: outer
      let stack := .inline (.styled (Run.style r.mark n) (inner.reverse.map settle)) :: outer
      if r.count ≤ n then (stack, false) else close stack { r with count := r.count - n }
termination_by r.count
decreasing_by
  simp only [Nat.not_le] at *
  split at * <;> simp_all <;> omega

/-- The running text whose pieces are `stack`, from the last to the first, and then the given ones.
-/
def resolveFrom (stack : List Piece) : List Piece → List Inline
  | [] => stack.reverse.map settle
  | .inline i :: rest => resolveFrom (.inline i :: stack) rest
  | .run r :: rest =>
    match close stack r with
    | (stack, false) => resolveFrom stack rest
    | (stack, true) => (stack.reverse ++ rest).map settle

def resolve (pieces : List Piece) : List Inline :=
  resolveFrom [] pieces

end Piece

end Compendium.Markdown
