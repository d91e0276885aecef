import Compendium.Text.Basic

/-!
# Citations

A citation is a list of bibliography keys in square brackets, such as `[knuth84, lamport94]`. It
becomes a `\cite` command if all its keys are known and no link could be meant, that is, if neither
a parenthesis nor another bracket opens right behind it.
-/

namespace Compendium

structure Bibliography where
  keys : List String
deriving DecidableEq, Repr

namespace Citation

def isKeyChar (c : Char) : Bool :=
  !(c = '[' || c = ']' || c = ',' || Text.isBlank c)

def isKey (cs : List Char) : Bool :=
  !cs.isEmpty && cs.all isKeyChar

/-- The keys between two brackets, if there is nothing else but a comma between any two of them,
with or without white space around it. -/
def keys? (body : List Char) : Option (List (List Char)) :=
  let keys := (Text.split ',' body).map (Text.trim Text.isBlank)
  if keys.all isKey && !body.head?.any Text.isBlank && !body.getLast?.any Text.isBlank then some keys
  else none

def isBracket (c : Char) : Bool :=
  c = '[' || c = ']'

/-- The citation that a bracket begins, from behind it: the keys and what follows the closing
bracket. -/
def token? (cs : List Char) : Option (List (List Char) × List Char) :=
  match cs.dropWhile (!isBracket ·) with
  | ']' :: rest => (keys? (cs.takeWhile (!isBracket ·))).map fun keys => (keys, rest)
  | _ => none

/-- Whether what follows a closing bracket makes it the end of a link text. -/
def opensTarget (rest : List Char) : Bool :=
  rest.head? = some '(' || rest.head? = some '['

def command (keys : List (List Char)) : List Char :=
  "\\cite\x7b".toList ++ Text.join [','] keys ++ ['\x7d']

def known? (known : List (List Char)) (cs : List Char) : Option (List (List Char) × List Char) :=
  (token? cs).filter fun (keys, rest) => keys.all known.contains && !opensTarget rest

theorem length_token?_lt {cs rest : List Char} {keys : List (List Char)}
    (h : token? cs = some (keys, rest)) : rest.length < cs.length := by
  have hle := (List.dropWhile_sublist (fun c => !isBracket c) (l := cs)).length_le
  unfold token? at h
  split at h
  · rename_i hd
    simp only [Option.map_eq_some_iff, Prod.mk.injEq] at h
    obtain ⟨_, -, -, rfl⟩ := h
    rw [hd, List.length_cons] at hle
    omega
  · simp at h

theorem length_known?_lt {known : List (List Char)} {cs rest : List Char} {keys : List (List Char)}
    (h : known? known cs = some (keys, rest)) : rest.length < cs.length :=
  length_token?_lt (Option.filter_eq_some_iff.1 h).1

def resolveKeys (known : List (List Char)) : List Char → List Char
  | [] => []
  | c :: cs =>
    if c = '[' then
      match _h : known? known cs with
      | some (keys, rest) => command keys ++ resolveKeys known rest
      | none => c :: resolveKeys known cs
    else c :: resolveKeys known cs
termination_by cs => cs.length
decreasing_by
  · have := length_known?_lt _h
    simp only [List.length_cons]
    omega
  · simp
  · simp

end Citation

/-- The text with its citations replaced. With an empty bibliography nothing is. -/
def Bibliography.resolve (b : Bibliography) (cs : List Char) : List Char :=
  Citation.resolveKeys (b.keys.map String.toList) cs

end Compendium
