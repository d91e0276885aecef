import Compendium.Proofs.References

/-!
# Brackets in LaTeX

Two kinds of brackets have to match in LaTeX: braces, and the commands that begin and end environments.
Both come in sequences of ends of pairs, and a sequence is nested if a reader who keeps a stack of the open
pairs comes through it (`Nested`). What is nested can stand beside and inside one another
(`Nested.append`, `Nested.pair`). For a text the braces are read off character by character (`braces`), and
the environments wherever their commands stand (`environments`).

Only a backslash and the braces matter for this. A text can be cut up and put together again as long as
these stay in their order (`specials`).
-/

namespace Compendium

open Markdown.Latex (command)

/-! ### Sequences of brackets -/

/-- One end of a pair that bears a label. -/
inductive Delimiter (α : Type) where
  | opens (label : α)
  | closes (label : α)
deriving DecidableEq

namespace Delimiter

variable {α : Type} [DecidableEq α] {a : α} {bs bs' : List (Delimiter α)} {stack stack' : List α}

/-- The labels of the pairs that are open after a bracket. Only the innermost pair can be closed. -/
def step (stack : List α) : Delimiter α → Option (List α)
  | opens a => some (a :: stack)
  | closes a => match stack with
    | [] => none
    | b :: stack => if b = a then some stack else none

def run (stack : List α) (bs : List (Delimiter α)) : Option (List α) := bs.foldlM step stack

/-- Each pair that is opened is closed, and two pairs lie beside or inside one another. -/
def Nested (bs : List (Delimiter α)) : Prop := run [] bs = some []

instance (bs : List (Delimiter α)) : Decidable (Nested bs) := inferInstanceAs (Decidable (_ = _))

theorem run_cons (b : Delimiter α) : run stack (b :: bs) = (step stack b).bind fun stack => run stack bs :=
  List.foldlM_cons

theorem run_append : run stack (bs ++ bs') = (run stack bs).bind fun stack => run stack bs' :=
  List.foldlM_append

/-- What is open from before makes no difference. -/
theorem run_below (h : run stack bs = some stack') (below : List α) :
    run (stack ++ below) bs = some (stack' ++ below) := by
  induction bs generalizing stack with
  | nil =>
    obtain rfl : stack = stack' := Option.some.inj h
    rfl
  | cons b bs ih =>
    rw [run_cons] at h ⊢
    obtain ⟨next, hstep, hrun⟩ := Option.bind_eq_some_iff.mp h
    have hbelow : step (stack ++ below) b = some (next ++ below) := by
      cases b with
      | opens a =>
        obtain rfl : a :: stack = next := Option.some.inj hstep
        rfl
      | closes a =>
        cases stack with
        | nil => cases hstep
        | cons top stack =>
          simp only [step, Option.ite_none_right_eq_some, Option.some.injEq] at hstep
          obtain ⟨rfl, rfl⟩ := hstep
          simp [step]
    rw [hbelow]
    exact ih hrun

namespace Nested

theorem nil : Nested ([] : List (Delimiter α)) := rfl

theorem run_eq (h : Nested bs) (stack : List α) : run stack bs = some stack := run_below h stack

theorem append (h : Nested bs) (h' : Nested bs') : Nested (bs ++ bs') := by
  rw [Nested, run_append, h.run_eq]
  exact h'

theorem pair (a : α) (h : Nested bs) : Nested (opens a :: bs ++ [closes a]) := by
  rw [Nested, List.cons_append, run_cons, step, Option.bind_some, run_append, h.run_eq]
  simp [run, step]

end Nested

end Delimiter

open Delimiter

/-! ### Braces -/

namespace Text

variable {sep c : Char} {cs cs' part : List Char}

/-- A brace is a bracket without a label. -/
def brace? (c : Char) : Option (Delimiter Unit) :=
  if c = '\x7b' then some (.opens ()) else if c = '\x7d' then some (.closes ()) else none

def braces (cs : List Char) : List (Delimiter Unit) := cs.filterMap brace?

/-- The braces of a text match. -/
def BracesMatch (cs : List Char) : Prop := Nested (braces cs)

instance (cs : List Char) : Decidable (BracesMatch cs) := inferInstanceAs (Decidable (Nested _))

theorem braces_append (cs cs' : List Char) : braces (cs ++ cs') = braces cs ++ braces cs' :=
  List.filterMap_append

theorem BracesMatch.append (h : BracesMatch cs) (h' : BracesMatch cs') : BracesMatch (cs ++ cs') := by
  rw [BracesMatch, braces_append]
  exact Nested.append h h'

theorem BracesMatch.group (h : BracesMatch cs) : BracesMatch ('\x7b' :: cs ++ ['\x7d']) := by
  rw [BracesMatch, braces_append]
  exact Nested.pair () h

/-! ### Special characters -/

/-- The characters that commands are made with. -/
def isSpecial (c : Char) : Bool := c = '\\' || c = '\x7b' || c = '\x7d'

/-- The special characters of a text, in their order. -/
def specials (cs : List Char) : List Char := cs.filter isSpecial

theorem specials_append (cs cs' : List Char) : specials (cs ++ cs') = specials cs ++ specials cs' :=
  List.filter_append ..

theorem specials_cons_of_not (hc : isSpecial c = false) (cs : List Char) : specials (c :: cs) = specials cs :=
  List.filter_cons_of_neg (by simp [hc])

theorem specials_eq_nil_iff : specials cs = [] ↔ '\\' ∉ cs ∧ '\x7b' ∉ cs ∧ '\x7d' ∉ cs := by
  rw [specials, List.filter_eq_nil_iff]
  constructor
  · exact fun h => ⟨fun hmem => h _ hmem rfl, fun hmem => h _ hmem rfl, fun hmem => h _ hmem rfl⟩
  · rintro ⟨hbackslash, hopen, hclose⟩ c hc hspecial
    simp only [isSpecial, Bool.or_eq_true, decide_eq_true_eq] at hspecial
    obtain (rfl | rfl) | rfl := hspecial
    exacts [hbackslash hc, hopen hc, hclose hc]

/-- A kind of characters to which no special one belongs. -/
theorem specials_eq_nil_of_forall {p : Char → Bool} (h : ∀ c ∈ cs, p c = true)
    (hbackslash : p '\\' = false) (hopen : p '\x7b' = false) (hclose : p '\x7d' = false) : specials cs = [] := by
  have hother {c : Char} (hc : p c = false) : c ∉ cs := fun hmem => Bool.false_ne_true (hc.symm.trans (h c hmem))
  exact specials_eq_nil_iff.mpr ⟨hother hbackslash, hother hopen, hother hclose⟩

theorem braces_specials (cs : List Char) : braces (specials cs) = braces cs := by
  rw [braces, specials, List.filterMap_filter, braces]
  refine List.filterMap_congr fun c _ => ?_
  by_cases hc : isSpecial c = true
  · rw [if_pos hc]
  · have hbrace : c ≠ '\x7b' ∧ c ≠ '\x7d' := by
      constructor <;> rintro rfl <;> exact hc rfl
    rw [if_neg hc, brace?, if_neg hbrace.1, if_neg hbrace.2]

theorem specials_dropWhile (hc : isSpecial c = false) (cs : List Char) :
    specials (cs.dropWhile (· = c)) = specials cs := by
  induction cs with
  | nil => rfl
  | cons x cs ih =>
    by_cases hx : x = c
    · rw [List.dropWhile_cons_of_pos (by simpa using hx), ih, hx, specials_cons_of_not hc]
    · rw [List.dropWhile_cons_of_neg (by simpa using hx)]

theorem specials_dropEndWhile (hc : isSpecial c = false) (cs : List Char) :
    specials (dropEndWhile (· = c) cs) = specials cs := by
  have hdrop := specials_dropWhile hc cs.reverse
  rw [dropEndWhile, specials, List.filter_reverse]
  rw [specials, specials, List.filter_reverse] at hdrop
  rw [hdrop, List.reverse_reverse, specials]

/-- Pieces of a text have its special characters, unless one of these was what it was cut at. -/
theorem specials_split (hsep : isSpecial sep = false) (cs : List Char) :
    (split sep cs).flatMap specials = specials cs := by
  induction cs with
  | nil => rfl
  | cons c cs ih =>
    by_cases hc : c = sep
    · rw [hc, split_cons_sep, List.flatMap_cons, ih, specials_cons_of_not hsep]
      rfl
    · obtain ⟨piece, pieces, hpieces⟩ := List.exists_cons_of_ne_nil (split_ne_nil sep cs)
      rw [split_cons_of_ne hc, hpieces, List.modifyHead_cons, List.flatMap_cons]
      rw [hpieces, List.flatMap_cons] at ih
      rw [← List.singleton_append, specials_append, List.append_assoc, ih, ← specials_append,
        List.singleton_append]

theorem specials_join {sep : List Char} (hsep : specials sep = []) (pieces : List (List Char)) :
    specials (join sep pieces) = pieces.flatMap specials := by
  induction pieces with
  | nil => rfl
  | cons piece pieces ih =>
    cases pieces with
    | nil => simp [join]
    | cons piece' pieces =>
      rw [join_cons_cons, specials_append, specials_append, hsep, List.append_nil, ih]
      rfl

theorem specials_dropReturn (line : List Char) : specials (dropReturn line) = specials line := by
  unfold dropReturn
  split
  · rename_i h
    obtain ⟨front, rfl⟩ := List.getLast?_eq_some_iff.mp h
    rw [List.dropLast_concat, specials_append]
    exact (List.append_nil _).symm
  · rfl

theorem specials_lines (cs : List Char) : (lines cs).flatMap specials = specials cs := by
  obtain ⟨ended, last, hsplit⟩ := exists_split_eq '\n' cs
  have hlast : (if last.isEmpty then [] else [last]).flatMap specials = [last].flatMap specials := by
    split
    · rename_i hempty
      rw [List.isEmpty_iff.mp hempty]
      rfl
    · rfl
  rw [← specials_split (show isSpecial '\n' = false from rfl) cs, lines_of_split hsplit, hsplit,
    List.flatMap_append, List.flatMap_append, hlast, List.flatMap_map]
  simp only [specials_dropReturn]

theorem flatMap_specials_filter (pieces : List (List Char)) :
    (pieces.filter (!·.isEmpty)).flatMap specials = pieces.flatMap specials := by
  induction pieces with
  | nil => rfl
  | cons piece pieces ih =>
    cases piece with
    | nil => exact ih
    | cons c cs => exact congrArg (specials (c :: cs) ++ ·) ih

/-! ### Environments -/

/-- How a command with an argument starts. -/
def commandStart (name : String) : List Char := '\\' :: (name.toList ++ ['\x7b'])

/-- The end of an environment that a text starts with. Its label is the name between the braces. -/
def environment? (cs : List Char) : Option (Delimiter (List Char)) :=
  ((dropStart? (commandStart "begin") cs).map fun rest => .opens (rest.takeWhile (· ≠ '\x7d'))).or
    ((dropStart? (commandStart "end") cs).map fun rest => .closes (rest.takeWhile (· ≠ '\x7d')))

/-- The commands in a text that begin and end environments. -/
def environments : List Char → List (Delimiter (List Char))
  | [] => []
  | c :: cs => (environment? (c :: cs)).toList ++ environments cs

theorem environments_append_of_not_mem (h : '\\' ∉ part) (rest : List Char) :
    environments (part ++ rest) = environments rest := by
  induction part with
  | nil => rfl
  | cons c part ih =>
    obtain ⟨hc, hpart⟩ := not_or.mp (List.mem_cons.not.mp h)
    have hnone : environment? (c :: part ++ rest) = none := by
      simp [environment?, dropStart?, commandStart, List.isPrefixOf, hc]
    rw [List.cons_append, environments, ← List.cons_append, hnone]
    exact ih hpart

theorem dropStart?_append (start rest : List Char) : dropStart? start (start ++ rest) = some rest := by
  rw [dropStart?, if_pos (List.isPrefixOf_iff_prefix.mpr (List.prefix_append start rest)), List.drop_left]

theorem takeWhile_label {name : List Char} (h : specials name = []) (rest : List Char) :
    (name ++ '\x7d' :: rest).takeWhile (· ≠ '\x7d') = name := by
  have hname : ∀ c ∈ name, decide (c ≠ '\x7d') = true := by
    rintro c hc
    refine decide_eq_true ?_
    rintro rfl
    exact (specials_eq_nil_iff.mp h).2.2 hc
  rw [List.takeWhile_append_of_pos hname, List.takeWhile_cons_of_neg (by simp), List.append_nil]

/-- A command at one end of an environment is found, and nothing else up to its end. -/
theorem environments_command {word : String} {name rest : List Char} {b : Delimiter (List Char)}
    (hword : '\\' ∉ word.toList) (hname : specials name = [])
    (h : environment? (commandStart word ++ (name ++ '\x7d' :: rest)) = some b) :
    environments (command word [name] ++ rest) = b :: environments rest := by
  have hsplit : command word [name] ++ rest =
      '\\' :: ((word.toList ++ '\x7b' :: name ++ ['\x7d']) ++ rest) := by
    simp [command]
  have hstart : '\\' :: ((word.toList ++ '\x7b' :: name ++ ['\x7d']) ++ rest) =
      commandStart word ++ (name ++ '\x7d' :: rest) := by
    simp [commandStart]
  have hinside : '\\' ∉ word.toList ++ '\x7b' :: name ++ ['\x7d'] := by
    simpa [hword] using (specials_eq_nil_iff.mp hname).1
  rw [hsplit, environments, hstart, h, environments_append_of_not_mem hinside]
  rfl

theorem environments_begin {name : List Char} (h : specials name = []) (rest : List Char) :
    environments (command "begin" [name] ++ rest) = .opens name :: environments rest := by
  refine environments_command (by decide) h ?_
  rw [environment?, dropStart?_append, Option.map_some, takeWhile_label h, Option.some_or]

theorem environments_end {name : List Char} (h : specials name = []) (rest : List Char) :
    environments (command "end" [name] ++ rest) = .closes name :: environments rest := by
  refine environments_command (by decide) h ?_
  have hbegin : dropStart? (commandStart "begin") (commandStart "end" ++ (name ++ '\x7d' :: rest)) = none := rfl
  rw [environment?, hbegin, dropStart?_append, Option.map_some, takeWhile_label h, Option.map_none,
    Option.none_or]

/-- The name of a command, made of letters, that is not the start of `begin` or `end`. -/
def isPlainCommand (name : String) : Bool :=
  name.toList.all Char.isAlpha && !name.toList.isPrefixOf "begin".toList && !name.toList.isPrefixOf "end".toList

theorem isAlpha_of_isPlainCommand {name : String} (h : isPlainCommand name = true) :
    ∀ c ∈ name.toList, c.isAlpha = true := by
  simp only [isPlainCommand, Bool.and_eq_true, List.all_eq_true] at h
  exact h.1.1

theorem specials_plainCommand {name : String} (h : isPlainCommand name = true) :
    specials ('\\' :: name.toList) = ['\\'] := by
  have hname : specials name.toList = [] :=
    specials_eq_nil_of_forall (isAlpha_of_isPlainCommand h) (by decide) (by decide) (by decide)
  exact congrArg ('\\' :: ·) hname

/-- Letters that do not start a word are not mistaken for it, whatever follows. -/
theorem not_prefix_of_letters {word letters : List Char} (hletters : ∀ c ∈ letters, c.isAlpha = true)
    (hword : ¬ letters <+: word) (rest : List Char) : ¬ word ++ ['\x7b'] <+: letters ++ rest := by
  intro h
  rcases List.prefix_or_prefix_of_prefix h (List.prefix_append letters rest) with hstart | hstart
  · exact Bool.false_ne_true (hletters '\x7b' (hstart.subset (by simp)))
  · rcases List.prefix_concat_iff.mp hstart with heq | hstart
    · exact Bool.false_ne_true (hletters '\x7b' (heq ▸ by simp))
    · exact hword hstart

theorem environments_plainCommand {name : String} (h : isPlainCommand name = true) (rest : List Char) :
    environments ('\\' :: name.toList ++ rest) = environments rest := by
  have hletters := isAlpha_of_isPlainCommand h
  simp only [isPlainCommand, Bool.and_eq_true, Bool.not_eq_true', ← Bool.not_eq_true,
    List.isPrefixOf_iff_prefix] at h
  obtain ⟨⟨-, hbegin⟩, hend⟩ := h
  have hnone {word : String} (hword : ¬ name.toList <+: word.toList) :
      dropStart? (commandStart word) ('\\' :: (name.toList ++ rest)) = none := by
    rw [dropStart?, if_neg]
    rw [List.isPrefixOf_iff_prefix, commandStart, List.cons_prefix_cons]
    exact fun h => not_prefix_of_letters hletters hword rest h.2
  have hbackslash : '\\' ∉ name.toList := fun hmem => Bool.false_ne_true (hletters _ hmem)
  rw [List.cons_append, environments, environment?, hnone hbegin, hnone hend,
    environments_append_of_not_mem hbackslash]
  rfl

example : environments "a \\begin\x7bb\x7d\\item\\end\x7bb\x7d c".toList = [.opens ['b'], .closes ['b']] := by
  decide +kernel

end Text

end Compendium
