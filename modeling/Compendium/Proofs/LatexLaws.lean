import Compendium.Proofs.Brackets
import Compendium.Proofs.Json.Tokens

/-!
# Laws of LaTeX

LaTeX is put together of fixed commands and of strings that are copied. A property of texts is kept by this
if it is kept by putting texts behind one another, into the arguments of commands and into environments
(`LatexLaw`). There are two such laws. Braces match in the whole if they match in each copied string
(`bracesMatch_law`). And if copied strings have no special characters, then environments are nested
(`tidy_law`): all commands that begin and end them are written in pairs then.

A law still holds when character references are put back in the end (`LatexLaw.unshield`).
-/

namespace Compendium

open Delimiter Text
open Markdown.Latex (command)

/-- If `Copy` holds of what is copied, then `Fits` holds of what is written. Of a copied string only its
special characters matter. -/
structure LatexLaw (Copy Fits : List Char → Prop) : Prop where
  copy_nil : Copy []
  copy_append {cs cs' : List Char} : Copy cs → Copy cs' → Copy (cs ++ cs')
  copy_congr {cs cs' : List Char} : specials cs' = specials cs → Copy cs → Copy cs'
  of_copy {cs : List Char} : Copy cs → Fits cs
  append {cs cs' : List Char} : Fits cs → Fits cs' → Fits (cs ++ cs')
  plainCommand {name : String} {args : List (List Char)} :
    isPlainCommand name = true → (∀ arg ∈ args, Fits arg) → Fits (command name args)
  environment {name body : List Char} :
    Copy name → Fits body → Fits (command "begin" [name] ++ body ++ command "end" [name])

theorem bracesMatch_command {name : String} {args : List (List Char)} (hname : specials ('\\' :: name.toList) = ['\\'])
    (hargs : ∀ arg ∈ args, BracesMatch arg) : BracesMatch (command name args) := by
  have hstart : BracesMatch ('\\' :: name.toList) := by
    rw [BracesMatch, ← braces_specials, hname]
    exact Nested.nil
  refine hstart.append ?_
  induction args with
  | nil => exact Nested.nil
  | cons arg args ih =>
    rw [List.forall_mem_cons] at hargs
    exact hargs.1.group.append (ih hargs.2)

/-- Braces match in what is written if they do in each string that is copied. -/
theorem bracesMatch_law : LatexLaw BracesMatch BracesMatch where
  copy_nil := Nested.nil
  copy_append := BracesMatch.append
  copy_congr := by
    intro cs cs' h hcs
    rwa [BracesMatch, ← braces_specials, h, braces_specials]
  of_copy := id
  append := BracesMatch.append
  plainCommand := fun hname hargs => bracesMatch_command (specials_plainCommand hname) hargs
  environment := by
    intro name body hname hbody
    have hone : ∀ arg ∈ [name], BracesMatch arg := fun arg harg => List.mem_singleton.mp harg ▸ hname
    exact ((bracesMatch_command (by decide) hone).append hbody).append (bracesMatch_command (by decide) hone)

/-- The environments of a text are nested, and it is no part of the name of another one. -/
def Tidy (cs : List Char) : Prop :=
  ∃ bs, Nested bs ∧ ∀ rest, environments (cs ++ rest) = bs ++ environments rest

namespace Tidy

variable {cs cs' : List Char}

theorem nested (h : Tidy cs) : Nested (environments cs) := by
  obtain ⟨bs, hbs, hcs⟩ := h
  have hall := hcs []
  rw [List.append_nil, environments, List.append_nil] at hall
  exact hall ▸ hbs

theorem of_not_mem (h : '\\' ∉ cs) : Tidy cs :=
  ⟨[], Nested.nil, environments_append_of_not_mem h⟩

theorem append (h : Tidy cs) (h' : Tidy cs') : Tidy (cs ++ cs') := by
  obtain ⟨bs, hbs, hcs⟩ := h
  obtain ⟨bs', hbs', hcs'⟩ := h'
  refine ⟨bs ++ bs', hbs.append hbs', fun rest => ?_⟩
  rw [List.append_assoc, hcs, hcs', List.append_assoc]

theorem plainCommand {name : String} {args : List (List Char)} (hname : isPlainCommand name = true)
    (hargs : ∀ arg ∈ args, Tidy arg) : Tidy (command name args) := by
  have hstart : Tidy ('\\' :: name.toList) := ⟨[], Nested.nil, environments_plainCommand hname⟩
  refine hstart.append ?_
  induction args with
  | nil => exact of_not_mem List.not_mem_nil
  | cons arg args ih =>
    rw [List.forall_mem_cons] at hargs
    have hbraces : Tidy ['\x7b'] ∧ Tidy ['\x7d'] := ⟨of_not_mem (by decide), of_not_mem (by decide)⟩
    exact ((hbraces.1.append hargs.1).append hbraces.2).append (ih hargs.2)

theorem environment {name body : List Char} (hname : specials name = []) (hbody : Tidy body) :
    Tidy (command "begin" [name] ++ body ++ command "end" [name]) := by
  obtain ⟨bs, hbs, hcs⟩ := hbody
  refine ⟨.opens name :: bs ++ [.closes name], hbs.pair name, fun rest => ?_⟩
  rw [List.append_assoc, List.append_assoc, environments_begin hname, hcs, environments_end hname]
  simp

end Tidy

/-- Environments are nested in what is written if no string that is copied has a special character. -/
theorem tidy_law : LatexLaw (fun cs => specials cs = []) Tidy where
  copy_nil := rfl
  copy_append := by
    intro cs cs' h h'
    rw [specials_append, h, h']
    rfl
  copy_congr := fun h hcs => h.trans hcs
  of_copy := fun h => .of_not_mem ((specials_eq_nil_iff.mp h).1)
  append := Tidy.append
  plainCommand := Tidy.plainCommand
  environment := Tidy.environment

/-! ### Texts put together -/

namespace Markdown.CharRef

theorem unshield_append (cs cs' : List Char) : unshield (cs ++ cs') = unshield cs ++ unshield cs' :=
  List.map_append

theorem specials_unshield (cs : List Char) : specials (unshield cs) = specials cs := by
  induction cs with
  | nil => rfl
  | cons c cs ih =>
    by_cases hc : c = mark
    · rw [hc, specials_cons_of_not (show isSpecial mark = false from rfl), ← ih]
      rfl
    · have hcons : unshield (c :: cs) = c :: unshield cs := congrArg (· :: unshield cs) (if_neg hc)
      rw [hcons, ← List.singleton_append, specials_append, ih, ← specials_append, List.singleton_append]

theorem unshield_of_letters {letters : List Char} (h : ∀ c ∈ letters, c.isAlpha = true) :
    unshield letters = letters := by
  have hsame : ∀ c ∈ letters, (if c = mark then '&' else c) = c := by
    rintro c hc
    refine if_neg ?_
    rintro rfl
    exact Bool.false_ne_true (h _ hc)
  rw [unshield, List.map_congr_left hsame, List.map_id']

theorem unshield_command {name : String} (h : unshield name.toList = name.toList) (args : List (List Char)) :
    unshield (command name args) = command name (args.map unshield) := by
  have hstart : unshield ('\\' :: name.toList) = '\\' :: name.toList := congrArg ('\\' :: ·) h
  rw [command, unshield_append, hstart, command]
  refine congrArg _ ?_
  induction args with
  | nil => rfl
  | cons arg args ih =>
    have hgroup : unshield ('\x7b' :: arg ++ ['\x7d']) = '\x7b' :: unshield arg ++ ['\x7d'] := unshield_append ..
    rw [List.flatMap_cons, unshield_append, ih, hgroup, List.map_cons, List.flatMap_cons]

end Markdown.CharRef

theorem specials_toDigits (n : Nat) : specials (Nat.toDigits 10 n) = [] := by
  have hdigits : ∀ c ∈ Nat.toDigits 10 n, c.isDigit = true := fun c hc => Json.Numeral.isDigit_of_mem_toDigits hc
  exact specials_eq_nil_of_forall hdigits (by decide) (by decide) (by decide)

theorem Range.specials_text (r : Range) : specials r.text = [] := by
  have hposition (p : Position) : specials p.text = [] := by
    rw [Position.text, specials_append, specials_toDigits, specials_cons_of_not rfl, specials_toDigits]
    rfl
  rw [Range.text, specials_append, hposition, specials_cons_of_not rfl, hposition]
  rfl

theorem Name.flatMap_specials_segments (n : Name) : n.segments.flatMap specials = specials n.text.toList := by
  rw [segments, flatMap_specials_filter, specials_split rfl]

theorem specials_documentPath (root : String) (kind : Kind) (n : Name) :
    specials (documentPath root kind n Format.latex.extension) = specials (root.toList ++ n.text.toList) := by
  have hroot : specials (dropEndWhile (· = '/') root.toList) = specials root.toList :=
    specials_dropEndWhile rfl _
  have hdirectory : specials kind.directory.toList = [] := by cases kind <;> decide
  have hextension : specials ('.' :: Format.latex.extension.toList) = [] := by decide
  rw [documentPath, specials_append, hextension, List.append_nil, specials_join rfl, specials_append,
    List.flatMap_append, List.flatMap_cons, hdirectory, List.nil_append, n.flatMap_specials_segments, ← hroot]
  refine congrArg (· ++ _) ?_
  split
  · rename_i hempty
    rw [List.isEmpty_iff.mp hempty]
    rfl
  · exact List.append_nil _

theorem LatexRenderer.specials_sourceComment (r : LatexRenderer) (l : Location) :
    specials (r.sourceComment (some l)) = specials (l.module.text.toList ++ r.config.sourceExtension.toList) := by
  have hrange : specials ((l.range.map Range.text).getD []) = [] := by
    cases l.range with
    | none => rfl
    | some range => exact range.specials_text
  have hfile : specials (join ['/'] l.module.segments ++ '.' :: r.config.sourceExtension.toList) =
      specials (l.module.text.toList ++ r.config.sourceExtension.toList) := by
    rw [specials_append, specials_join rfl, l.module.flatMap_specials_segments, specials_cons_of_not rfl,
      specials_append]
  have hcomment (file range : List Char) (h : specials range = []) :
      specials ('\n' :: '%' :: ' ' :: file ++ ':' :: range) = specials file := by
    rw [List.cons_append, specials_cons_of_not rfl, List.cons_append, specials_cons_of_not rfl, List.cons_append,
      specials_cons_of_not rfl, specials_append, specials_cons_of_not rfl, h, List.append_nil]
  exact (hcomment _ _ hrange).trans hfile

theorem Markdown.Latex.specials_dropLineEnds (literal : List Char) :
    specials (dropLineEnds literal) = specials literal :=
  specials_dropEndWhile rfl literal

theorem Markdown.Latex.specials_codeText (literal : List Char) : specials (codeText literal) = specials literal := by
  rw [codeText, specials_join rfl, specials_lines, specials_dropLineEnds]

namespace LatexLaw

variable {Copy Fits : List Char → Prop} {cs sep : List Char} {pieces : List (List Char)}

theorem copy_plain (law : LatexLaw Copy Fits) (h : specials cs = []) : Copy cs := by
  have hnil : specials cs = specials [] := h
  exact law.copy_congr hnil law.copy_nil

theorem plain (law : LatexLaw Copy Fits) (h : specials cs = []) : Fits cs := law.of_copy (law.copy_plain h)

theorem of_specials (law : LatexLaw Copy Fits) {cs' : List Char} (h : specials cs' = specials cs) (hcs : Copy cs) :
    Fits cs' := law.of_copy (law.copy_congr h hcs)

/-- A command with one argument. -/
theorem commandOf (law : LatexLaw Copy Fits) {name : String} {arg : List Char} (hname : isPlainCommand name = true)
    (harg : Fits arg) : Fits (command name [arg]) :=
  law.plainCommand hname (List.forall_mem_singleton.mpr harg)

theorem join (law : LatexLaw Copy Fits) (hsep : specials sep = []) (h : ∀ piece ∈ pieces, Fits piece) :
    Fits (join sep pieces) := by
  induction pieces with
  | nil => exact law.plain rfl
  | cons piece pieces ih =>
    obtain ⟨hpiece, hpieces⟩ := List.forall_mem_cons.mp h
    cases pieces with
    | nil => simpa [Text.join] using hpiece
    | cons piece' pieces =>
      rw [join_cons_cons]
      exact law.append (law.append hpiece (law.plain hsep)) (ih hpieces)

theorem unshield (law : LatexLaw Copy Fits) : LatexLaw Copy fun cs => Fits (Markdown.CharRef.unshield cs) where
  copy_nil := law.copy_nil
  copy_append := law.copy_append
  copy_congr := law.copy_congr
  of_copy := fun {cs} h => law.of_specials (Markdown.CharRef.specials_unshield cs) h
  append := by
    intro cs cs' h h'
    rw [Markdown.CharRef.unshield_append]
    exact law.append h h'
  plainCommand := by
    intro name args hname hargs
    have hletters := isAlpha_of_isPlainCommand hname
    rw [Markdown.CharRef.unshield_command (Markdown.CharRef.unshield_of_letters hletters)]
    refine law.plainCommand hname fun arg harg => ?_
    obtain ⟨original, horiginal, rfl⟩ := List.mem_map.mp harg
    exact hargs original horiginal
  environment := by
    intro name body hname hbody
    rw [Markdown.CharRef.unshield_append, Markdown.CharRef.unshield_append,
      Markdown.CharRef.unshield_command (by decide), Markdown.CharRef.unshield_command (by decide)]
    exact law.environment (law.copy_congr (Markdown.CharRef.specials_unshield name) hname) hbody

/-- An environment on lines of its own. -/
theorem environmentOf (law : LatexLaw Copy Fits) {name : String} {body : List Char}
    (hname : specials name.toList = []) (hbody : Fits body) : Fits (Markdown.Latex.environment name body) := by
  have hlines : Fits (['\n'] ++ body ++ ['\n']) := law.append (law.append (law.plain rfl) hbody) (law.plain rfl)
  have henvironment := law.environment (law.copy_plain hname) hlines
  simpa [Markdown.Latex.environment] using henvironment

end LatexLaw

end Compendium
