import Compendium.Proofs.Citations
import Compendium.Proofs.Tables

/-!
# Text behind the shield

Character references are kept by a mark that stands for their ampersands while a text is read. To put the
ampersands back undoes this (`CharRef.unshield_shield`), except that a mark which was in the text from the
start becomes an ampersand as well. So a text that is read as nothing but itself comes out as it was, character by
character, if it has no mark in it.
-/

namespace Compendium.Markdown

namespace CharRef

theorem unshield_cons (c : Char) (cs : List Char) :
    unshield (c :: cs) = (if c = mark then '&' else c) :: unshield cs := rfl

theorem unshield_shield (cs : List Char) : unshield (shield cs) = unshield cs := by
  induction cs with
  | nil => rfl
  | cons c cs ih =>
    rw [shield, unshield_cons, unshield_cons, ih]
    by_cases hc : (c = '&' && completes cs) = true
    · -- an ampersand is hidden and comes back
      have hamp : c = '&' := of_decide_eq_true (Bool.and_eq_true_iff.mp hc).1
      rw [if_pos hc, hamp]
      rfl
    · rw [if_neg hc]

theorem unshield_eq_self_iff (cs : List Char) : unshield cs = cs ↔ mark ∉ cs := by
  have hsame (c : Char) : (if c = mark then '&' else c) = c ↔ c ≠ mark := by
    by_cases hc : c = mark
    · subst hc
      decide
    · simp [hc]
  induction cs with
  | nil => simp [unshield]
  | cons c cs ih =>
    rw [unshield_cons, List.cons.injEq, hsame, List.mem_cons, not_or, ne_comm]
    exact and_congr_right' ih

end CharRef

open CharRef

/-- The text of running text that is nothing else. -/
def Inline.text? : Inline → Option (List Char)
  | .text literal => some literal
  | _ => none

/-- The text of a document that is one paragraph of nothing else. -/
def Document.plainText? : Document → Option (List Char)
  | [.paragraph content] => (content.mapM Inline.text?).map List.flatten
  | _ => none

theorem ofInlines_of_text? {content : List Inline} {literals : List (List Char)}
    (h : content.mapM Inline.text? = some literals) : Latex.ofInlines content = literals.flatten := by
  induction content generalizing literals with
  | nil =>
    cases h
    rfl
  | cons i is ih =>
    rw [List.mapM_cons] at h
    obtain ⟨literal, hi, h⟩ := Option.bind_eq_some_iff.mp h
    obtain ⟨literals, his, h⟩ := Option.bind_eq_some_iff.mp h
    cases h
    rw [Latex.ofInlines, ih his, List.flatten_cons]
    cases i with
    | text l =>
      cases hi
      rfl
    | _ => cases hi

theorem ofBlocks_of_plainText? {d : Document} {cs : List Char} (h : d.plainText? = some cs) :
    Latex.ofBlocks d = .ok [cs] := by
  unfold Document.plainText? at h
  split at h
  · rename_i content
    obtain ⟨literals, hliterals, rfl⟩ := Option.map_eq_some_iff.mp h
    rw [← ofInlines_of_text? hliterals]
    rfl
  · cases h

theorem convert_of_plainText? {b : Bibliography} {text : String}
    (h : (documentOf b text).plainText? = some (shield (b.resolve text.toList))) :
    convert b text = .ok [String.ofList (unshield (b.resolve text.toList))] := by
  have hforms : Latex.ofBlocks (Document.ofText (shield (b.resolve text.toList))) = .ok [_] :=
    ofBlocks_of_plainText? h
  rw [convert, blocks, hforms, ← unshield_shield]
  rfl

theorem convert_eq_self_iff {b : Bibliography} {text : String}
    (h : (documentOf b text).plainText? = some (shield (b.resolve text.toList))) :
    convert b text = .ok [String.ofList (b.resolve text.toList)] ↔ mark ∉ b.resolve text.toList := by
  rw [convert_of_plainText? h, Except.ok.injEq, List.singleton_inj, String.ofList_inj, unshield_eq_self_iff]

/-- To shield the references of a text and to put their ampersands back gives the text exactly if the mark is not
in it; otherwise it has ampersands for the marks. So it is with a text that is read, shielded and with its
citations resolved, as one paragraph of just this text: it is its own only block, but for the marks in it. -/
theorem text_survives_unless_marked (b : Bibliography) (text : String) :
    unshield (shield text.toList) = unshield text.toList ∧
    (unshield (shield text.toList) = text.toList ↔ mark ∉ text.toList) ∧
    ((documentOf b text).plainText? = some (shield (b.resolve text.toList)) →
      convert b text = .ok [String.ofList (unshield (b.resolve text.toList))] ∧
        (convert b text = .ok [String.ofList (b.resolve text.toList)] ↔ mark ∉ b.resolve text.toList)) ∧
    ((documentOf ⟨[]⟩ text).plainText? = some (shield text.toList) →
      (convert ⟨[]⟩ text = .ok [text] ↔ mark ∉ text.toList)) := by
  refine ⟨unshield_shield _, ?_, fun h => ⟨convert_of_plainText? h, convert_eq_self_iff h⟩, fun h => ?_⟩
  · rw [unshield_shield, unshield_eq_self_iff]
  · -- nothing is a citation without keys
    rw [← Citation.resolve_of_no_keys text.toList] at h
    have hiff := convert_eq_self_iff h
    rwa [Citation.resolve_of_no_keys, String.ofList_toList] at hiff

/-- References one behind the other, and others that break off. -/
def references : String := "a &amp;&lt; &am & b &#1234567; &#x1f600;&"

theorem text_survives_unless_marked_references :
    (documentOf ⟨[]⟩ references).plainText? = some (shield references.toList) ∧
      shield references.toList = "a \ue000amp;\ue000lt; &am & b \ue000#1234567; \ue000#x1f600;&".toList ∧
      convert ⟨[]⟩ references = .ok [references] := by
  have hplain : (documentOf ⟨[]⟩ references).plainText? = some (shield references.toList) := by decide +kernel
  have hmark : mark ∉ references.toList := by decide
  obtain ⟨-, -, -, hsurvives⟩ := text_survives_unless_marked ⟨[]⟩ references
  exact ⟨hplain, by decide, (hsurvives hplain).mpr hmark⟩

/-- A mark that a text has from the start becomes an ampersand. -/
theorem marked_text_changes : unshield (shield [mark]) = ['&'] ∧ convert ⟨[]⟩ "\ue000" = .ok ["&"] := by
  constructor
  · decide
  · decide +kernel

end Compendium.Markdown
