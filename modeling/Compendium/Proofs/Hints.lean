import Compendium.Proofs.Paths
import Compendium.Proofs.Tables

/-!
# Hints

An error around another one shows the hint of its cause. To find it, it looks for the first line of the text
of the cause that begins with a certain word. The message comes before the hint in that text, so a line of
the message can be taken for the hint (`Error.firstHint?`). The first line of a message never is; so a name with
a line feed in it is needed. Otherwise the hint comes through any number of layers, by induction on them
(`Error.hintLine_wrap`).
-/

namespace Compendium

namespace Text

variable {xs ys cs line : List Char}

theorem lines_append (xs ys : List Char) : lines (xs ++ '\n' :: ys) = lines (xs ++ ['\n']) ++ lines ys := by
  obtain ⟨ended, last, hys⟩ := exists_split_eq '\n' ys
  have hxs : split '\n' (xs ++ ['\n']) = split '\n' xs ++ [[]] := split_append_sep '\n' xs []
  have hboth : split '\n' (xs ++ '\n' :: ys) = (split '\n' xs ++ ended) ++ [last] := by
    rw [split_append_sep, hys, List.append_assoc]
  rw [lines_of_split hboth, lines_of_split hxs, lines_of_split hys]
  simp

theorem lines_of_not_mem (h : '\n' ∉ line) (hne : line ≠ []) : lines line = [line] := by
  have hsplit : split '\n' line = [] ++ [line] := split_of_not_mem h
  rw [lines_of_split hsplit]
  simp [hne]

theorem lines_ended (h : '\n' ∉ line) : lines (line ++ ['\n']) = [dropReturn line] := by
  have hsplit : split '\n' (line ++ ['\n']) = [line] ++ [[]] := by
    rw [split_append_sep, split_of_not_mem h]
    rfl
  rw [lines_of_split hsplit]
  rfl

theorem not_mem_of_mem_lines (h : line ∈ lines cs) : '\n' ∉ line := by
  obtain ⟨ended, last, hsplit⟩ := exists_split_eq '\n' cs
  have hpiece {piece : List Char} (hp : piece ∈ ended ++ [last]) : '\n' ∉ piece := fun hmem =>
    (mem_of_mem_split (hsplit ▸ hp) hmem).2 rfl
  rw [lines_of_split hsplit, List.mem_append] at h
  rcases h with h | h
  · obtain ⟨piece, hp, rfl⟩ := List.mem_map.mp h
    intro hmem
    refine hpiece (List.mem_append_left _ hp) ?_
    unfold dropReturn at hmem
    split at hmem
    · exact List.dropLast_subset _ hmem
    · exact hmem
  · split at h
    · cases h
    · rw [List.mem_singleton] at h
      exact h ▸ hpiece (by simp)

end Text

namespace Error

variable {b e : Error} {hint : String} {xs ys line : List Char}

/-! ### Layers around an error -/

/-- What an error came up in. -/
inductive Layer where
  | node (name : Name)
  | module (name : Name)

def Layer.name : Layer → Name
  | node name => name
  | module name => name

def Layer.around : Layer → Error → Error
  | node name, e => inNode name e
  | module name, e => inModule name e

/-- An error in layers, the first of which is the outermost. -/
def wrap (layers : List Layer) (b : Error) : Error := layers.foldr Layer.around b

def Layer.start : Layer → String
  | node name => "failed to render node " ++ name.text ++ ": "
  | module name => "failed to render module " ++ name.text ++ ": "

theorem message_around (layer : Layer) (e : Error) : (layer.around e).message = layer.start ++ e.message := by
  cases layer <;> rfl

theorem messageWithHint_around (layer : Layer) (e : Error) :
    (layer.around e).messageWithHint = (layer.around e).message.toList ++ '\n' :: hintLine e.messageWithHint := by
  cases layer <;> rfl

/-! ### Lines that look like hints -/

def hintText (hint : String) : List Char := ' ' :: ' ' :: (hintMark.toList ++ ' ' :: hint.toList)

/-- The first line of a text that looks like a hint. -/
def firstHint? (text : List Char) : Option (List Char) :=
  (Text.lines (text ++ ['\n'])).find? isHintLine

/-- The text of an error ends with a hint on a line of its own, behind its message. -/
def EndsWithHint (e : Error) (hint : String) : Prop :=
  e.messageWithHint = e.message.toList ++ '\n' :: hintText hint

instance (e : Error) (hint : String) : Decidable (e.EndsWithHint hint) := inferInstanceAs (Decidable (_ = _))

theorem isHintLine_hintText (hint : String) : isHintLine (hintText hint) = true := by
  have hblank : Text.isBlank ' ' = true := by decide
  simp [isHintLine, hintText, hblank, hintMark, show Text.isBlank 'h' = false by decide]

theorem endsWithHint_of_hint? (h : b.hint? = some hint) : b.EndsWithHint hint := by
  cases b with
  | inNode => cases h
  | inModule => cases h
  | moduleFrozen => cases h
  | file => cases h
  | _ => cases h; rfl

theorem lineFeed_not_mem_of_hint? (h : b.hint? = some hint) : '\n' ∉ hintText hint := by
  cases b with
  | unsupported c => cases c; cases h; decide +kernel
  | inNode => cases h
  | inModule => cases h
  | moduleFrozen => cases h
  | file => cases h
  | _ => cases h; decide +kernel

theorem firstHint?_append (xs ys : List Char) : firstHint? (xs ++ '\n' :: ys) = (firstHint? xs).or (firstHint? ys) := by
  rw [firstHint?, List.append_assoc, List.cons_append, Text.lines_append, List.find?_append]
  rfl

/-- A hint on the last line is found if no line above it looks like one. -/
theorem hintLine_append (hline : '\n' ∉ line) (hhint : isHintLine line = true) :
    hintLine (xs ++ '\n' :: line) = (firstHint? xs).getD line := by
  have hne : line ≠ [] := by
    rintro rfl
    cases hhint
  rw [hintLine, Text.lines_append, Text.lines_of_not_mem hline hne, List.find?_append, firstHint?]
  cases (Text.lines (xs ++ ['\n'])).find? isHintLine <;> simp [hhint]

/-! ### The first line of a message -/

/-- The first line of a message begins with a letter that no hint begins with. -/
theorem exists_message_eq (e : Error) :
    ∃ c cs, e.message.toList = c :: cs ∧ Text.isBlank c = false ∧ c ≠ 'h' := by
  have hstart (s t : String) {c : Char} {cs : List Char} (hs : s.toList = c :: cs) :
      (s ++ t).toList = c :: (cs ++ t.toList) := by
    rw [String.toList_append, hs, List.cons_append]
  cases e with
  | unsupported construct => exact ⟨'f', _, hstart _ _ rfl, by decide, by decide⟩
  | inNode node cause => exact ⟨'f', _, hstart _ _ (hstart _ _ (hstart _ _ rfl)), by decide, by decide⟩
  | inModule module cause => exact ⟨'f', _, hstart _ _ (hstart _ _ (hstart _ _ rfl)), by decide, by decide⟩
  | moduleNotFound module => exact ⟨'m', _, hstart _ _ rfl, by decide, by decide⟩
  | moduleFrozen module => exact ⟨'m', _, hstart _ _ (hstart _ _ rfl), by decide, by decide⟩
  | nodeNotFound node => exact ⟨'n', _, hstart _ _ rfl, by decide, by decide⟩
  | repeatedModule module => exact ⟨'i', _, hstart _ _ (hstart _ _ rfl), by decide, by decide⟩
  | json e => exact ⟨'J', _, hstart _ _ rfl, by decide, by decide⟩
  | file e => exact ⟨'I', _, hstart _ _ rfl, by decide, by decide⟩

theorem firstHint?_of_not_mem {c : Char} {cs : List Char} (hblank : Text.isBlank c = false) (hc : c ≠ 'h')
    (hline : '\n' ∉ c :: cs) : firstHint? (c :: cs) = none := by
  have hdrop : ∃ cs', Text.dropReturn (c :: cs) = c :: cs' := by
    unfold Text.dropReturn
    split
    · rename_i hlast
      cases cs with
      | nil =>
        obtain rfl : c = '\r' := by simpa using hlast
        cases hblank
      | cons d cs => exact ⟨_, rfl⟩
    · exact ⟨cs, rfl⟩
  obtain ⟨cs', hcs'⟩ := hdrop
  rw [firstHint?, Text.lines_ended hline, hcs']
  simp [isHintLine, hintMark, hblank, Ne.symm hc]

theorem firstHint?_message_of_not_mem (h : '\n' ∉ e.message.toList) : firstHint? e.message.toList = none := by
  obtain ⟨c, cs, heq, hblank, hc⟩ := exists_message_eq e
  rw [heq] at h ⊢
  exact firstHint?_of_not_mem hblank hc h

/-- What looks like a hint in a message does so in that of a layer around it, since it is not in the first
line. -/
theorem firstHint?_eq_none_of_around {layer : Layer} (h : firstHint? (layer.around e).message.toList = none) :
    firstHint? e.message.toList = none := by
  by_cases hfeed : '\n' ∈ e.message.toList
  · obtain ⟨c, cs, heq, hblank, hc⟩ := exists_message_eq e
    obtain ⟨first, others, hmessage, hfirst⟩ := List.eq_append_cons_of_mem hfeed
    have hnone : firstHint? first = none := by
      cases first with
      | nil =>
        rw [heq] at hmessage
        obtain rfl : c = '\n' := (List.cons.inj hmessage).1
        cases hblank
      | cons d first =>
        obtain rfl : c = d := (List.cons.inj (heq.symm.trans hmessage)).1
        exact firstHint?_of_not_mem hblank hc hfirst
    rw [message_around, String.toList_append, hmessage, ← List.append_assoc, firstHint?_append,
      Option.or_eq_none_iff] at h
    rw [hmessage, firstHint?_append, hnone, h.2]
    rfl
  · exact firstHint?_message_of_not_mem hfeed

/-! ### Hints through layers -/

/-- What an error in layers hands on: the first line of its message that looks like a hint, and else the hint of
the innermost error. -/
theorem hintLine_wrap (h : b.hint? = some hint) (layers : List Layer) :
    hintLine (b.wrap layers).messageWithHint = (firstHint? (b.wrap layers).message.toList).getD (hintText hint) := by
  induction layers with
  | nil =>
    show hintLine b.messageWithHint = _
    rw [endsWithHint_of_hint? h, hintLine_append (lineFeed_not_mem_of_hint? h) (isHintLine_hintText hint)]
    rfl
  | cons layer layers ih =>
    show hintLine (layer.around (b.wrap layers)).messageWithHint =
      (firstHint? (layer.around (b.wrap layers)).message.toList).getD _
    have hline : '\n' ∉ (firstHint? (b.wrap layers).message.toList).getD (hintText hint) ∧
        isHintLine ((firstHint? (b.wrap layers).message.toList).getD (hintText hint)) = true := by
      cases hfirst : firstHint? (b.wrap layers).message.toList with
      | none => exact ⟨lineFeed_not_mem_of_hint? h, isHintLine_hintText hint⟩
      | some line =>
        exact ⟨Text.not_mem_of_mem_lines (List.mem_of_find?_eq_some hfirst), List.find?_some hfirst⟩
    rw [messageWithHint_around, ih, hintLine_append hline.1 hline.2]
    cases houter : firstHint? (layer.around (b.wrap layers)).message.toList with
    | some line => rfl
    | none => rw [firstHint?_eq_none_of_around houter, Option.getD_none]

theorem endsWithHint_around_iff (h : b.hint? = some hint) (layer : Layer) (layers : List Layer) :
    (layer.around (b.wrap layers)).EndsWithHint hint ↔
      ∀ line, firstHint? (b.wrap layers).message.toList = some line → line = hintText hint := by
  rw [EndsWithHint, messageWithHint_around, hintLine_wrap h, List.append_cancel_left_eq, List.cons.injEq,
    and_iff_right rfl]
  cases firstHint? (b.wrap layers).message.toList <;> simp

theorem lineFeed_not_mem_wrap {layers : List Layer} (hb : '\n' ∉ b.message.toList)
    (h : ∀ layer ∈ layers, '\n' ∉ layer.name.text.toList) : '\n' ∉ (b.wrap layers).message.toList := by
  induction layers with
  | nil => exact hb
  | cons layer layers ih =>
    obtain ⟨hlayer, hlayers⟩ := List.forall_mem_cons.mp h
    have haround (s : String) {name : Name} (hs : '\n' ∉ s.toList) (hname : '\n' ∉ name.text.toList) :
        '\n' ∉ (s ++ name.text ++ ": ").toList := by
      have hcolon : '\n' ∉ ": ".toList := by decide
      rw [String.toList_append, String.toList_append, List.mem_append, List.mem_append, not_or, not_or]
      exact ⟨⟨hs, hname⟩, hcolon⟩
    have hstart : '\n' ∉ layer.start.toList := by
      cases layer with
      | node name => exact haround "failed to render node " (by decide) hlayer
      | module name => exact haround "failed to render module " (by decide) hlayer
    show '\n' ∉ (layer.around (b.wrap layers)).message.toList
    rw [message_around, String.toList_append, List.mem_append, not_or]
    exact ⟨hstart, ih hlayers⟩

/-- A hint comes through layers if there is no line feed in what is around it but the outermost layer. -/
theorem endsWithHint_around_of_not_mem (h : b.hint? = some hint) (layer : Layer) {layers : List Layer}
    (hb : '\n' ∉ b.message.toList) (hlayers : ∀ layer ∈ layers, '\n' ∉ layer.name.text.toList) :
    (layer.around (b.wrap layers)).EndsWithHint hint := by
  rw [endsWithHint_around_iff h, firstHint?_message_of_not_mem (lineFeed_not_mem_wrap hb hlayers)]
  exact fun line hline => nomatch hline

def tableHint : String := "remove the table from the docstring or move it to a free-text block"

theorem renderModule_error_endsWithHint_iff {registry : Registry} {config : Config} {module : Name}
    {items : List Item} (h : renderModule registry config module items = .error e) :
    ∃ n, .content (.node n) ∈ items ∧ e = .inModule module (.inNode n.name (.unsupported .table)) ∧
      (e.EndsWithHint tableHint ↔ ∀ line,
        firstHint? (inNode n.name (.unsupported .table)).message.toList = some line → line = hintText tableHint) ∧
      ('\n' ∉ n.name.text.toList → e.EndsWithHint tableHint) := by
  obtain ⟨before, n, after, rfl, -, -, rfl⟩ := renderModule_eq_error_iff.mp h
  have hhint : (unsupported .table).hint? = some tableHint := rfl
  refine ⟨n, by simp, rfl, endsWithHint_around_iff hhint (.module module) [.node n.name], fun hname => ?_⟩
  have hnode : ∀ layer ∈ [Layer.node n.name], '\n' ∉ layer.name.text.toList := by simpa [Layer.name] using hname
  have hsurvives := endsWithHint_around_of_not_mem hhint (.module module) (by decide) hnode
  exact hsurvives

/-- An error with a hint of its own ends with it. In layers it still does exactly if no line of the message of
its cause looks like a hint, but for one that is the same hint. This is so if there is no line feed in the message
that the layers are around, nor in the names of the layers but the outermost. So it is with the errors of modules,
which come from a node with a table. -/
theorem hint_survives_unless_in_message (registry : Registry) (config : Config) (module : Name)
    (items : List Item) :
    (∀ (b : Error) (hint : String), b.hint? = some hint → b.EndsWithHint hint ∧
      ∀ (layer : Layer) (layers : List Layer),
        ((layer.around (b.wrap layers)).EndsWithHint hint ↔
          ∀ line, firstHint? (b.wrap layers).message.toList = some line → line = hintText hint) ∧
        ('\n' ∉ b.message.toList → (∀ layer ∈ layers, '\n' ∉ layer.name.text.toList) →
          (layer.around (b.wrap layers)).EndsWithHint hint)) ∧
    ∀ e, renderModule registry config module items = .error e →
      ∃ n, .content (.node n) ∈ items ∧ e = .inModule module (.inNode n.name (.unsupported .table)) ∧
        (e.EndsWithHint tableHint ↔ ∀ line,
          firstHint? (inNode n.name (.unsupported .table)).message.toList = some line → line = hintText tableHint) ∧
        ('\n' ∉ n.name.text.toList → e.EndsWithHint tableHint) := by
  refine ⟨fun b hint h => ⟨endsWithHint_of_hint? h, fun layer layers => ?_⟩,
    fun _ h => renderModule_error_endsWithHint_iff h⟩
  exact ⟨endsWithHint_around_iff h layer layers, endsWithHint_around_of_not_mem h layer⟩

def tableUnder (name : String) : Node := .ofStatement ⟨name⟩ ⟨false, "| x |\n|---|", [], ""⟩

theorem renderModule_tableUnder (name : String) :
    renderModule .empty .default ⟨"M"⟩ [.content (.node (tableUnder name))] =
      .error (.inModule ⟨"M"⟩ (.inNode ⟨name⟩ (.unsupported .table))) := by
  have hlatex : Markdown.latex Config.default.bibliography "| x |\n|---|" = .error .table := by decide +kernel
  have htable : (tableUnder name).HasTable Config.default.bibliography :=
    ⟨(tableUnder name).statement, List.mem_singleton_self _, Markdown.latex_eq_error_iff.mp hlatex⟩
  rw [renderModule_eq_error_iff]
  refine ⟨[], tableUnder name, [], rfl, fun m hm => ?_, htable, rfl⟩
  cases hm

/-- A line feed in a name does no harm as long as what follows does not look like a hint, and the outermost name is
not looked at. -/
theorem hint_survives_unless_in_message_twoLines :
    (Error.nodeNotFound ⟨"a"⟩).hint? = some "declare the node in `nodes` or `imports` before referencing it" ∧
      (Layer.around (.node ⟨"b\nhint: c"⟩) (.wrap [.module ⟨"d\n e"⟩] (.nodeNotFound ⟨"a"⟩))).EndsWithHint
        "declare the node in `nodes` or `imports` before referencing it" ∧
      ∃ e, renderModule .empty .default ⟨"M"⟩ [.content (.node (tableUnder "x"))] = .error e ∧
        e.EndsWithHint tableHint := by
  obtain ⟨hlayers, hrendered⟩ := hint_survives_unless_in_message .empty .default ⟨"M"⟩
    [.content (.node (tableUnder "x"))]
  refine ⟨rfl, ?_, _, renderModule_tableUnder _, ?_⟩
  · refine ((hlayers _ _ rfl).2 _ _).1.mpr fun line hline => ?_
    have hnone : firstHint? (wrap [.module ⟨"d\n e"⟩] (.nodeNotFound ⟨"a"⟩)).message.toList = none := by
      decide +kernel
    rw [hnone] at hline
    cases hline
  · obtain ⟨n, -, he, -, hname⟩ := hrendered _ (renderModule_tableUnder "x")
    obtain ⟨hx, -⟩ := Error.inNode.inj (Error.inModule.inj he).2
    exact hname (by rw [← hx]; decide)

/-- A line of a name is taken for the hint. -/
theorem hint_lost_to_name :
    ∃ e, renderModule .empty .default ⟨"M"⟩ [.content (.node (tableUnder "x\nhint: y"))] = .error e ∧
      ¬ e.EndsWithHint tableHint := by
  refine ⟨_, renderModule_tableUnder _, fun h => ?_⟩
  have hhint : (unsupported .table).hint? = some tableHint := rfl
  have hline : firstHint? (wrap [.node ⟨"x\nhint: y"⟩] (.unsupported .table)).message.toList =
      some "hint: y: feature not supported: table".toList := by decide +kernel
  have hsame := (endsWithHint_around_iff hhint (.module ⟨"M"⟩) [.node ⟨"x\nhint: y"⟩]).mp h _ hline
  exact absurd hsame (by decide)

end Error

end Compendium
