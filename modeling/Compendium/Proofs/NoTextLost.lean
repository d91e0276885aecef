import Compendium.Proofs.WellBracketed

/-!
# No text is lost

The LaTeX form of a document consists of the strings of the document and of marks: the starts of commands,
the names of environments, dollars, braces and line feeds (`marks`). Each string is there in its place, and
nothing but marks stands between one and the next (`Weaves`). This is kept by putting texts behind one
another and by putting marks around them, so it follows by induction on the document. Of an image the
address is kept and not what it says in words; code is kept line by line.
-/

namespace Compendium.Markdown

/-! ### The strings of a document -/

mutual

/-- The strings of a block in their order: those of its running text, the lines of code, and HTML. What only
ends lines behind code and HTML is left out. -/
def Block.leaves : Block (List Inline) → List (List Char)
  | .paragraph content => inlineStrings content
  | .heading _ content => inlineStrings content
  | .list _ items => itemLeaves items
  | .quote content => blockLeaves content
  | .code literal => Text.lines (Latex.dropLineEnds literal)
  | .html literal => [Latex.dropLineEnds literal]
  | .rule => []
  | .table => []

def blockLeaves : Document → List (List Char)
  | [] => []
  | b :: bs => b.leaves ++ blockLeaves bs

def itemLeaves : List Document → List (List Char)
  | [] => []
  | item :: items => blockLeaves item ++ itemLeaves items

end

theorem blockLeaves_eq (d : Document) : blockLeaves d = (d.map Block.leaves).flatten := by
  induction d with
  | nil => rfl
  | cons b bs ih => rw [blockLeaves, ih, List.map_cons, List.flatten_cons]

theorem itemLeaves_eq (items : List Document) : itemLeaves items = (items.map blockLeaves).flatten := by
  induction items with
  | nil => rfl
  | cons item items ih => rw [itemLeaves, ih, List.map_cons, List.flatten_cons]

/-- The strings of each block of a text as it is written, where character references are as they were. A
text without any block that is not all white space is a string of its own. -/
def textLeaves (b : Bibliography) (text : String) : List (List (List Char)) :=
  let resolved := b.resolve text.toList
  if (documentOf b text).isEmpty && !(resolved.all Text.isBlank) then [[resolved]]
  else (documentOf b text).map fun block => block.leaves.map CharRef.unshield

namespace Latex

/-! ### Marks -/

/-- What the LaTeX form of a document has besides its strings. -/
def marks : List (List Char) := [
  "\\section\x7b", "\\subsection\x7b", "\\subsubsection\x7b", "\\paragraph\x7b", "\\subparagraph\x7b",
  "\\emph\x7b", "\\textbf\x7b", "\\uline\x7b", "\\sout\x7b", "\\texttt\x7b", "\\includegraphics\x7b",
  "\\href\x7b", "\x7d\x7b", "\x7d", "$", "$$", "\\item ", "\\hrule", "\n", "\n\n",
  "\\begin\x7bitemize\x7d", "\\end\x7bitemize\x7d", "\\begin\x7benumerate\x7d", "\\end\x7benumerate\x7d",
  "\\begin\x7bquote\x7d", "\\end\x7bquote\x7d", "\\begin\x7bverbatim\x7d", "\\end\x7bverbatim\x7d"].map
    String.toList

theorem blockGap_mem_marks : blockGap ∈ marks := by decide

theorem brace_mem_marks : ['\x7d'] ∈ marks := by decide

/-- A text consists of the strings of `leaves`, in their order, and of marks before, between and behind
them. -/
inductive Weaves : (leaves : List (List Char)) → List Char → Prop
  | nil : Weaves [] []
  | mark {m : List Char} {leaves : List (List Char)} {cs : List Char} (hm : m ∈ marks) (h : Weaves leaves cs) :
      Weaves leaves (m ++ cs)
  | leaf (leaf : List Char) {leaves : List (List Char)} {cs : List Char} (h : Weaves leaves cs) :
      Weaves (leaf :: leaves) (leaf ++ cs)

namespace Weaves

variable {leaves leaves' : List (List Char)} {cs cs' m start stop sep : List Char}

theorem of_leaf (leaf : List Char) : Weaves [leaf] leaf := by
  have hleaf : Weaves [leaf] (leaf ++ []) := .leaf leaf .nil
  rwa [List.append_nil] at hleaf

theorem of_mark (hm : m ∈ marks) : Weaves [] m := by
  have hmark : Weaves [] (m ++ []) := .mark hm .nil
  rwa [List.append_nil] at hmark

theorem append (h : Weaves leaves cs) (h' : Weaves leaves' cs') : Weaves (leaves ++ leaves') (cs ++ cs') := by
  induction h with
  | nil => exact h'
  | mark hm _ ih =>
    rw [List.append_assoc]
    exact .mark hm ih
  | leaf leaf _ ih =>
    rw [List.append_assoc]
    exact .leaf leaf ih

theorem around (hstart : start ∈ marks) (hstop : stop ∈ marks) (h : Weaves leaves cs) :
    Weaves leaves (start ++ cs ++ stop) := by
  have hall := append (.mark hstart h) (of_mark hstop)
  rwa [List.append_nil] at hall

/-- A command with one argument. -/
theorem command {name : String} (hname : '\\' :: name.toList ++ ['\x7b'] ∈ marks) (h : Weaves leaves cs) :
    Weaves leaves (Latex.command name [cs]) := by
  simpa [Latex.command] using h.around hname brace_mem_marks

/-- The command for links, whose first argument is an address. -/
theorem href (url : List Char) (h : Weaves leaves cs) : Weaves (url :: leaves) (Latex.command "href" [url, cs]) := by
  have hstart : "\\href\x7b".toList ∈ marks := by decide
  have hbetween : "\x7d\x7b".toList ∈ marks := by decide
  have hall := around hstart brace_mem_marks (.leaf url (.mark hbetween h))
  simpa [Latex.command] using hall

theorem environment {name : String} (hbegin : Latex.command "begin" [name.toList] ∈ marks)
    (hend : Latex.command "end" [name.toList] ∈ marks) (h : Weaves leaves cs) :
    Weaves leaves (Latex.environment name cs) := by
  have hline : ['\n'] ∈ marks := by decide
  have hall := around hbegin hend (around hline hline h)
  simpa [Latex.environment] using hall

/-- Pieces with a mark between any two. -/
theorem join (hsep : sep ∈ marks) {leaves : List (List (List Char))} {pieces : List (List Char)}
    (h : List.Forall₂ Weaves leaves pieces) : Weaves leaves.flatten (Text.join sep pieces) := by
  induction h with
  | nil => exact .nil
  | @cons _ piece _ pieces hpiece hpieces ih =>
    cases hpieces with
    | nil => simpa [Text.join] using hpiece
    | cons hnext hrest =>
      rw [Text.join_cons_cons, List.append_assoc]
      exact hpiece.append (.mark hsep ih)

theorem unshield_mark : ∀ m ∈ marks, CharRef.unshield m = m := by decide

theorem unshield (h : Weaves leaves cs) : Weaves (leaves.map CharRef.unshield) (CharRef.unshield cs) := by
  induction h with
  | nil => exact .nil
  | mark hm _ ih =>
    rw [CharRef.unshield_append, unshield_mark _ hm]
    exact .mark hm ih
  | leaf leaf _ ih =>
    rw [CharRef.unshield_append, List.map_cons]
    exact .leaf _ ih

end Weaves

/-! ### Documents -/

mutual

theorem inline_weaves : ∀ i : Inline, Weaves i.strings (ofInline i)
  | .text literal => .of_leaf literal
  | .softBreak => .of_mark (by decide)
  | .hardBreak => .of_mark (by decide)
  | .html literal => .of_leaf literal
  | .code literal => Weaves.command (by decide) (.of_leaf literal)
  | .math display literal => by
    have hfence : mathFence display ∈ marks := by cases display <;> decide
    exact .around hfence hfence (.of_leaf literal)
  | .styled style content => by
    have hname : '\\' :: (styleCommand style).toList ++ ['\x7b'] ∈ marks := by cases style <;> decide
    exact .command hname (inlines_weave content)
  | .link url content => .href url (inlines_weave content)
  | .wikiLink url label => .href url (.of_leaf label)
  | .image url _ => Weaves.command (by decide) (.of_leaf url)

theorem inlines_weave : ∀ is : List Inline, Weaves (inlineStrings is) (ofInlines is)
  | [] => .nil
  | i :: is => (inline_weaves i).append (inlines_weave is)

end

theorem headingCommand_mem (level : Nat) : '\\' :: (headingCommand level).toList ++ ['\x7b'] ∈ marks := by
  unfold headingCommand
  split_ifs <;> decide

theorem codeText_weaves (literal : List Char) :
    Weaves (Text.lines (dropLineEnds literal)) (codeText literal) := by
  have hlines : List.Forall₂ Weaves ((Text.lines (dropLineEnds literal)).map fun line => [line])
      (Text.lines (dropLineEnds literal)) := by
    rw [List.forall₂_map_left_iff, List.forall₂_same]
    exact fun line _ => .of_leaf line
  have hall := Weaves.join blockGap_mem_marks hlines
  rwa [← List.flatMap_def, List.flatMap_singleton'] at hall

/-- Where the blocks are woven, so is the text that they make with empty lines between them. -/
theorem join_weaves {d : Document} {forms : List (List Char)}
    (h : List.Forall₂ (fun b form => Weaves b.leaves form) d forms) :
    Weaves (blockLeaves d) (Text.join blockGap forms) := by
  rw [blockLeaves_eq]
  exact .join blockGap_mem_marks (List.forall₂_map_left_iff.mpr h)

mutual

theorem block_weaves : ∀ (b : Block (List Inline)) {form : List Char}, ofBlock b = .ok form → Weaves b.leaves form
  | .paragraph content, _, h => by
    cases h
    exact inlines_weave content
  | .heading level content, _, h => by
    cases h
    exact .command (headingCommand_mem level) (inlines_weave content)
  | .list ordered items, _, h => by
    rw [ofBlock] at h
    obtain ⟨forms, hforms, h⟩ := bind_eq_ok_iff.mp h
    cases h
    have hbegin : command "begin" [(listEnvironment ordered).toList] ∈ marks := by cases ordered <;> decide
    have hend : command "end" [(listEnvironment ordered).toList] ∈ marks := by cases ordered <;> decide
    have hitems := items_weave items hforms
    rw [Block.leaves, itemLeaves_eq]
    exact .environment hbegin hend (.join (by decide) (List.forall₂_map_left_iff.mpr hitems))
  | .quote content, _, h => by
    rw [ofBlock] at h
    obtain ⟨forms, hforms, h⟩ := bind_eq_ok_iff.mp h
    cases h
    exact .environment (by decide) (by decide) (join_weaves (blocks_weave content hforms))
  | .code literal, _, h => by
    cases h
    exact .environment (by decide) (by decide) (codeText_weaves literal)
  | .html literal, _, h => by
    cases h
    exact .of_leaf _
  | .rule, _, h => by
    cases h
    exact .of_mark (by decide)
  | .table, _, h => nomatch h

theorem blocks_weave : ∀ (d : Document) {forms : List (List Char)}, ofBlocks d = .ok forms →
    List.Forall₂ (fun b form => Weaves b.leaves form) d forms
  | [], _, h => by
    cases h
    exact .nil
  | b :: bs, _, h => by
    rw [ofBlocks] at h
    obtain ⟨first, hfirst, h⟩ := bind_eq_ok_iff.mp h
    obtain ⟨others, hothers, h⟩ := bind_eq_ok_iff.mp h
    cases h
    exact .cons (block_weaves b hfirst) (blocks_weave bs hothers)

theorem items_weave : ∀ (items : List Document) {forms : List (List Char)}, ofItems items = .ok forms →
    List.Forall₂ (fun item form => Weaves (blockLeaves item) form) items forms
  | [], _, h => by
    cases h
    exact .nil
  | item :: items, _, h => by
    rw [ofItems] at h
    obtain ⟨first, hfirst, h⟩ := bind_eq_ok_iff.mp h
    obtain ⟨others, hothers, h⟩ := bind_eq_ok_iff.mp h
    cases h
    -- the command of an item and the space behind it are one mark
    have hmark : command "item" [] ++ [' '] ∈ marks := by decide
    have hitem := Weaves.mark hmark (join_weaves (blocks_weave item hfirst))
    rw [List.append_assoc] at hitem
    exact .cons hitem (items_weave items hothers)

end

theorem exists_ofBlocks_eq_ok {d : Document} (h : ¬ d.HasTable) : ∃ forms, ofBlocks d = .ok forms := by
  cases hforms : ofBlocks d with
  | error c => exact absurd ((ofBlocks_eq_error_iff c d).mp hforms) h
  | ok forms => exact ⟨forms, rfl⟩

end Latex

/-! ### Texts -/

open Latex

theorem blocks_weave_textLeaves {b : Bibliography} {text : String} (h : ¬ (documentOf b text).HasTable) :
    ∃ units, blocks (b.resolve text.toList) = .ok units ∧ List.Forall₂ Weaves (textLeaves b text) units := by
  obtain ⟨forms, hforms⟩ := exists_ofBlocks_eq_ok h
  have hweaves := blocks_weave _ hforms
  -- whether the text stands for itself is asked of the forms, but can be seen from the document
  have hempty : (forms.map CharRef.unshield).isEmpty = (documentOf b text).isEmpty := by
    generalize documentOf b text = d at hweaves ⊢
    cases hweaves <;> rfl
  have hblocks : blocks (b.resolve text.toList) = ofBlocks (documentOf b text) >>= fun forms =>
      pure (if (forms.map CharRef.unshield).isEmpty && !((b.resolve text.toList).all Text.isBlank)
        then [b.resolve text.toList] else forms.map CharRef.unshield) := rfl
  rw [hblocks, hforms, ok_bind, hempty]
  refine ⟨_, rfl, ?_⟩
  unfold textLeaves
  dsimp only
  split
  · exact .cons (.of_leaf _) .nil
  · rw [List.forall₂_map_left_iff, List.forall₂_map_right_iff]
    exact hweaves.imp fun _ _ hform => hform.unshield

/-- No text of a document is lost in LaTeX. A document without tables has a LaTeX form, in which the strings
of each block stand in their order, apart from one another, with nothing but marks around them; and so it is
with all blocks together. What a text is converted to has its strings in the same way, block by block and as
a whole, with character references as they are written. -/
theorem latex_loses_no_text :
    (∀ d : Document, ¬ d.HasTable → ∃ forms, ofBlocks d = .ok forms ∧
      List.Forall₂ (fun b form => Weaves b.leaves form) d forms ∧
      Weaves (blockLeaves d) (Text.join blockGap forms)) ∧
    ∀ b text, ¬ (documentOf b text).HasTable → ∃ units, convert b text = .ok (units.map String.ofList) ∧
      List.Forall₂ Weaves (textLeaves b text) units ∧
      latex b text = .ok (Text.join blockGap units) ∧
      Weaves (textLeaves b text).flatten (Text.join blockGap units) := by
  refine ⟨fun d hd => ?_, fun b text htext => ?_⟩
  · obtain ⟨forms, hforms⟩ := exists_ofBlocks_eq_ok hd
    have hweaves := blocks_weave d hforms
    exact ⟨forms, hforms, hweaves, join_weaves hweaves⟩
  · obtain ⟨units, hunits, hweaves⟩ := blocks_weave_textLeaves htext
    refine ⟨units, ?_, hweaves, ?_, .join blockGap_mem_marks hweaves⟩
    · rw [convert, hunits]
      rfl
    · rw [latex, hunits]
      rfl

/-- A list with a quote of code in it, an image in a link, and HTML. -/
def mixed : Document := [
  .list true [[.paragraph [.text "a".toList, .styled .strong [.code "b".toList]],
    .quote [.code "x\r\n\ny\n\n".toList]]],
  .heading 3 [.link "u".toList [.image "v".toList [.text "w".toList]]], .html "<p>\n\n".toList]

theorem latex_loses_no_text_mixed :
    ¬ mixed.HasTable ∧ ∃ forms, ofBlocks mixed = .ok forms ∧
      Weaves (["a", "b", "x", "", "y", "u", "v", "<p>"].map String.toList) (Text.join blockGap forms) := by
  have htable : ¬ mixed.HasTable := by
    rw [← ofBlocks_eq_error_iff .table]
    decide +kernel
  obtain ⟨forms, hforms, -, hweaves⟩ := latex_loses_no_text.1 mixed htable
  have hleaves : blockLeaves mixed = ["a", "b", "x", "", "y", "u", "v", "<p>"].map String.toList := by
    decide +kernel
  exact ⟨htable, forms, hforms, hleaves ▸ hweaves⟩

end Compendium.Markdown
