import Compendium.Proofs.LatexLaws
import Compendium.Proofs.Tables

/-!
# Documents whose brackets match

What the LaTeX form of a document, a node or an item copies is listed along with the data that it comes from
(`Block.strings`, `LatexRenderer.itemStrings`). Each form keeps every law of LaTeX, by induction on the
document (`LatexLaw.block`) and then part by part (`LatexLaw.item`). So both the braces and the environments
of a module match if the strings that are copied are in order.
-/

namespace Compendium

open Delimiter Text
open Markdown.Latex (command)

/-! ### What is copied -/

namespace Markdown

mutual

/-- The strings that the LaTeX form of running text copies. What an image says in words is not copied. -/
def Inline.strings : Inline → List (List Char)
  | .text literal => [literal]
  | .softBreak => []
  | .hardBreak => []
  | .html literal => [literal]
  | .code literal => [literal]
  | .math _ literal => [literal]
  | .styled _ content => inlineStrings content
  | .link url content => url :: inlineStrings content
  | .wikiLink url label => [url, label]
  | .image url _ => [url]

def inlineStrings : List Inline → List (List Char)
  | [] => []
  | i :: is => i.strings ++ inlineStrings is

end

mutual

/-- The strings that the LaTeX form of a block copies. -/
def Block.strings : Block (List Inline) → List (List Char)
  | .paragraph content => inlineStrings content
  | .heading _ content => inlineStrings content
  | .list _ items => listStrings items
  | .quote content => blockStrings content
  | .code literal => [literal]
  | .html literal => [literal]
  | .rule => []
  | .table => []

def blockStrings : Document → List (List Char)
  | [] => []
  | b :: bs => b.strings ++ blockStrings bs

def listStrings : List Document → List (List Char)
  | [] => []
  | item :: items => blockStrings item ++ listStrings items

end

/-- The strings that the LaTeX form of a text copies. A text without any block is copied as a whole if it
is not all white space. -/
def textStrings (b : Bibliography) (text : String) : List (List Char) :=
  let resolved := b.resolve text.toList
  if (documentOf b text).isEmpty && !(resolved.all isBlank) then [resolved] else blockStrings (documentOf b text)

end Markdown

namespace LatexRenderer

def partStrings (r : LatexRenderer) (p : Part) : List (List Char) :=
  p.environment.toList :: (r.registry.filterKnown p.uses).map (fun name => name.text.toList) ++
    Markdown.textStrings r.config.bibliography p.text

def locationStrings (r : LatexRenderer) (l : Location) : List (List Char) :=
  [l.module.text.toList, r.config.sourceExtension.toList]

def nodeStrings (r : LatexRenderer) (n : Node) : List (List Char) :=
  n.name.text.toList :: n.title.toList.map String.toList ++ n.location.toList.flatMap r.locationStrings ++
    n.parts.flatMap r.partStrings

/-- The strings that the LaTeX form of an item copies: names, environments, titles and texts, and from the
settings the root of references and the extension of source files. -/
def itemStrings (r : LatexRenderer) : Item → List (List Char)
  | .content (.library name) => [r.config.inputRoot.toList, name.text.toList]
  | .content (.module name) => [r.config.inputRoot.toList, name.text.toList]
  | .content (.node n) => r.nodeStrings n
  | .content (.text t) => [t.toList]
  | .doc t => [t.toList]

end LatexRenderer

/-! ### Documents -/

namespace LatexLaw
open Markdown Markdown.Latex

variable {Copy Fits : List Char → Prop}

theorem isPlainCommand_styleCommand (style : Style) : isPlainCommand (styleCommand style) = true := by
  cases style <;> decide

theorem isPlainCommand_headingCommand (level : Nat) : isPlainCommand (headingCommand level) = true := by
  unfold headingCommand
  split_ifs <;> decide

mutual

theorem inline (law : LatexLaw Copy Fits) : ∀ i : Inline, (∀ s ∈ i.strings, Copy s) → Fits (ofInline i)
  | .text literal, h => law.of_copy (h literal (List.mem_singleton_self _))
  | .softBreak, _ => law.plain rfl
  | .hardBreak, _ => law.plain rfl
  | .html literal, h => law.of_copy (h literal (List.mem_singleton_self _))
  | .code literal, h => law.commandOf (by decide) (law.of_copy (h literal (List.mem_singleton_self _)))
  | .math display literal, h => by
    have hfence : specials (mathFence display) = [] := by cases display <;> rfl
    have hliteral := law.of_copy (h literal (List.mem_singleton_self _))
    exact law.append (law.append (law.plain hfence) hliteral) (law.plain hfence)
  | .styled style content, h => law.commandOf (isPlainCommand_styleCommand style) (law.inlines content h)
  | .link url content, h => by
    rw [Inline.strings, List.forall_mem_cons] at h
    have hcontent := List.forall_mem_singleton.mpr (law.inlines content h.2)
    exact law.plainCommand (by decide) (List.forall_mem_cons.mpr ⟨law.of_copy h.1, hcontent⟩)
  | .wikiLink url label, h => law.plainCommand (by decide) fun arg harg => law.of_copy (h arg harg)
  | .image url _, h => law.commandOf (by decide) (law.of_copy (h url (List.mem_singleton_self _)))

theorem inlines (law : LatexLaw Copy Fits) : ∀ is : List Inline, (∀ s ∈ inlineStrings is, Copy s) → Fits (ofInlines is)
  | [], _ => law.plain rfl
  | i :: is, h => by
    rw [inlineStrings, List.forall_mem_append] at h
    exact law.append (law.inline i h.1) (law.inlines is h.2)

end

mutual

theorem block (law : LatexLaw Copy Fits) :
    ∀ (b : Block (List Inline)) {latex : List Char}, ofBlock b = .ok latex → (∀ s ∈ b.strings, Copy s) → Fits latex
  | .paragraph content, _, hlatex, h => by
    cases hlatex
    exact law.inlines content h
  | .heading level content, _, hlatex, h => by
    cases hlatex
    exact law.commandOf (isPlainCommand_headingCommand level) (law.inlines content h)
  | .list ordered items, _, hlatex, h => by
    rw [ofBlock] at hlatex
    obtain ⟨forms, hforms, hlatex⟩ := bind_eq_ok_iff.mp hlatex
    cases hlatex
    have hname : specials (listEnvironment ordered).toList = [] := by cases ordered <;> decide
    exact law.environmentOf hname (law.join rfl (law.listItems items hforms h))
  | .quote content, _, hlatex, h => by
    rw [ofBlock] at hlatex
    obtain ⟨forms, hforms, hlatex⟩ := bind_eq_ok_iff.mp hlatex
    cases hlatex
    exact law.environmentOf (by decide) (law.join rfl (law.blocks content hforms h))
  | .code literal, _, hlatex, h => by
    cases hlatex
    have hcode := law.of_specials (specials_codeText literal) (h literal (List.mem_singleton_self _))
    exact law.environmentOf (by decide) hcode
  | .html literal, _, hlatex, h => by
    cases hlatex
    exact law.of_specials (specials_dropLineEnds literal) (h literal (List.mem_singleton_self _))
  | .rule, _, hlatex, _ => by
    cases hlatex
    exact law.plainCommand (by decide) (List.forall_mem_nil _)
  | .table, _, hlatex, _ => nomatch hlatex

theorem blocks (law : LatexLaw Copy Fits) :
    ∀ (d : Document) {forms : List (List Char)}, ofBlocks d = .ok forms → (∀ s ∈ blockStrings d, Copy s) →
      ∀ form ∈ forms, Fits form
  | [], _, hforms, _ => by
    cases hforms
    exact List.forall_mem_nil _
  | b :: bs, _, hforms, h => by
    rw [ofBlocks] at hforms
    obtain ⟨first, hfirst, hforms⟩ := bind_eq_ok_iff.mp hforms
    obtain ⟨others, hothers, hforms⟩ := bind_eq_ok_iff.mp hforms
    cases hforms
    rw [blockStrings, List.forall_mem_append] at h
    exact List.forall_mem_cons.mpr ⟨law.block b hfirst h.1, law.blocks bs hothers h.2⟩

theorem listItems (law : LatexLaw Copy Fits) :
    ∀ (items : List Document) {forms : List (List Char)}, ofItems items = .ok forms →
      (∀ s ∈ listStrings items, Copy s) → ∀ form ∈ forms, Fits form
  | [], _, hforms, _ => by
    cases hforms
    exact List.forall_mem_nil _
  | item :: items, _, hforms, h => by
    rw [ofItems] at hforms
    obtain ⟨first, hfirst, hforms⟩ := bind_eq_ok_iff.mp hforms
    obtain ⟨others, hothers, hforms⟩ := bind_eq_ok_iff.mp hforms
    cases hforms
    rw [listStrings, List.forall_mem_append] at h
    have hitem : Fits (command "item" []) := law.plainCommand (by decide) (List.forall_mem_nil _)
    have hspace : Fits [' '] := law.plain rfl
    have hbody : Fits (Text.join blockGap first) := law.join rfl (law.blocks item hfirst h.1)
    refine List.forall_mem_cons.mpr ⟨?_, law.listItems items hothers h.2⟩
    exact law.append hitem (law.append hspace hbody)

end

theorem text (law : LatexLaw Copy Fits) {b : Bibliography} {source : String} {latex : List Char}
    (hlatex : Markdown.latex b source = .ok latex) (h : ∀ s ∈ textStrings b source, Copy s) : Fits latex := by
  obtain ⟨units, hunits, hlatex⟩ := bind_eq_ok_iff.mp hlatex
  obtain ⟨forms, hforms, hunits⟩ := bind_eq_ok_iff.mp hunits
  cases hunits
  cases hlatex
  replace hforms : ofBlocks (documentOf b source) = .ok forms := hforms
  refine law.join rfl ?_
  rw [textStrings] at h
  cases hdocument : documentOf b source with
  | nil =>
    rw [hdocument] at h hforms
    cases hforms
    cases hblank : (b.resolve source.toList).all isBlank with
    | true => exact List.forall_mem_nil _
    | false =>
      rw [hblank] at h
      exact List.forall_mem_singleton.mpr (law.of_copy (List.forall_mem_singleton.mp h))
  | cons b bs =>
    rw [hdocument] at h hforms
    have hfits := law.unshield.blocks _ hforms h
    -- the first block has a form, so that the text is not taken as it is
    rw [ofBlocks] at hforms
    obtain ⟨first, -, hforms⟩ := bind_eq_ok_iff.mp hforms
    obtain ⟨others, -, hforms⟩ := bind_eq_ok_iff.mp hforms
    cases hforms
    exact List.forall_mem_map.mpr hfits

/-! ### Nodes -/

variable {r : LatexRenderer} {n : Node} {p : Part}

theorem flag (law : LatexLaw Copy Fits) {name : String} (hname : isPlainCommand name = true) :
    Fits (LatexRenderer.flag name) :=
  law.commandOf hname (law.plain rfl)

theorem usesCommand (law : LatexLaw Copy Fits) {names : List Name}
    (h : ∀ name ∈ r.registry.filterKnown names, Copy name.text.toList) : Fits (r.usesCommand names) := by
  unfold LatexRenderer.usesCommand
  dsimp only
  split
  · exact law.plain rfl
  · refine law.commandOf (by decide) (law.join rfl fun piece hpiece => ?_)
    obtain ⟨name, hname, rfl⟩ := List.mem_map.mp hpiece
    exact law.of_copy (h name hname)

theorem partHead (law : LatexLaw Copy Fits) {title : Option String} (htitle : ∀ t ∈ title, Copy t.toList)
    (huses : ∀ name ∈ r.registry.filterKnown p.uses, Copy name.text.toList) : Fits (r.partHead p title) := by
  refine law.append (law.append ?_ ?_) (law.usesCommand huses)
  · cases title with
    | none => exact law.plain rfl
    | some title =>
      have hopen : Fits ['['] := law.plain rfl
      exact law.append (law.append hopen (law.of_copy (htitle title rfl))) (law.plain rfl)
  · split
    · exact law.flag (by decide)
    · exact law.plain rfl

theorem part (law : LatexLaw Copy Fits) {title : Option String} {foot latex : List Char}
    (hlatex : r.part p title foot = .ok latex) (h : ∀ s ∈ r.partStrings p, Copy s)
    (htitle : ∀ t ∈ title, Copy t.toList) (hfoot : Fits foot) : Fits latex := by
  obtain ⟨text, htext, hlatex⟩ := bind_eq_ok_iff.mp hlatex
  cases hlatex
  rw [LatexRenderer.partStrings, List.cons_append, List.forall_mem_cons, List.forall_mem_append,
    List.forall_mem_map] at h
  obtain ⟨henvironment, huses, hstrings⟩ := h
  have hbody : Fits (r.partHead p title ++ text ++ foot ++ ['\n']) :=
    law.append (law.append (law.append (law.partHead htitle huses) (law.text htext hstrings)) hfoot) (law.plain rfl)
  simpa using law.environment henvironment hbody

theorem sourceComment (law : LatexLaw Copy Fits) {location : Option Location}
    (h : ∀ l ∈ location, ∀ s ∈ r.locationStrings l, Copy s) : Fits (r.sourceComment location) := by
  cases location with
  | none => exact law.plain rfl
  | some l =>
    have hl := h l rfl
    simp only [LatexRenderer.locationStrings, List.forall_mem_cons] at hl
    exact law.of_specials (r.specials_sourceComment l) (law.copy_append hl.1 hl.2.1)

theorem statementFoot (law : LatexLaw Copy Fits) (hname : Copy n.name.text.toList)
    (hlocation : ∀ l ∈ n.location, ∀ s ∈ r.locationStrings l, Copy s) : Fits (r.statementFoot n) := by
  have hlabel {word : String} (hword : isPlainCommand word = true) : Fits (command word [n.name.text.toList]) :=
    law.commandOf hword (law.of_copy hname)
  have hlabels := law.append (hlabel (show isPlainCommand "lean" = true by decide))
    (hlabel (show isPlainCommand "label" = true by decide))
  refine law.append (law.append (law.append hlabels ?_) ?_) (law.sourceComment hlocation)
  · split
    · exact law.flag (by decide)
    · exact law.plain rfl
  · split
    · exact law.commandOf (by decide) (law.plain (specials_toDigits _))
    · exact law.plain rfl

theorem parts (law : LatexLaw Copy Fits) {latex : List Char} (hlatex : r.parts n = .ok latex)
    (h : ∀ s ∈ r.nodeStrings n, Copy s) : Fits latex := by
  simp only [LatexRenderer.nodeStrings, Node.parts, List.forall_mem_append, List.forall_mem_cons,
    List.forall_mem_map, List.forall_mem_flatMap, Option.mem_toList] at h
  obtain ⟨⟨⟨hname, htitle⟩, hlocation⟩, hstrings, hproofStrings⟩ := h
  unfold LatexRenderer.parts at hlatex
  obtain ⟨statement, hstatement, hlatex⟩ := bind_eq_ok_iff.mp hlatex
  have hfirst := law.part hstatement hstrings htitle (law.statementFoot hname hlocation)
  cases hproof : n.proof with
  | none =>
    rw [hproof] at hlatex
    cases hlatex
    exact hfirst
  | some proof =>
    rw [hproof] at hlatex
    dsimp only at hlatex
    obtain ⟨second, hsecond, hlatex⟩ := bind_eq_ok_iff.mp hlatex
    cases hlatex
    have hgap : Fits ['\n'] := law.plain rfl
    have hproof := law.part hsecond (hproofStrings proof hproof) (by simp) (law.plain rfl)
    exact law.append hfirst (law.append hgap hproof)

theorem node (law : LatexLaw Copy Fits) {latex : List Char} (hlatex : r.node n = .ok latex)
    (h : ∀ s ∈ r.nodeStrings n, Copy s) : Fits latex := by
  unfold LatexRenderer.node at hlatex
  cases hparts : r.parts n with
  | error construct => rw [hparts] at hlatex; cases hlatex
  | ok found =>
    rw [hparts] at hlatex
    cases hlatex
    exact law.parts hparts h

/-! ### Modules -/

theorem input (law : LatexLaw Copy Fits) (kind : Kind) {name : Name} (hroot : Copy r.config.inputRoot.toList)
    (hname : Copy name.text.toList) : Fits (r.input kind name) :=
  law.commandOf (by decide) (law.of_specials (specials_documentPath _ kind name) (law.copy_append hroot hname))

theorem item (law : LatexLaw Copy Fits) {i : Item} {latex : List Char} (hlatex : r.item i = .ok latex)
    (h : ∀ s ∈ r.itemStrings i, Copy s) : Fits latex := by
  match i, hlatex with
  | .content (.library name), hlatex =>
    cases hlatex
    obtain ⟨hroot, hname⟩ := List.forall_mem_cons.mp h
    exact law.input .library hroot (List.forall_mem_singleton.mp hname)
  | .content (.module name), hlatex =>
    cases hlatex
    obtain ⟨hroot, hname⟩ := List.forall_mem_cons.mp h
    exact law.input .module hroot (List.forall_mem_singleton.mp hname)
  | .content (.node n), hlatex => exact law.node hlatex h
  | .content (.text t), hlatex =>
    cases hlatex
    exact law.of_copy (List.forall_mem_singleton.mp h)
  | .doc t, hlatex =>
    cases hlatex
    exact law.of_copy (List.forall_mem_singleton.mp h)

theorem document (law : LatexLaw Copy Fits) {units : List (List Char)} (h : ∀ unit ∈ units, Fits unit) :
    Fits (LatexRenderer.document units) := by
  unfold LatexRenderer.document
  split
  · exact law.plain rfl
  · exact law.append (law.join rfl h) (law.plain rfl)

variable {registry : Registry} {config : Config} {module : Name} {items : List Item} {d : RenderedModule}

theorem renderModule (law : LatexLaw Copy Fits) (hd : renderModule registry config module items = .ok d)
    (h : ∀ i ∈ items, ∀ s ∈ LatexRenderer.itemStrings ⟨registry, config⟩ i, Copy s) : Fits d.latex := by
  obtain ⟨units, hlatex, hunits⟩ := LatexRenderer.units_of_renderModule hd
  rw [hlatex.eq_document]
  refine law.document ?_
  clear hlatex hd
  induction hunits with
  | nil => exact List.forall_mem_nil _
  | cons hunit _ ih =>
    obtain ⟨hitem, hitems⟩ := List.forall_mem_cons.mp h
    exact List.forall_mem_cons.mpr ⟨law.item hunit hitem, ih hitems⟩

end LatexLaw

open LatexRenderer (itemStrings)

/-- The LaTeX form of a module is well bracketed. Its braces match if they match in each string that is
copied into it. If moreover no such string has a backslash or a brace, the commands that begin and end
environments are nested, and they agree in their names, however deep lists, quotes and code lie in one
another. -/
theorem renderModule_well_bracketed (registry : Registry) (config : Config) (module : Name) (items : List Item)
    (d : RenderedModule) (hd : renderModule registry config module items = .ok d) :
    ((∀ i ∈ items, ∀ s ∈ itemStrings ⟨registry, config⟩ i, BracesMatch s) → BracesMatch d.latex) ∧
    ((∀ i ∈ items, ∀ s ∈ itemStrings ⟨registry, config⟩ i, '\\' ∉ s ∧ '\x7b' ∉ s ∧ '\x7d' ∉ s) →
      Nested (environments d.latex)) := by
  refine ⟨fun h => bracesMatch_law.renderModule hd h, fun h => ?_⟩
  have htidy : Tidy d.latex :=
    tidy_law.renderModule hd fun i hi s hs => specials_eq_nil_iff.mpr (h i hi s hs)
  exact htidy.nested

/-- A quote with code in a list, and a proof with a link in a list. -/
def Node.nested : Node :=
  { Node.ofStatement ⟨"a"⟩ ⟨true, "- *x*\n\n  > ~~~\n  > y\n  > ~~~", [⟨"b"⟩], "theorem"⟩ with
    title := some "A"
    proof := some ⟨false, "1. [x](u)", [], "proof"⟩ }

theorem renderModule_well_bracketed_nested :
    ∃ d, renderModule .definesB .default ⟨"m"⟩ [.content (.node .nested), .doc "T"] = .ok d ∧
      BracesMatch d.latex ∧ Nested (environments d.latex) := by
  cases hd : renderModule .definesB .default ⟨"m"⟩ [.content (.node .nested), .doc "T"] with
  | error e =>
    have hsucceeds : (renderModule .definesB .default ⟨"m"⟩ [.content (.node .nested), .doc "T"]).toBool = true := by
      decide +kernel
    rw [hd] at hsucceeds
    cases hsucceeds
  | ok d =>
    obtain ⟨hbraces, hnested⟩ := renderModule_well_bracketed _ _ _ _ d hd
    exact ⟨d, rfl, hbraces (by decide +kernel), hnested (by decide +kernel)⟩

end Compendium
