import Compendium.Library
import Compendium.Module.Document
import Compendium.Proofs.FileWrites
import Compendium.Proofs.Outcome
import Compendium.Proofs.Templates

/-!
# References between documents

The text of a reference is put together on its own, piece by piece, while the path of a file comes of
joining paths. As long as there is no slash in the name, both are the same (`documentPath_eq`), if the
root of the references is the output directory: pieces without a slash can be joined without any of them
being taken for an absolute path (`Path.chars_joinAll`), and the extension finds no slash at the end
(`Text.getLast?_join`).
-/

namespace Compendium

variable {n : Name} {segment : List Char} {segments : List (List Char)} {kind : Kind} {format : Format}
  {members : List Name} {config : Config}

namespace Name

/-- A name without a slash, each segment of which is one directory or one file. -/
def IsFlat (n : Name) : Prop := '/' ∉ n.text.toList

instance (n : Name) : Decidable n.IsFlat := inferInstanceAs (Decidable (_ ∉ _))

theorem IsFlat.not_mem_segment (h : n.IsFlat) (hs : segment ∈ n.segments) : '/' ∉ segment := fun hslash =>
  h (Text.mem_of_mem_split (List.mem_filter.mp hs).1 hslash).1

theorem IsFlat.not_isRooted (h : n.IsFlat) : ¬ n.IsRooted := by
  rintro ⟨segment, hs, hrooted⟩
  rw [Path.isAbsolute, decide_eq_true_iff] at hrooted
  exact h.not_mem_segment hs (List.mem_of_mem_head? hrooted)

end Name

/-! ### Pieces with slashes between them -/

namespace Text

variable {cs piece : List Char} {pieces : List (List Char)}

theorem join_cons_cons (sep piece piece' : List Char) (pieces : List (List Char)) :
    join sep (piece :: piece' :: pieces) = piece ++ sep ++ join sep (piece' :: pieces) := by
  simp [join]

theorem getLast?_dropEndWhile (cs : List Char) : (dropEndWhile (· = '/') cs).getLast? ≠ some '/' := by
  intro h
  obtain ⟨front, hfront⟩ := List.getLast?_eq_some_iff.mp h
  have hlast := List.rdropWhile_last_not (· = '/') cs
  rw [← dropEndWhile_eq, hfront] at hlast
  simpa using hlast (by simp)

theorem dropEndWhile_of_getLast? (h : cs.getLast? ≠ some '/') : dropEndWhile (· = '/') cs = cs := by
  rw [dropEndWhile_eq, List.rdropWhile_eq_self_iff]
  intro hne hslash
  rw [List.getLast?_eq_some_getLast hne, Ne, Option.some.injEq] at h
  exact h (by simpa using hslash)

theorem join_ne_nil (h : piece ≠ []) (sep : List Char) (pieces : List (List Char)) :
    join sep (piece :: pieces) ≠ [] := by
  cases pieces with
  | nil => simpa [join] using h
  | cons piece' pieces => simp [join_cons_cons, h]

/-- Pieces without a slash make a text that does not end with one. -/
theorem getLast?_join (h : ∀ piece ∈ pieces, piece ≠ [] ∧ '/' ∉ piece) :
    (join ['/'] pieces).getLast? ≠ some '/' := by
  induction pieces with
  | nil => simp [join]
  | cons piece pieces ih =>
    obtain ⟨hpiece, hpieces⟩ := List.forall_mem_cons.mp h
    cases pieces with
    | nil =>
      have hjoin : join ['/'] [piece] = piece := by simp [join]
      rw [hjoin]
      exact fun hlast => hpiece.2 (List.mem_of_getLast? hlast)
    | cons piece' pieces =>
      have hne := join_ne_nil (h piece' (by simp)).1 ['/'] pieces
      rw [join_cons_cons, List.getLast?_append_of_ne_nil _ hne]
      exact ih hpieces

end Text

namespace Path

theorem join_eq {p q : Path} (hq : q.isAbsolute = false) (hp : p.chars.getLast? ≠ some '/') :
    p.join q = if p.chars = [] then q else ⟨p.chars ++ '/' :: q.chars⟩ := by
  by_cases hnil : p.chars = []
  · simp [join, hnil]
  · simp [join, hq, hnil, hp]

/-- Segments without a slash are put behind a directory with a slash before each. -/
theorem chars_joinAll (h : ∀ segment ∈ segments, segment ≠ [] ∧ '/' ∉ segment) (front : List Char)
    {last : List Char} (hlast : last ≠ [] ∧ '/' ∉ last) :
    (joinAll ⟨front ++ last⟩ segments).chars = front ++ Text.join ['/'] (last :: segments) := by
  induction segments generalizing front last with
  | nil => simp [joinAll, Text.join]
  | cons segment segments ih =>
    obtain ⟨hsegment, hsegments⟩ := List.forall_mem_cons.mp h
    have hend : (front ++ last).getLast? ≠ some '/' := by
      rw [List.getLast?_append_of_ne_nil _ hlast.1]
      exact fun hslash => hlast.2 (List.mem_of_getLast? hslash)
    have habsolute : isAbsolute ⟨segment⟩ = false := by
      rw [isAbsolute, decide_eq_false_iff_not]
      exact fun hslash => hsegment.2 (List.mem_of_mem_head? hslash)
    have hne : front ++ last ≠ [] := List.append_ne_nil_of_right_ne_nil _ hlast.1
    have hjoin : join ⟨front ++ last⟩ ⟨segment⟩ = ⟨(front ++ last ++ ['/']) ++ segment⟩ := by
      simp only [join_eq habsolute hend, if_neg hne, List.append_assoc, List.singleton_append]
    rw [joinAll_cons, hjoin, ih hsegments _ hsegment, Text.join_cons_cons]
    simp only [List.append_assoc]

end Path

/-! ### The path of a reference -/

theorem pieces_of_isFlat (h : n.IsFlat) (kind : Kind) :
    ∀ piece ∈ kind.directory.toList :: n.segments, piece ≠ [] ∧ '/' ∉ piece := by
  intro piece hpiece
  rcases List.mem_cons.mp hpiece with rfl | hs
  · exact ⟨kind.mem_directory.1, kind.mem_directory.2.1⟩
  · exact ⟨(Name.mem_segments hs).1, h.not_mem_segment hs⟩

theorem chars_relativePath (h : n.IsFlat) (kind : Kind) (format : Format) :
    (relativePath kind n format.extension).chars =
      Text.join ['/'] (kind.directory.toList :: n.segments) ++ '.' :: format.extension.toList := by
  have hpieces := pieces_of_isFlat h kind
  obtain ⟨hdirectory, hsegments⟩ := List.forall_mem_cons.mp hpieces
  have hchars : (Path.joinAll (.ofString kind.directory) n.segments).chars =
      Text.join ['/'] (kind.directory.toList :: n.segments) :=
    Path.chars_joinAll hsegments [] hdirectory
  rw [relativePath_eq, Path.addExtension, hchars, Text.dropEndWhile_of_getLast? (Text.getLast?_join hpieces)]
  have hstem := Text.join_ne_nil hdirectory.1 ['/'] n.segments
  simp only [List.isEmpty_iff, hstem, format.mem_extension.1, if_false]

namespace Layout

/-- Where documents have to be put for references that start with `root`. Slashes at its end do not
count. -/
def ofRoot (root : String) : Layout := ⟨⟨Text.dropEndWhile (· = '/') root.toList⟩⟩

/-- The root without the slashes at its end is as good as the root. -/
theorem ofRoot_text (root : String) : ofRoot (ofRoot root).base.text = ofRoot root := by
  simp only [ofRoot, Path.text, String.toList_ofList,
    Text.dropEndWhile_of_getLast? (Text.getLast?_dropEndWhile root.toList)]

end Layout

/-- A reference is the path of the document, character by character. -/
theorem documentPath_eq (h : n.IsFlat) (root : String) (kind : Kind) (format : Format) :
    documentPath root kind n format.extension = ((Layout.ofRoot root).pathFor kind n format).chars := by
  have habsolute : (relativePath kind n format.extension).isAbsolute = false :=
    isAbsolute_relativePath_of_not_isRooted h.not_isRooted
  have hend : (Layout.ofRoot root).base.chars.getLast? ≠ some '/' := Text.getLast?_dropEndWhile root.toList
  rw [Layout.pathFor, Path.join_eq habsolute hend, documentPath]
  dsimp only [Layout.ofRoot]
  by_cases hstart : Text.dropEndWhile (· = '/') root.toList = []
  · simp [hstart, chars_relativePath h]
  · simp [hstart, chars_relativePath h, Text.join_cons_cons]

/-! ### References to documents -/

/-- The document that an item stands for. -/
def Item.target? : Item → Option (Kind × Name)
  | .content (.library n) => some (.library, n)
  | .content (.module n) => some (.module, n)
  | _ => none

namespace LatexRenderer

variable {r : LatexRenderer}

/-- The command that includes a file. -/
def inputOf (p : Path) : List Char :=
  ['\\', 'i', 'n', 'p', 'u', 't', '\x7b'] ++ p.chars ++ ['\x7d']

theorem command_input (p : Path) : Markdown.Latex.command "input" [p.chars] = inputOf p := by
  simp [Markdown.Latex.command, inputOf]

theorem input_eq (h : n.IsFlat) (r : LatexRenderer) (kind : Kind) :
    r.input kind n = inputOf ((Layout.ofRoot r.config.inputRoot).pathFor kind n .latex) := by
  rw [input, documentPath_eq h, command_input]

theorem item_of_target {i : Item} (h : i.target? = some (kind, n)) : r.item i = .ok (r.input kind n) := by
  cases i with
  | doc _ => cases h
  | content c => cases c <;> cases h <;> rfl

theorem module_libraryItems (r : LatexRenderer) (library : Name) (members : List Name) :
    r.module library (libraryItems members) = .ok (document (members.map (r.input .module))) := by
  have hitems : (libraryItems members).mapM (fun i => inModule library (r.item i)) =
      .ok (members.map (r.input .module)) := by
    rw [mapM_eq_ok_iff, libraryItems, List.forall₂_map_left_iff, List.forall₂_map_right_iff, List.forall₂_same]
    exact fun _ _ => rfl
  rw [LatexRenderer.module, hitems]
  rfl

/-- The document of a module has one unit for every item, which is what the item becomes. -/
theorem units_of_renderModule {registry : Registry} {module : Name} {items : List Item} {d : RenderedModule}
    (h : renderModule registry config module items = .ok d) :
    ∃ units, IsDocument units d.latex ∧
      List.Forall₂ (fun i unit => item ⟨registry, config⟩ i = .ok unit) items units := by
  obtain ⟨forms, hforms, hd⟩ := bind_eq_ok_iff.mp h
  cases hd
  refine ⟨forms.map Prod.fst, isDocument_document _, List.forall₂_map_right_iff.mpr ?_⟩
  refine (mapM_eq_ok_iff.mp hforms).imp fun i form hform => ?_
  obtain ⟨unit, hunit, hpair⟩ := bind_eq_ok_iff.mp (inModule_eq_ok_iff.mp hform)
  cases hpair
  exact hunit

end LatexRenderer

theorem LibraryIndex.modules_eq (h : ∀ member ∈ members, member.IsFlat) (library : Name) (b : Path) :
    ((ofMembers library members).modules.map fun entry => b.join (.ofString entry)) =
      members.map fun member => Layout.pathFor ⟨b⟩ .module member .json := by
  rw [ofMembers, List.map_map]
  refine List.map_congr_left fun member hmember => ?_
  have hentry := documentPath_eq (h member hmember) "" .module .json
  have hroot : (Layout.ofRoot "").pathFor .module member .json =
      relativePath .module member Format.json.extension := by
    simp [Layout.ofRoot, Layout.pathFor, Path.join, Text.dropEndWhile]
  rw [Function.comp_apply, hentry, hroot, Path.ofString, String.toList_ofList]
  rfl

theorem run_orDocumentError_eq_ok_iff {α β : Type} {x : Except Error α} {f : α → OnTree β} {b : β}
    {t t' : FileTree} :
    (orDocumentError x >>= f).run.run t = (.ok b, t') ↔ ∃ a, x = .ok a ∧ (f a).run.run t = (.ok b, t') := by
  cases x with
  | error e =>
    constructor
    · intro h
      cases h
    · rintro ⟨a, h, -⟩
      cases h
  | ok a =>
    rw [orDocumentError, pure_bind]
    simp

/-- References are the paths of the files that they are meant for, as long as no name has a slash in it
and the root of the references is the output directory, apart from slashes at its end. An index lists
the files of its members in their order: in LaTeX it is the document of one command for each member. The
document of a module has one unit for each item, and the unit of an item that stands for a document is the
command that includes it. What is written for a module or a library can be read at the path that includes
it. -/
theorem references_are_paths (root : String) (config : Config)
    (hroot : Layout.ofRoot config.inputRoot = Layout.ofRoot root) (members : List Name)
    (hmembers : ∀ member ∈ members, member.IsFlat) (items : List Item)
    (hitems : ∀ i ∈ items, ∀ target ∈ i.target?, target.2.IsFlat) :
    (∀ kind n format, n.IsFlat →
      documentPath root kind n format.extension = ((Layout.ofRoot root).pathFor kind n format).chars) ∧
    (∀ library (b : Path),
      ((LibraryIndex.ofMembers library members).modules.map fun entry => b.join (.ofString entry)) =
        members.map fun member => Layout.pathFor ⟨b⟩ .module member .json) ∧
    (∀ library, ∃ text, renderLibrary config library members .latex = .ok text ∧
      LatexRenderer.IsDocument (members.map fun member =>
        LatexRenderer.inputOf ((Layout.ofRoot root).pathFor .module member .latex)) text.toList) ∧
    (∀ registry module d, renderModule registry config module items = .ok d →
      ∃ units, LatexRenderer.IsDocument units d.latex ∧
        List.Forall₂ (fun i unit => ∀ kind n, i.target? = some (kind, n) →
          unit = LatexRenderer.inputOf ((Layout.ofRoot root).pathFor kind n .latex)) items units) ∧
    (∀ s n format t p t', ((Layout.ofRoot root).writeModule s n format : OnTree Path).run.run t = (.ok p, t') →
      p = (Layout.ofRoot root).pathFor .module n format ∧
        ∃ d, s.render n = .ok d ∧ t'.readText p = .ok (d.text format)) ∧
    ∀ n ms format t p t',
      ((Layout.ofRoot root).writeLibrary config n ms format : OnTree Path).run.run t = (.ok p, t') →
      p = (Layout.ofRoot root).pathFor .library n format ∧
        ∃ text, renderLibrary config n ms format = .ok text ∧ t'.readText p = .ok text := by
  have hinput (kind : Kind) {n : Name} (hn : n.IsFlat) (r : Registry) : LatexRenderer.input ⟨r, config⟩ kind n =
      LatexRenderer.inputOf ((Layout.ofRoot root).pathFor kind n .latex) := by
    rw [LatexRenderer.input_eq hn, hroot]
  refine ⟨fun kind n format hn => documentPath_eq hn root kind format, LibraryIndex.modules_eq hmembers,
    fun library => ?_, fun registry module d hd => ?_, fun s n format t p t' h => ?_, fun n ms format t p t' h => ?_⟩
  · rw [← List.map_congr_left fun member hmember => hinput .module (hmembers member hmember) .empty]
    refine ⟨String.ofList (LatexRenderer.document (members.map (LatexRenderer.input ⟨.empty, config⟩ .module))),
      ?_, ?_⟩
    · rw [renderLibrary, LatexRenderer.module_libraryItems]
      rfl
    · rw [String.toList_ofList]
      exact LatexRenderer.isDocument_document _
  · obtain ⟨units, hlatex, hunits⟩ := LatexRenderer.units_of_renderModule hd
    refine ⟨units, hlatex, ?_⟩
    have hall := (List.forall₂_and_left _ _).mpr ⟨hitems, hunits⟩
    refine hall.imp fun i unit hi kind n htarget => ?_
    rw [LatexRenderer.item_of_target htarget] at hi
    rw [← hinput kind (hi.1 _ htarget) registry]
    exact (Except.ok.inj hi.2).symm
  · obtain ⟨d, hd, hwrite⟩ := run_orDocumentError_eq_ok_iff.mp h
    obtain ⟨hp, hread⟩ := Layout.readText_of_write hwrite
    exact ⟨hp, d, hd, hread⟩
  · obtain ⟨text, htext, hwrite⟩ := run_orDocumentError_eq_ok_iff.mp h
    obtain ⟨hp, hread⟩ := Layout.readText_of_write hwrite
    exact ⟨hp, text, htext, hread⟩

def Config.atSite : Config := { Config.default with inputRoot := (Layout.ofRoot "site//").base.text }

/-- One name has an empty segment and another one has none, and the root has slashes at its end. -/
theorem references_are_paths_site :
    documentPath "site//" .module ⟨"A..B"⟩ "tex" =
      (Layout.pathFor ⟨.ofString "site"⟩ .module ⟨"A..B"⟩ .latex).chars ∧
    ((LibraryIndex.ofMembers ⟨"L"⟩ [⟨"A..B"⟩, ⟨""⟩, ⟨"A..B"⟩]).modules.map fun entry =>
      (Path.ofString "out").join (.ofString entry)) =
        [.ofString "out/module/A/B.json", .ofString "out/module.json", .ofString "out/module/A/B.json"] ∧
    ∃ d unit, renderModule .empty .atSite ⟨"M"⟩
        [.content (.module ⟨"A..B"⟩), .doc "Text.", .content (.library ⟨""⟩)] = .ok d ∧
      d.latex = "\\input\x7bsite/module/A/B.tex\x7d\n\n".toList ++ unit ++
        "\n\n\\input\x7bsite/library.tex\x7d\n".toList := by
  obtain ⟨hpath, hindex, -, hstream, -⟩ := references_are_paths "site//" .atSite (Layout.ofRoot_text _)
    [⟨"A..B"⟩, ⟨""⟩, ⟨"A..B"⟩] (by decide)
    [.content (.module ⟨"A..B"⟩), .doc "Text.", .content (.library ⟨""⟩)] (by decide)
  have hroot : Layout.ofRoot "site//" = ⟨.ofString "site"⟩ := by decide
  have hpaths : Layout.pathFor ⟨.ofString "site"⟩ .module ⟨"A..B"⟩ .latex = .ofString "site/module/A/B.tex" ∧
      Layout.pathFor ⟨.ofString "site"⟩ .library ⟨""⟩ .latex = .ofString "site/library.tex" := by decide
  rw [hroot] at hpath hstream
  obtain ⟨d, hd⟩ : ∃ d, renderModule .empty .atSite ⟨"M"⟩
      [.content (.module ⟨"A..B"⟩), .doc "Text.", .content (.library ⟨""⟩)] = .ok d := ⟨_, rfl⟩
  obtain ⟨units, hlatex, hunits⟩ := hstream .empty ⟨"M"⟩ d hd
  obtain _ | ⟨hfirst, _ | ⟨-, _ | ⟨hthird, _ | _⟩⟩⟩ := hunits
  rename_i first unit third
  rw [hfirst .module ⟨"A..B"⟩ rfl, hthird .library ⟨""⟩ rfl, hpaths.1, hpaths.2] at hlatex
  refine ⟨hpath .module ⟨"A..B"⟩ .latex (by decide), (hindex ⟨"L"⟩ (.ofString "out")).trans (by decide), d, unit,
    hd, ?_⟩
  generalize d.latex = text at hlatex ⊢
  cases hlatex
  simp [LatexRenderer.inputOf, Path.ofString]

end Compendium
