import Compendium.Manifest
import Compendium.Proofs.Json.Faithful

/-!
# Records are read as they were written

The codecs of all records are faithful, each because those of its fields are. A record writes all of
its fields, and null only for a part that is absent, so that nothing is read as a default that was not
one. A manifest is thus read back from its text (`Manifest.ofText_text`), and keeps the defaults that
it was once read with.
-/

namespace Compendium

open Json (Schema)
open Json.Codec.Faithful

/-! ### Nodes -/

theorem Name.faithful : Name.codec.Faithful := string.wrap fun _ => rfl

theorem Position.faithful : Position.codec.Faithful := by
  refine Schema.faithful (.cons word.field (.cons word.field .nil)) (by decide) ?_ fun _ => rfl
  simp

theorem Range.faithful : Range.codec.Faithful := by
  refine Schema.faithful (.cons Position.faithful.field (.cons Position.faithful.field .nil)) (by decide) ?_
    fun _ => rfl
  simp

theorem Location.faithful : Location.codec.Faithful := by
  have hrange : (Json.Codec.optional Range.codec).Faithful := Range.faithful.optional fun _ => nofun
  refine Schema.faithful (.cons Name.faithful.field (.cons hrange.field .nil)) (by decide) ?_ fun _ => rfl
  simp

theorem Part.faithful : Part.codec.Faithful := by
  refine Schema.faithful (.cons bool.field <| .cons string.field <| .cons Name.faithful.list.field <|
    .cons string.field .nil) (by decide) ?_ fun _ => rfl
  simp

theorem ThreadNumber.faithful : ThreadNumber.codec.Faithful := by
  intro n s hs
  cases hs with
  | number => exact readNat_ofNat n.2.1 n.2.2 n.2.2 "a nonzero u64"

theorem optional_string : (Json.Codec.optional Json.Codec.string).Faithful := string.optional fun _ => nofun

theorem optional_thread : (Json.Codec.optional ThreadNumber.codec).Faithful :=
  ThreadNumber.faithful.optional fun _ => nofun

theorem optional_location : (Json.Codec.optional Location.codec).Faithful :=
  Location.faithful.optional fun _ => nofun

theorem Node.faithful : Node.codec.Faithful := by
  have hproof : (Json.Codec.optional Part.codec).Faithful := Part.faithful.optional fun _ => nofun
  refine Schema.faithful (.cons Name.faithful.field <| .cons Part.faithful.field <| .cons hproof.field <|
    .cons bool.field <| .cons optional_thread.field <| .cons optional_string.field <|
    .cons optional_location.field <| .cons optional_string.field .nil) (by decide) ?_ fun _ => rfl
  simp

/-! ### Drafts and constants -/

theorem PartDraft.faithful : PartDraft.codec.Faithful := by
  have hleanOk : (Json.Codec.optional Json.Codec.bool).Faithful := bool.optional fun _ => nofun
  refine Schema.faithful (.cons string.field <| .cons Name.faithful.list.field <| .cons optional_string.field <|
    .cons hleanOk.field .nil) (by decide) ?_ fun _ => rfl
  simp

theorem Draft.faithful : Draft.codec.Faithful := by
  have hproof : (Json.Codec.optional PartDraft.codec).Faithful := PartDraft.faithful.optional fun _ => nofun
  refine Schema.faithful (.cons Name.faithful.field <| .cons PartDraft.faithful.field <| .cons hproof.field <|
    .cons bool.field <| .cons optional_thread.field <| .cons optional_string.field <|
    .cons optional_location.field <| .cons optional_string.field .nil) (by decide) ?_ fun _ => rfl
  simp

theorem Constant.faithful : Constant.codec.Faithful := by
  refine Schema.faithful (.cons Name.faithful.field <| .cons Name.faithful.list.field <|
    .cons Name.faithful.list.field .nil) (by decide) ?_ fun _ => rfl
  simp

/-! ### Manifests -/

theorem Config.faithful : Config.codec.Faithful := by
  have hbibliography : ((Json.Codec.list .string).wrap Bibliography.mk Bibliography.keys).Faithful :=
    string.list.wrap fun _ => rfl
  refine Schema.faithful (.cons string.field <| .cons string.field <| .cons Name.faithful.field <|
    .cons hbibliography.field .nil) (by decide) ?_ fun _ => rfl
  simp

theorem ImportedUnit.faithful : ImportedUnit.codec.Faithful := by
  refine Schema.faithful (.cons Name.faithful.field <| .cons Node.faithful.list.field .nil) (by decide) ?_
    fun _ => rfl
  simp

theorem EntryType.faithful : EntryType.codec.Faithful :=
  Json.Codec.Faithful.choice fun t => by cases t <;> rfl

theorem EntryRecord.faithful : EntryRecord.codec.Faithful := by
  refine Schema.faithful (.cons Position.faithful.field <| .cons EntryType.faithful.field <|
    .cons string.field .nil) (by decide) ?_ fun _ => rfl
  simp

theorem Doc.faithful : Doc.codec.Faithful := by
  refine Schema.faithful (.cons string.field <| .cons Position.faithful.field .nil) (by decide) ?_ fun _ => rfl
  simp

theorem ModuleRecord.faithful : ModuleRecord.codec.Faithful := by
  refine Schema.faithful (.cons Name.faithful.field <| .cons EntryRecord.faithful.list.field <|
    .cons Doc.faithful.list.field .nil) (by decide) ?_ fun _ => rfl
  simp

namespace Manifest

theorem faithful : codec.Faithful := by
  refine Schema.faithful (.cons Config.faithful.field <| .cons Constant.faithful.list.field <|
    .cons ImportedUnit.faithful.list.field <| .cons Draft.faithful.list.field <|
    .cons ModuleRecord.faithful.list.field .nil) (by decide) ?_ fun _ => rfl
  simp

/-- The manifest in one line. -/
def text (m : Manifest) : String := String.ofList (codec.write m).compact

theorem ofText_of_readText {t : String} {m : Manifest} (h : codec.readText t = .ok m) : ofText t = .ok m := by
  rw [ofText, h]
  rfl

/-- A manifest is read back from its text, in one line or on several. So a text that can be read says
the same manifest as the text that is then written. -/
theorem ofText_text :
    (∀ m : Manifest, ofText m.text = .ok m ∧ ofText (codec.write m).document = .ok m) ∧
      ∀ t : String, (do ofText (← ofText t).text) = ofText t := by
  have hback : ∀ m : Manifest, ofText m.text = .ok m := fun m =>
    ofText_of_readText (faithful m).readText_compact
  refine ⟨fun m => ⟨hback m, ofText_of_readText (faithful m).readText_document⟩, fun t => ?_⟩
  cases hread : ofText t with
  | error e => rfl
  | ok m => rw [ok_bind, hback m]

end Manifest

end Compendium
