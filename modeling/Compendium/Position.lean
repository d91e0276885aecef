import Compendium.Name

/-!
# Places in source files
-/

namespace Compendium

structure Position where
  line : UInt32
  column : UInt32
deriving DecidableEq, Repr

namespace Position

/-- Positions are ordered by line, and within a line by column. -/
def le (p q : Position) : Bool :=
  p.line < q.line || (p.line = q.line && p.column ≤ q.column)

theorem le_iff (p q : Position) :
    p.le q ↔ p.line < q.line ∨ p.line = q.line ∧ p.column ≤ q.column := by
  simp [le]

theorem le_total (p q : Position) : p.le q ∨ q.le p := by
  simp only [le_iff, UInt32.lt_iff_toNat_lt, UInt32.le_iff_toNat_le, ← UInt32.toNat_inj]
  omega

theorem le_trans {p q r : Position} (h₁ : p.le q) (h₂ : q.le r) : p.le r := by
  simp only [le_iff, UInt32.lt_iff_toNat_lt, UInt32.le_iff_toNat_le, ← UInt32.toNat_inj] at h₁ h₂ ⊢
  omega

def text (p : Position) : List Char :=
  Nat.toDigits 10 p.line.toNat ++ '.' :: Nat.toDigits 10 p.column.toNat

def schema : Json.Schema Position where
  name := "Position"
  blank := ⟨0, 0⟩
  fields := [
    Json.Codec.word.field "line" .required line fun p line => { p with line },
    Json.Codec.word.field "column" .required column fun p column => { p with column }]

def codec : Json.Codec Position := schema.codec

end Position

/-- From where to where a declaration reaches. -/
structure Range where
  first : Position
  last : Position
deriving DecidableEq, Repr

namespace Range

def text (r : Range) : List Char :=
  r.first.text ++ '-' :: r.last.text

def schema : Json.Schema Range where
  name := "DeclarationRange"
  blank := ⟨⟨0, 0⟩, ⟨0, 0⟩⟩
  fields := [
    Position.codec.field "pos" .required first fun r first => { r with first },
    Position.codec.field "endPos" .required last fun r last => { r with last }]

def codec : Json.Codec Range := schema.codec

end Range

/-- The module of a declaration, and its range in there if that is known. -/
structure Location where
  module : Name
  range : Option Range
deriving DecidableEq, Repr

namespace Location

def schema : Json.Schema Location where
  name := "DeclarationLocation"
  blank := ⟨⟨""⟩, none⟩
  fields := [
    Name.codec.field "module" .required Location.module fun l module => { l with module },
    (Json.Codec.optional Range.codec).field "range" .optional Location.range fun l range => { l with range }]

def codec : Json.Codec Location := schema.codec

end Location

end Compendium
