import Compendium.Json.Codec
import Compendium.Proofs.Json.Layouts
import Compendium.Proofs.Outcome

/-!
# Codecs that lose nothing

A text can say a value in many ways: with strings escaped as one likes, and members in any order. What
a codec reads should not depend on this (`Codec.ReadsAs`). It is then the same for the value itself,
for its compact text, and for its document with or without sorted members. A faithful codec reads each
value that it has written as the one it was written for.

A record type is faithful if its fields are, have different names, and together make up the record
(`Schema.faithful`).
-/

namespace Compendium.Json

open Source (Describes DescribesElements DescribesMembers Reads Blank)

namespace Codec

variable {α β : Type} {c : Codec α}

/-- Any text that says `v` is read as `a`. -/
def ReadsAs (c : Codec α) (v : Value) (a : α) : Prop :=
  ∀ s : Source, s.Describes v → c.read s = .ok a

def Faithful (c : Codec α) : Prop := ∀ a, c.ReadsAs (c.write a) a

namespace ReadsAs

variable {v : Value} {a : α}

theorem read_ofValue (h : c.ReadsAs v a) : c.read (.ofValue v) = .ok a :=
  h _ (Source.describes_ofValue v)

theorem sorted (h : c.ReadsAs v a) : c.ReadsAs v.sorted a :=
  fun s hs => h s (Describes.of_sorted v s hs)

theorem skipSpace_blank {ws : List Char} (h : Blank ws) : Source.skipSpace ws = [] := by
  rw [← List.append_nil ws, Source.skipSpace_append h]
  rfl

theorem readText_append (h : c.ReadsAs v a) {cs ws : List Char} (hv : Reads v cs) (hws : Blank ws) :
    c.readText (String.ofList (cs ++ ws)) = .ok a := by
  have hfollows : Source.Follows ws := by
    rw [← List.append_nil ws]
    exact Source.Follows.nil.blank_append hws
  obtain ⟨s, hread, hs⟩ := hv.read_append hfollows
  rw [Codec.readText, String.toList_ofList, hread]
  simp only [h s hs, skipSpace_blank hws, ok_bind]
  rfl

theorem readText_compact (h : c.ReadsAs v a) : c.readText (String.ofList v.compact) = .ok a := by
  rw [← List.append_nil v.compact]
  exact h.readText_append (Source.reads_compact v) Blank.nil

theorem readText_document (h : c.ReadsAs v a) : c.readText v.document = .ok a :=
  h.readText_append (Source.reads_pretty 0 v) (Source.blank_lineStart 0)

theorem readAll {as bs : List α} (h : List.Forall₂ (fun a b => c.ReadsAs (c.write a) b) as bs)
    {ss : List Source} (hs : DescribesElements ss (as.map c.write)) : c.readAll ss = .ok bs := by
  induction h generalizing ss with
  | nil =>
    cases hs
    rfl
  | cons hab _ ih =>
    cases hs with
    | cons hs hss =>
      rw [Codec.readAll, hab _ hs, ok_bind, ih hss]
      rfl

theorem list {as bs : List α} (h : List.Forall₂ (fun a b => c.ReadsAs (c.write a) b) as bs) :
    (Codec.list c).ReadsAs ((Codec.list c).write as) bs := by
  intro s hs
  cases hs with
  | array hs =>
    simp only [Codec.list, readAll h hs, ok_bind]
    rfl

end ReadsAs

namespace Faithful

/-! ### Codecs of simple types -/

theorem use_of_text {q : Quoted} {s : String} (h : q.text = .ok s) : q.use = .ok s := by
  rw [Quoted.use, h]

theorem string : Codec.string.Faithful := by
  intro a s hs
  cases hs with
  | string htext => exact use_of_text htext

theorem bool : Codec.bool.Faithful := by
  intro a s hs
  cases hs
  rfl

theorem readNat_ofNat {low high n : Nat} (hlow : low ≤ n) (hhigh : n < high) (hbits : n < Nat.pow 2 64)
    (expected : String) : readNat low high expected (.number (.ofNat n)) = .ok ⟨n, hlow, hhigh⟩ := by
  have huse : Source.useNumber (.ofNat n) = .ok (.integer n) := by
    rw [Source.useNumber, Numeral.number_toDigits hbits]
  have hbounds : 0 ≤ (n : Int) ∧ low ≤ (n : Int).toNat ∧ (n : Int).toNat < high := by
    rw [Int.toNat_natCast]
    exact ⟨Int.natCast_nonneg n, hlow, hhigh⟩
  simp only [readNat, huse, ok_bind]
  rw [dif_pos hbounds]
  rfl

theorem word : Codec.word.Faithful := by
  intro a s hs
  have hsize : a.toNat < Nat.pow 2 32 := a.toNat_lt
  cases hs with
  | number =>
    have hread := readNat_ofNat (Nat.zero_le a.toNat) hsize (Nat.lt_trans hsize (by decide)) "u32"
    have hword := bind_pure_of_eq_ok hread fun n => UInt32.ofNat n.1
    rw [UInt32.ofNat_toNat] at hword
    exact hword

theorem eq_null_of_describes {v : Value} (h : Describes .null v) : v = .null := by
  cases h
  rfl

theorem optional (h : c.Faithful) (hnull : ∀ a, c.write a ≠ .null) : (Codec.optional c).Faithful := by
  intro a s hs
  cases a with
  | none =>
    cases hs
    rfl
  | some a =>
    simp only [Codec.optional]
    split
    · exact absurd (eq_null_of_describes hs) (hnull a)
    · exact bind_pure_of_eq_ok (h a s hs) some

theorem list (h : c.Faithful) : (Codec.list c).Faithful :=
  fun _ => ReadsAs.list (List.forall₂_same.mpr fun a _ => h a)

theorem wrap {into : α → β} {out : β → α} (h : c.Faithful) (hinto : ∀ b, into (out b) = b) :
    (c.wrap into out).Faithful := by
  intro b s hs
  have hread := bind_pure_of_eq_ok (h (out b) s hs) into
  rw [hinto] at hread
  exact hread

theorem choice {choices : List (String × α)} {name : α → String}
    (hname : ∀ a, choices.lookup (name a) = some a) : (Codec.choice choices name).Faithful := by
  intro a s hs
  cases hs with
  | string htext =>
    simp only [Codec.choice, use_of_text htext, ok_bind, Codec.choose, hname]

end Faithful

end Codec

/-! ### Records -/

/-- Whatever says the field of a record is read as the change that copies this field from there. -/
def Field.Copies {R : Type} (f : Field R) (copy : R → R → R) : Prop :=
  ∀ (r : R) (s : Source), s.Describes (f.write r) → f.read s = .ok (copy r)

theorem Codec.Faithful.field {R α : Type} {c : Codec α} (h : c.Faithful) {name : String} {need : Need}
    {get : R → α} {set : R → α → R} :
    (c.field name need get set).Copies fun r x => set x (get r) := by
  intro r s hs
  exact bind_pure_of_eq_ok (h (get r) s hs) fun a x => set x a

namespace Schema

variable {R : Type} {schema : Schema R}

theorem find?_name {fields : List (Field R)} (hnames : (fields.map Field.name).Nodup) {f : Field R}
    (hf : f ∈ fields) : fields.find? (·.name = f.name) = some f := by
  induction fields with
  | nil => exact absurd hf List.not_mem_nil
  | cons f' fields ih =>
    obtain ⟨hname, hnames⟩ := List.nodup_cons.mp hnames
    rcases List.mem_cons.mp hf with rfl | hf
    · exact List.find?_cons_of_pos (by simp)
    · have hne : f'.name ≠ f.name := fun heq => hname (heq ▸ List.mem_map_of_mem hf)
      rw [List.find?_cons_of_neg (by simpa using hne)]
      exact ih hnames hf

/-- Members that say fields of `r`, none of them twice, are copied from `r` in their order. -/
theorem readMembers_eq (hnames : (schema.fields.map Field.name).Nodup) {r : R}
    {pairs : List (Field R × (R → R → R))} (hpairs : ∀ p ∈ pairs, p.1 ∈ schema.fields ∧ p.1.Copies p.2)
    (hnodup : (pairs.map (·.1.name)).Nodup) {members : List (Quoted × Source)} {seen : List String}
    (hseen : ∀ p ∈ pairs, p.1.name ∉ seen)
    (hmembers : DescribesMembers members (pairs.map fun p => (p.1.name, p.1.write r))) (x : R) :
    schema.readMembers members seen x =
      .ok ((pairs.map (·.1.name)).reverse ++ seen, (pairs.map Prod.snd).foldl (fun x copy => copy r x) x) := by
  induction pairs generalizing members seen x with
  | nil =>
    cases hmembers
    rfl
  | cons p pairs ih =>
    obtain ⟨⟨hfield, hcopies⟩, hpairs⟩ := List.forall_mem_cons.mp hpairs
    obtain ⟨hp, hnodup⟩ := List.nodup_cons.mp hnodup
    obtain ⟨hnew, hseen⟩ := List.forall_mem_cons.mp hseen
    have hseen' : ∀ q ∈ pairs, q.1.name ∉ p.1.name :: seen := by
      intro q hq hmem
      rcases List.mem_cons.mp hmem with heq | hmem
      · exact hp (List.mem_map.mpr ⟨q, hq, heq⟩)
      · exact hseen q hq hmem
    cases hmembers with
    | cons hkey hs hrest =>
      rw [readMembers, Codec.Faithful.use_of_text hkey, ok_bind, find?_name hnames hfield]
      simp only [List.contains_iff_mem, hnew, if_false, hcopies r _ hs, ok_bind]
      rw [ih hpairs hnodup hseen' hrest, List.map_cons, List.reverse_cons, List.append_assoc]
      rfl

theorem read_object {members : List (Quoted × Source)} {seen : List String} {r : R}
    (h : schema.readMembers members [] schema.blank = .ok (seen, r)) (hall : ∀ f ∈ schema.fields, f.name ∈ seen) :
    schema.codec.read (.object members .closed none) = .ok r := by
  have hnone : schema.fields.find? (fun f => f.need = .required && !seen.contains f.name) = none := by
    refine List.find?_eq_none.mpr fun f hf => ?_
    simp [hall f hf]
  simp only [codec, h, ok_bind, ObjectEnd.fault?, orFault, hnone]
  rfl

theorem exists_pairs {α β : Type} {r : α → β → Prop} {as : List α} {bs : List β} (h : List.Forall₂ r as bs) :
    ∃ pairs : List (α × β), pairs.map Prod.fst = as ∧ pairs.map Prod.snd = bs ∧ ∀ p ∈ pairs, r p.1 p.2 := by
  have hlength : as.length = bs.length := h.length_eq
  refine ⟨as.zip bs, List.map_fst_zip (Nat.le_of_eq hlength), List.map_snd_zip (Nat.le_of_eq hlength.symm), ?_⟩
  exact fun p hp => (List.forall₂_iff_zip.mp h).2 hp

/-- A record with faithful fields is read back: the order in which its fields are copied does not
matter, and after the last of them nothing is left of the blank record. -/
theorem faithful {copies : List (R → R → R)} (hcopies : List.Forall₂ Field.Copies schema.fields copies)
    (hnames : (schema.fields.map Field.name).Nodup)
    (hcomm : ∀ f ∈ copies, ∀ g ∈ copies, ∀ r x, g r (f r x) = f r (g r x))
    (hall : ∀ r, copies.foldl (fun x copy => copy r x) schema.blank = r) : schema.codec.Faithful := by
  intro r s hs
  obtain ⟨pairs, hfst, hsnd, hcopies⟩ := exists_pairs hcopies
  have hwrite : schema.codec.write r = .object (pairs.map fun p => (p.1.name, p.1.write r)) := by
    show Value.object (schema.fields.map _) = _
    rw [← hfst, List.map_map]
    rfl
  rw [hwrite] at hs
  cases hs with
  | object hmembers hsaid =>
    obtain ⟨pairs', hperm, rfl⟩ := exists_perm_of_perm_map hsaid
    have hpairs : ∀ p ∈ pairs', p.1 ∈ schema.fields ∧ p.1.Copies p.2 := by
      intro p hp
      have hmem : p ∈ pairs := hperm.mem_iff.mp hp
      exact ⟨hfst ▸ List.mem_map_of_mem hmem, hcopies p hmem⟩
    have hmap : (pairs'.map (·.1.name)).Perm (schema.fields.map Field.name) := by
      rw [← hfst, List.map_map]
      exact hperm.map _
    have hfold : (pairs'.map Prod.snd).foldl (fun x copy => copy r x) schema.blank = r := by
      have hperm' : copies.Perm (pairs'.map Prod.snd) := hsnd ▸ (hperm.map Prod.snd).symm
      rw [← hperm'.foldl_eq' fun f hf g hg x => hcomm f hf g hg r x, hall r]
    have hunseen : ∀ p ∈ pairs', p.1.name ∉ ([] : List String) := fun _ _ => List.not_mem_nil
    have hread := readMembers_eq hnames hpairs (hmap.nodup_iff.mpr hnames) hunseen hmembers schema.blank
    rw [hfold, List.append_nil] at hread
    refine read_object hread fun f hf => ?_
    rw [List.mem_reverse]
    exact hmap.mem_iff.mpr (List.mem_map_of_mem hf)

end Schema

end Compendium.Json
