import Mathlib.Tactic.SplitIfs
import Compendium.Json.Source

/-!
# Strings and numbers as they are written

A written string is read back character by character: each is given as itself, by a letter behind a
backslash, or by number (`read_escapeChar`). A written number is read back if no more of a number
follows it, and means itself if it fits into 64 bits (`read?_toDigits`, `number_toDigits`).
-/

namespace Compendium.Json

/-! ### Strings -/

/-- How a written character is read back. Controls without a letter are given by number. -/
def Symbol.ofChar (c : Char) : Symbol :=
  if c < ' ' ∧ c ∉ ['\x08', '\x0c', '\n', '\r', '\t'] then .unit c.toNat else .char c

theorem isHexDigit_hexDigit : ∀ n < 16, Text.isHexDigit (Value.hexDigit n) = true := by decide

theorem hexDigitValue_hexDigit : ∀ n < 16, Text.hexDigitValue (Value.hexDigit n) = n := by decide

namespace Quoted

variable {rest : List Char} {c : Char}

theorem fourDigits?_hexDigit {n : Nat} (hn : n < 256) :
    fourDigits? '0' '0' (Value.hexDigit (n / 16)) (Value.hexDigit (n % 16)) = some n := by
  have hhigh : n / 16 < 16 := by omega
  have hlow : n % 16 < 16 := by omega
  have hzero : Text.isHexDigit '0' = true ∧ Text.hexDigitValue '0' = 0 := by decide
  simp only [fourDigits?, List.all_cons, List.all_nil, List.foldl_cons, List.foldl_nil, hzero.1, hzero.2,
    isHexDigit_hexDigit _ hhigh, isHexDigit_hexDigit _ hlow, hexDigitValue_hexDigit _ hhigh,
    hexDigitValue_hexDigit _ hlow, Bool.and_true, if_true]
  congr 1
  omega

theorem read_unit {a b d e : Char} {n : Nat} (h : fourDigits? a b d e = some n) (rest : List Char) :
    read ('\\' :: 'u' :: a :: b :: d :: e :: rest) = ((read rest).1.cons (.unit n), (read rest).2) := by
  rw [read, h]

theorem read_plain (hquote : c ≠ '"') (hslash : c ≠ '\\') (hcontrol : ¬ c < ' ') (rest : List Char) :
    read (c :: rest) = ((read rest).1.cons (.char c), (read rest).2) := by
  simp [read, hslash, hcontrol]

theorem read_escapeChar (c : Char) (rest : List Char) :
    read (Value.escapeChar c ++ rest) = ((read rest).1.cons (.ofChar c), (read rest).2) := by
  unfold Value.escapeChar
  split_ifs with hquote hslash hb hf hn hr ht hcontrol
  · subst hquote; rfl
  · subst hslash; rfl
  · subst hb; rfl
  · subst hf; rfl
  · subst hn; rfl
  · subst hr; rfl
  · subst ht; rfl
  · have hlt : c.toNat < 32 := hcontrol
    have hunit : Symbol.ofChar c = .unit c.toNat := by simp [Symbol.ofChar, *]
    rw [hunit]
    exact read_unit (fourDigits?_hexDigit (by omega)) rest
  · have hchar : Symbol.ofChar c = .char c := by simp [Symbol.ofChar, hcontrol]
    rw [hchar]
    exact read_plain hquote hslash hcontrol rest

theorem read_quote (s : String) (rest : List Char) :
    read (s.toList.flatMap Value.escapeChar ++ '"' :: rest) = (⟨s.toList.map .ofChar, none⟩, rest) := by
  induction s.toList with
  | nil => rfl
  | cons c cs ih => rw [List.flatMap_cons, List.append_assoc, read_escapeChar, ih]; rfl

theorem chars_unit {n : Nat} (hn : n < 0xd800) (broken : Option Break) (rest : List Symbol) :
    chars broken (.unit n :: rest) = do return Char.ofNat n :: (← chars broken rest) := by
  match rest with
  | [] => simp [chars, hn]
  | .char _ :: _ => simp [chars, hn]
  | .unit _ :: _ => simp [chars, hn]

/-- Characters are told apart from the units of pairs, however they are given. -/
theorem chars_map {f : Char → Symbol} (hf : ∀ c, f c = .char c ∨ f c = .unit c.toNat ∧ c.toNat < 0xd800)
    (cs : List Char) : chars none (cs.map f) = .ok cs := by
  induction cs with
  | nil => rfl
  | cons c cs ih =>
    rw [List.map_cons]
    rcases hf c with hc | ⟨hc, hlt⟩
    · rw [hc, chars, ih]
      rfl
    · rw [hc, chars_unit hlt, ih, Char.ofNat_toNat]
      rfl

theorem text_map {f : Char → Symbol} (hf : ∀ c, f c = .char c ∨ f c = .unit c.toNat ∧ c.toNat < 0xd800)
    (s : String) : text ⟨s.toList.map f, none⟩ = .ok s := by
  unfold text
  rw [chars_map hf]
  exact congrArg Except.ok String.ofList_toList

theorem text_ofChar (s : String) : text ⟨s.toList.map .ofChar, none⟩ = .ok s := by
  refine text_map (fun c => ?_) s
  unfold Symbol.ofChar
  split
  · rename_i h
    have hlt : c.toNat < 32 := h.1
    exact Or.inr ⟨rfl, by omega⟩
  · exact Or.inl rfl

end Quoted

/-! ### Numbers -/

namespace Numeral

/-- The digits of a number, without a sign, a fraction or an exponent. -/
def ofNat (n : Nat) : Numeral := ⟨false, Nat.toDigits 10 n, [], none⟩

/-- No number goes on here. -/
def Ends (rest : List Char) : Prop := ∀ c ∈ rest.head?, c.isDigit = false ∧ c ≠ '.' ∧ c ≠ 'e' ∧ c ≠ 'E'

theorem isDigit_of_mem_toDigits {n : Nat} {c : Char} (h : c ∈ Nat.toDigits 10 n) : c.isDigit = true :=
  Nat.isDigit_of_mem_toDigits (by decide) (by decide) h

theorem exists_toDigits_eq_cons (n : Nat) : ∃ d ds, Nat.toDigits 10 n = d :: ds ∧ d.isDigit = true := by
  cases h : Nat.toDigits 10 n with
  | nil => exact absurd h Nat.toDigits_ne_nil
  | cons d ds => exact ⟨d, ds, rfl, isDigit_of_mem_toDigits (h ▸ List.mem_cons_self)⟩

theorem digitChar_ne_zero : ∀ n < 10, 0 < n → Nat.digitChar n ≠ '0' := by decide

/-- Only zero has a zero in front. -/
theorem head?_toDigits_ne {n : Nat} (hn : 0 < n) : (Nat.toDigits 10 n).head? ≠ some '0' := by
  induction n using Nat.strongRecOn with
  | ind n ih =>
    rw [Nat.toDigits_eq_if (by decide)]
    split
    · rename_i hlt
      simpa using digitChar_ne_zero n hlt hn
    · rename_i hge
      rw [List.head?_append, Option.or_of_isSome (by simp [Nat.toDigits_ne_nil])]
      exact ih (n / 10) (by omega) (by omega)

theorem not_padded (n : Nat) :
    (decide ((Nat.toDigits 10 n).head? = some '0') && decide (1 < (Nat.toDigits 10 n).length)) = false := by
  rcases Nat.eq_zero_or_pos n with rfl | hn
  · decide
  · simp [head?_toDigits_ne hn]

theorem takeWhile_digits {n : Nat} {rest : List Char} (h : Ends rest) :
    (Nat.toDigits 10 n ++ rest).takeWhile Char.isDigit = Nat.toDigits 10 n ∧
      (Nat.toDigits 10 n ++ rest).dropWhile Char.isDigit = rest := by
  have hrest : rest.takeWhile Char.isDigit = [] ∧ rest.dropWhile Char.isDigit = rest := by
    cases rest with
    | nil => exact ⟨rfl, rfl⟩
    | cons c cs => simp [(h c rfl).1]
  rw [List.takeWhile_append_of_pos fun _ => isDigit_of_mem_toDigits, hrest.1, List.append_nil,
    List.dropWhile_append_of_pos fun _ => isDigit_of_mem_toDigits, hrest.2]
  exact ⟨rfl, rfl⟩

theorem read?_toDigits (n : Nat) {rest : List Char} (h : Ends rest) :
    read? (Nat.toDigits 10 n ++ rest) = .ok (ofNat n, rest) := by
  obtain ⟨htake, hdrop⟩ := takeWhile_digits (n := n) h
  have hhead : ∀ cs, Nat.toDigits 10 n ++ rest ≠ '-' :: cs := by
    intro cs heq
    obtain ⟨d, ds, hds, hd⟩ := exists_toDigits_eq_cons n
    rw [hds] at heq
    rw [(List.cons.inj heq).1] at hd
    exact absurd hd (by decide)
  have hempty : (Nat.toDigits 10 n ++ rest).isEmpty = false := by simp [Nat.toDigits_ne_nil]
  have hwhole : (Nat.toDigits 10 n).isEmpty = false := by simp [Nat.toDigits_ne_nil]
  unfold read?
  split
  rename_i negative cs heq
  split at heq
  · rename_i tail htail
    exact absurd htail (hhead tail)
  · cases heq
    simp only [htake, hdrop, hempty, hwhole, not_padded]
    cases rest with
    | nil => rfl
    | cons c cs =>
      obtain ⟨-, hdot, he, hE⟩ := h c rfl
      simp [hdot, he, hE, ofNat, pure, Except.pure, bind, Except.bind]

/-! ### The meaning of digits -/

theorem le_ofDigitChars (s : Nat) (ds : List Char) : s ≤ Nat.ofDigitChars 10 ds s := by
  induction ds generalizing s with
  | nil => exact Nat.le_refl s
  | cons d ds ih =>
    rw [Nat.ofDigitChars_cons]
    exact Nat.le_trans (by omega) (ih _)

theorem accumulate_eq {s : Nat} {ds : List Char} (h : Nat.ofDigitChars 10 ds s < Nat.pow 2 64) :
    accumulate s ds = (Nat.ofDigitChars 10 ds s, 0) := by
  induction ds generalizing s with
  | nil => rfl
  | cons d ds ih =>
    rw [Nat.ofDigitChars_cons] at h ⊢
    have hnext : 10 * s + digitValue d < Nat.pow 2 64 := Nat.lt_of_le_of_lt (le_ofDigitChars _ ds) h
    rw [accumulate]
    simp only [hnext, if_true]
    exact ih h

theorem number_toDigits {n : Nat} (h : n < Nat.pow 2 64) : (ofNat n).number = .ok (.integer n) := by
  have hvalue : Nat.ofDigitChars 10 (Nat.toDigits 10 n) 0 = n := Nat.ofDigitChars_ten_toDigits
  have haccumulate : accumulate 0 (Nat.toDigits 10 n) = (n, 0) := by
    rw [accumulate_eq (by rw [hvalue]; exact h), hvalue]
  unfold number
  simp only [ofNat, haccumulate]
  rfl

end Numeral

end Compendium.Json
