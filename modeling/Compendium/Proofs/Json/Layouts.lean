import Compendium.Proofs.Json.Describes

/-!
# Reading what was written

A written value is read back as a text that says it, both from one line and from several lines
(`reads_compact`, `reads_pretty`). What is read of a value does not depend on what follows it, as
long as that cannot go on a number (`Follows`); and the steps that reading may take are twice as many
as there are characters, since each value and each element takes up a character of its own.
-/

namespace Compendium.Json

namespace Source

/-! ### Blanks and what follows a value -/

def Blank (ws : List Char) : Prop := ∀ c ∈ ws, Text.isLineBlank c = true

theorem Blank.nil : Blank [] := fun _ h => absurd h List.not_mem_nil

theorem skipSpace_append {ws : List Char} (h : Blank ws) (cs : List Char) :
    skipSpace (ws ++ cs) = skipSpace cs :=
  List.dropWhile_append_of_pos h

theorem skipSpace_cons {c : Char} (h : Text.isLineBlank c = false) (cs : List Char) :
    skipSpace (c :: cs) = c :: cs := by
  rw [skipSpace, List.dropWhile_cons, h]
  rfl

theorem skipSpace_append_cons {ws : List Char} {c : Char} (hws : Blank ws) (h : Text.isLineBlank c = false)
    (cs : List Char) : skipSpace (ws ++ c :: cs) = c :: cs := by
  rw [skipSpace_append hws, skipSpace_cons h]

/-- The characters before which any value ends. -/
def enders : List Char := [',', ']', '\x7d', ' ', '\t', '\n', '\r']

/-- A value ends here, whatever it is. -/
def Follows (rest : List Char) : Prop := ∀ c ∈ rest.head?, c ∈ enders

theorem Follows.nil : Follows [] := fun _ h => by cases h

theorem Follows.cons {c : Char} (h : c ∈ enders) (rest : List Char) : Follows (c :: rest) := by
  intro d hd
  cases hd
  exact h

theorem Follows.blank_append {ws rest : List Char} (hws : Blank ws) (h : Follows rest) : Follows (ws ++ rest) := by
  cases ws with
  | nil => exact h
  | cons w ws =>
    have hw : Text.isLineBlank w = true := hws w List.mem_cons_self
    refine Follows.cons ?_ (ws ++ rest)
    simp only [Text.isLineBlank, Bool.or_eq_true, decide_eq_true_eq] at hw
    rcases hw with ((rfl | rfl) | rfl) | rfl <;> decide

theorem Follows.ends {rest : List Char} (h : Follows rest) : Numeral.Ends rest := by
  have hall : ∀ c ∈ enders, c.isDigit = false ∧ c ≠ '.' ∧ c ≠ 'e' ∧ c ≠ 'E' := by simp [enders, Char.isDigit]
  exact fun c hc => hall c (h c hc)

/-! ### Values -/

/-- The text `cs` is read as the value `v`, whatever follows it. -/
structure Reads (v : Value) (cs : List Char) : Prop where
  starts : ∃ c ds, cs = c :: ds ∧ Text.isLineBlank c = false ∧ c ≠ ']'
  read : ∀ n rest, 2 * cs.length ≤ n + 1 → Follows rest →
    ∃ s, readValue (n + 1) (cs ++ rest) = (s, rest) ∧ s.Describes v

theorem readValue_blank {ws : List Char} (hws : Blank ws) (n : Nat) (cs : List Char) :
    readValue (n + 1) (ws ++ cs) = readValue (n + 1) cs := by
  rw [readValue, readValue, skipSpace_append hws]

theorem readWord_append (letters : List Char) (value : Source) (rest : List Char) :
    readWord letters value (letters ++ rest) = (value, rest) := by
  induction letters with
  | nil => rfl
  | cons l letters ih => rw [List.cons_append, readWord, if_pos rfl, ih]

theorem reads_null : Reads .null "null".toList where
  starts := ⟨'n', "ull".toList, by decide⟩
  read n rest _ _ := ⟨.null, by rw [readValue]; exact readWord_append "ull".toList .null rest, .null⟩

theorem reads_bool (b : Bool) : Reads (.bool b) (if b then "true" else "false").toList where
  starts := by
    cases b with
    | true => exact ⟨'t', "rue".toList, by decide⟩
    | false => exact ⟨'f', "alse".toList, by decide⟩
  read n rest _ _ := by
    refine ⟨.bool b, ?_, .bool b⟩
    rw [readValue]
    cases b with
    | true => exact readWord_append "rue".toList (.bool true) rest
    | false => exact readWord_append "alse".toList (.bool false) rest

theorem reads_number (k : Nat) : Reads (.number k) (Nat.toDigits 10 k) := by
  obtain ⟨d, ds, hds, hd⟩ := Numeral.exists_toDigits_eq_cons k
  have hnone : ∀ c ∈ ['n', 't', 'f', '"', '[', '\x7b', ']', ' ', '\t', '\n', '\r'], c.isDigit = false := by
    simp [Char.isDigit]
  have hne : d ∉ ['n', 't', 'f', '"', '[', '\x7b', ']', ' ', '\t', '\n', '\r'] := fun hmem =>
    Bool.false_ne_true ((hnone d hmem).symm.trans hd)
  simp only [List.mem_cons, not_or] at hne
  have hblank : Text.isLineBlank d = false := by simp [Text.isLineBlank, hne]
  refine ⟨⟨d, ds, hds, hblank, hne.2.2.2.2.2.2.1⟩, fun n rest _ hrest => ⟨.number (.ofNat k), ?_, .number k⟩⟩
  have hread := Numeral.read?_toDigits k hrest.ends
  rw [hds, List.cons_append] at hread ⊢
  rw [readValue, skipSpace_cons hblank]
  simp [hne, hd, hread]

theorem reads_string (s : String) : Reads (.string s) (Value.quote s) where
  starts := ⟨'"', s.toList.flatMap Value.escapeChar ++ ['"'], rfl, by decide⟩
  read n rest _ _ := by
    have hread := Quoted.read_quote s rest
    refine ⟨.string _, ?_, .string (Quoted.text_ofChar s)⟩
    rw [Value.quote, List.cons_append, List.cons_append, List.append_assoc, List.singleton_append, readValue,
      skipSpace_cons (by decide)]
    simp [hread]

/-! ### Arrays and objects

Each element but the first has a comma in front, and so has each member. -/

/-- What stands before an element or a member. -/
def separator (first : Bool) (ws : List Char) : List Char := if first then ws else ',' :: ws

/-- The text `cs`, from behind the bracket or behind an element, is read as the elements `vs`. -/
def ReadsElements (first : Bool) (vs : List Value) (cs : List Char) : Prop :=
  ∀ n rest, 2 * cs.length ≤ n →
    ∃ ss, readElements (n + 1) first (cs ++ rest) = (ss, .closed, rest) ∧ DescribesElements ss vs

/-- The text `cs`, from behind the brace or behind a member, is read as the members `ms`. -/
def ReadsMembers (first : Bool) (ms : List (String × Value)) (cs : List Char) : Prop :=
  ∀ n rest, 2 * cs.length ≤ n →
    ∃ members, readMembers (n + 1) first (cs ++ rest) = (members, .closed, none, rest) ∧ DescribesMembers members ms

section

variable {first : Bool} {ws cs ds : List Char}

theorem readElements_cons (hws : Blank ws) {c : Char} (hc : Text.isLineBlank c = false) (hbracket : c ≠ ']')
    {n : Nat} {s : Source} {ss : List Source} {ending : ArrayEnd} {rest : List Char}
    (hread : readValue n (c :: cs) = (s, ds)) (hreads : readElements n false ds = (ss, ending, rest)) :
    readElements (n + 1) first (separator first ws ++ c :: cs) = (s :: ss, ending, rest) := by
  have hskip := skipSpace_append_cons hws hc cs
  rw [readElements]
  cases first with
  | true =>
    rw [separator, if_pos rfl, hskip]
    simp [hread, hreads]
  | false =>
    rw [separator, if_neg Bool.false_ne_true, List.cons_append, skipSpace_cons (by decide)]
    simp [hskip, hbracket, hread, hreads]

theorem ReadsElements.nil (hws : Blank ws) : ReadsElements first [] (ws ++ [']']) := by
  intro n rest _
  refine ⟨[], ?_, .nil⟩
  rw [List.append_assoc, List.singleton_append, readElements, skipSpace_append_cons hws (by decide)]
  rfl

theorem ReadsElements.cons (first : Bool) {v : Value} {vs : List Value} (hws : Blank ws) (hv : Reads v cs)
    (hfollows : ∀ rest, Follows (ds ++ rest)) (hvs : ReadsElements false vs ds) :
    ReadsElements first (v :: vs) (separator first ws ++ (cs ++ ds)) := by
  intro n rest hn
  obtain ⟨c, cs', rfl, hc, hbracket⟩ := hv.starts
  simp only [List.length_append, List.length_cons] at hn
  -- the value is not empty, so there are two steps less to take behind it
  obtain ⟨m, rfl⟩ : ∃ m, n = m + 1 := ⟨n - 1, by omega⟩
  obtain ⟨s, hread, hs⟩ := hv.read m (ds ++ rest) (by simp only [List.length_cons]; omega) (hfollows rest)
  obtain ⟨ss, hreads, hss⟩ := hvs m rest (by omega)
  refine ⟨s :: ss, ?_, .cons hs hss⟩
  rw [List.append_assoc, List.append_assoc, List.cons_append]
  exact readElements_cons hws hc hbracket hread hreads

theorem readMembers_cons (first : Bool) (k : String) (hws : Blank ws) {n : Nat} {s : Source}
    {members : List (Quoted × Source)} {ending : ObjectEnd} {stray : Option Source} {rest : List Char}
    (hread : readValue n cs = (s, ds)) (hreads : readMembers n false ds = (members, ending, stray, rest)) :
    readMembers (n + 1) first (separator first ws ++ (Value.quote k ++ ':' :: cs)) =
      ((⟨k.toList.map .ofChar, none⟩, s) :: members, ending, stray, rest) := by
  have hskip := skipSpace_append_cons hws (show Text.isLineBlank '"' = false by decide)
    (k.toList.flatMap Value.escapeChar ++ '"' :: ':' :: cs)
  have hkey := Quoted.read_quote k (':' :: cs)
  have hcolon := skipSpace_cons (show Text.isLineBlank ':' = false by decide) cs
  rw [readMembers, Value.quote, List.cons_append, List.cons_append, List.append_assoc, List.singleton_append]
  cases first with
  | true =>
    rw [separator, if_pos rfl, hskip]
    simp [hkey, hcolon, hread, hreads]
  | false =>
    rw [separator, if_neg Bool.false_ne_true, List.cons_append, skipSpace_cons (by decide)]
    simp [hskip, hkey, hcolon, hread, hreads]

theorem ReadsMembers.nil (hws : Blank ws) : ReadsMembers first [] (ws ++ ['\x7d']) := by
  intro n rest _
  refine ⟨[], ?_, .nil⟩
  rw [List.append_assoc, List.singleton_append, readMembers, skipSpace_append_cons hws (by decide)]
  rfl

theorem ReadsMembers.cons (first : Bool) (k : String) {v : Value} {ms : List (String × Value)}
    {gap : List Char} (hws : Blank ws) (hgap : Blank gap) (hv : Reads v cs) (hfollows : ∀ rest, Follows (ds ++ rest))
    (hms : ReadsMembers false ms ds) :
    ReadsMembers first ((k, v) :: ms) (separator first ws ++ (Value.quote k ++ ':' :: (gap ++ cs) ++ ds)) := by
  intro n rest hn
  simp only [List.length_append, List.length_cons] at hn
  obtain ⟨m, rfl⟩ : ∃ m, n = m + 1 := ⟨n - 1, by omega⟩
  obtain ⟨s, hread, hs⟩ := hv.read m (ds ++ rest) (by omega) (hfollows rest)
  obtain ⟨members, hreads, hmembers⟩ := hms m rest (by omega)
  refine ⟨(_, s) :: members, ?_, .cons (Quoted.text_ofChar k) hs hmembers⟩
  rw [← readValue_blank hgap] at hread
  have hcons := readMembers_cons first k hws hread hreads
  simpa using hcons

theorem ReadsElements.array {vs : List Value} (h : ReadsElements true vs cs) : Reads (.array vs) ('[' :: cs) where
  starts := ⟨'[', cs, rfl, by decide⟩
  read n rest hn _ := by
    rw [List.length_cons] at hn
    obtain ⟨m, rfl⟩ : ∃ m, n = m + 1 := ⟨n - 1, by omega⟩
    obtain ⟨ss, hread, hss⟩ := h m rest (by omega)
    refine ⟨.array ss .closed, ?_, .array hss⟩
    rw [List.cons_append, readValue, skipSpace_cons (by decide)]
    simp [hread]

theorem ReadsMembers.object {ms : List (String × Value)} (h : ReadsMembers true ms cs) :
    Reads (.object ms) ('\x7b' :: cs) where
  starts := ⟨'\x7b', cs, rfl, by decide⟩
  read n rest hn _ := by
    rw [List.length_cons] at hn
    obtain ⟨m, rfl⟩ : ∃ m, n = m + 1 := ⟨n - 1, by omega⟩
    obtain ⟨members, hread, hmembers⟩ := h m rest (by omega)
    refine ⟨.object members .closed none, ?_, .object hmembers (List.Perm.refl ms)⟩
    rw [List.cons_append, readValue, skipSpace_cons (by decide)]
    simp [hread]

end

/-! ### Layouts

A layout has the same blanks before each element or member, and others before the end. -/

section

variable {lead gap close : List Char} {text : Value → List Char}

theorem follows_flatMap {α : Type} (hclose : Blank close) (f : α → List Char) (as : List α) {c : Char}
    (hc : c ∈ enders) (rest : List Char) :
    Follows ((as.flatMap fun a => separator false lead ++ f a) ++ (close ++ [c]) ++ rest) := by
  cases as with
  | nil =>
    rw [List.flatMap_nil, List.nil_append, List.append_assoc]
    exact Follows.blank_append hclose (Follows.cons hc rest)
  | cons a as => exact Follows.cons (by decide) _

theorem readsElements_flatMap (hlead : Blank lead) (hclose : Blank close) {vs : List Value}
    (hvs : ∀ v ∈ vs, Reads v (text v)) :
    ReadsElements false vs ((vs.flatMap fun v => separator false lead ++ text v) ++ (close ++ [']'])) := by
  induction vs with
  | nil => exact ReadsElements.nil hclose
  | cons v vs ih =>
    obtain ⟨hv, hvs⟩ := List.forall_mem_cons.mp hvs
    have hcons := ReadsElements.cons false hlead hv (follows_flatMap hclose text vs (by decide)) (ih hvs)
    simpa using hcons

theorem Reads.array_cons (hlead : Blank lead) (hclose : Blank close) {v : Value} {vs : List Value}
    (h : ∀ u ∈ v :: vs, Reads u (text u)) :
    Reads (.array (v :: vs))
      ('[' :: (lead ++ text v ++ vs.flatMap fun u => separator false lead ++ text u) ++ close ++ [']']) := by
  obtain ⟨hv, hvs⟩ := List.forall_mem_cons.mp h
  have hcons := ReadsElements.cons true hlead hv (follows_flatMap hclose text vs (by decide))
    (readsElements_flatMap hlead hclose hvs)
  simpa [separator] using hcons.array

/-- The text of a member, with `gap` behind the colon. -/
def memberText (gap : List Char) (text : Value → List Char) (m : String × Value) : List Char :=
  Value.quote m.1 ++ ':' :: (gap ++ text m.2)

theorem readsMembers_flatMap (hlead : Blank lead) (hgap : Blank gap) (hclose : Blank close)
    {ms : List (String × Value)} (hms : ∀ m ∈ ms, Reads m.2 (text m.2)) :
    ReadsMembers false ms
      ((ms.flatMap fun m => separator false lead ++ memberText gap text m) ++ (close ++ ['\x7d'])) := by
  induction ms with
  | nil => exact ReadsMembers.nil hclose
  | cons m ms ih =>
    obtain ⟨hm, hms⟩ := List.forall_mem_cons.mp hms
    have hcons := ReadsMembers.cons false m.1 hlead hgap hm
      (follows_flatMap hclose (memberText gap text) ms (by decide)) (ih hms)
    simpa [memberText] using hcons

theorem Reads.object_cons (hlead : Blank lead) (hgap : Blank gap) (hclose : Blank close) {m : String × Value}
    {ms : List (String × Value)} (h : ∀ m' ∈ m :: ms, Reads m'.2 (text m'.2)) :
    Reads (.object (m :: ms))
      ('\x7b' :: (lead ++ memberText gap text m ++ ms.flatMap fun m' => separator false lead ++ memberText gap text m') ++
        close ++ ['\x7d']) := by
  obtain ⟨hm, hms⟩ := List.forall_mem_cons.mp h
  have hcons := ReadsMembers.cons true m.1 hlead hgap hm
    (follows_flatMap hclose (memberText gap text) ms (by decide)) (readsMembers_flatMap hlead hgap hclose hms)
  simpa [separator, memberText] using hcons.object

end

/-! ### One line -/

theorem sizeOf_lt_array {v : Value} {vs : List Value} (h : v ∈ vs) : sizeOf v < sizeOf (Value.array vs) := by
  have hlt := List.sizeOf_lt_of_mem h
  rw [Value.array.sizeOf_spec]
  omega

theorem sizeOf_lt_object {m : String × Value} {ms : List (String × Value)} (h : m ∈ ms) :
    sizeOf m.2 < sizeOf (Value.object ms) := by
  have hlt := List.sizeOf_lt_of_mem h
  have hm : sizeOf m = 1 + sizeOf m.1 + sizeOf m.2 := rfl
  rw [Value.object.sizeOf_spec]
  omega

theorem compactElements_cons (v : Value) (vs : List Value) :
    Value.compactElements (v :: vs) = v.compact ++ vs.flatMap fun u => separator false [] ++ u.compact := by
  induction vs generalizing v with
  | nil => simp [Value.compactElements]
  | cons u vs ih => simp [Value.compactElements, ih, separator]

theorem compactMembers_cons (m : String × Value) (ms : List (String × Value)) :
    Value.compactMembers (m :: ms) =
      memberText [] Value.compact m ++ ms.flatMap fun m' => separator false [] ++ memberText [] Value.compact m' := by
  induction ms generalizing m with
  | nil => simp [Value.compactMembers, memberText]
  | cons m' ms ih => simp [Value.compactMembers, ih, separator, memberText]

theorem reads_compact : ∀ v : Value, Reads v v.compact
  | .null => reads_null
  | .bool b => reads_bool b
  | .number n => reads_number n
  | .string s => reads_string s
  | .array [] => (ReadsElements.nil Blank.nil).array
  | .array (v :: vs) => by
    have h := Reads.array_cons Blank.nil Blank.nil fun u (hu : u ∈ v :: vs) => reads_compact u
    rw [Value.compact, compactElements_cons]
    simpa using h
  | .object [] => (ReadsMembers.nil Blank.nil).object
  | .object (m :: ms) => by
    have h := Reads.object_cons Blank.nil Blank.nil Blank.nil fun m' (hm : m' ∈ m :: ms) => reads_compact m'.2
    rw [Value.compact, compactMembers_cons]
    simpa using h
termination_by v => sizeOf v
decreasing_by
  · exact sizeOf_lt_array hu
  · exact sizeOf_lt_object hm

/-! ### Several lines -/

theorem blank_lineStart (depth : Nat) : Blank (Value.lineStart depth) := by
  intro c hc
  rcases List.mem_cons.mp hc with rfl | hc
  · decide
  · rw [List.eq_of_mem_replicate hc]
    decide

theorem blank_space : Blank [' '] := fun c hc => by rw [List.mem_singleton.mp hc]; decide

theorem prettyElements_cons (depth : Nat) (v : Value) (vs : List Value) :
    Value.prettyElements depth (v :: vs) = Value.lineStart depth ++ v.pretty depth ++
      vs.flatMap fun u => separator false (Value.lineStart depth) ++ u.pretty depth := by
  induction vs generalizing v with
  | nil => simp [Value.prettyElements]
  | cons u vs ih => simp [Value.prettyElements, ih, separator]

theorem prettyMembers_cons (depth : Nat) (m : String × Value) (ms : List (String × Value)) :
    Value.prettyMembers depth (m :: ms) = Value.lineStart depth ++ memberText [' '] (Value.pretty depth) m ++
      ms.flatMap fun m' => separator false (Value.lineStart depth) ++ memberText [' '] (Value.pretty depth) m' := by
  induction ms generalizing m with
  | nil => simp [Value.prettyMembers, memberText]
  | cons m' ms ih => simp [Value.prettyMembers, ih, separator, memberText]

theorem reads_pretty : ∀ (depth : Nat) (v : Value), Reads v (v.pretty depth)
  | _, .null => reads_null
  | _, .bool b => reads_bool b
  | _, .number n => reads_number n
  | _, .string s => reads_string s
  | _, .array [] => (ReadsElements.nil Blank.nil).array
  | depth, .array (v :: vs) => by
    have h := Reads.array_cons (blank_lineStart (depth + 1)) (blank_lineStart depth)
      fun u (hu : u ∈ v :: vs) => reads_pretty (depth + 1) u
    rw [Value.pretty, prettyElements_cons]
    simpa using h
  | _, .object [] => (ReadsMembers.nil Blank.nil).object
  | depth, .object (m :: ms) => by
    have h := Reads.object_cons (blank_lineStart (depth + 1)) blank_space (blank_lineStart depth)
      fun m' (hm : m' ∈ m :: ms) => reads_pretty (depth + 1) m'.2
    rw [Value.pretty, prettyMembers_cons]
    simpa using h
termination_by _ v => sizeOf v
decreasing_by
  · exact sizeOf_lt_array hu
  · exact sizeOf_lt_object hm

/-! ### Whole texts -/

theorem Reads.read_append {v : Value} {cs rest : List Char} (h : Reads v cs) (hrest : Follows rest) :
    ∃ s, Source.read (cs ++ rest) = (s, rest) ∧ s.Describes v := by
  refine h.read (2 * (cs ++ rest).length + 1) rest ?_ hrest
  rw [List.length_append]
  omega

end Source

end Compendium.Json
