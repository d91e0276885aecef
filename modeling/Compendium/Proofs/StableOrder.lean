import Compendium.Proofs.Recording

/-!
# The order of the items of a module

The items of a module are its entries and docs in the order of their positions, and what is at the same
position keeps its order, with the entries first (`Arranges`). There is only one such order: a list in
order is made of what it has at each position (`eq_of_inOrder`). So of two modules with the same entries at
each position and the same docs at each position, the items are the same (`Contents.Alike`), and this is
what becomes of a store when entries and docs are added to a module in another sequence, whatever is done
to the store later (`Store.AlikeAt.foldl_after`).
-/

namespace Compendium

variable {α : Type}

/-! ### Lists by position -/

theorem Position.le_antisymm {p q : Position} (h : p.le q) (h' : q.le p) : p = q := by
  obtain ⟨line, column⟩ := p
  obtain ⟨line', column'⟩ := q
  simp only [le_iff, UInt32.lt_iff_toNat_lt, UInt32.le_iff_toNat_le, ← UInt32.toNat_inj] at h h'
  rw [mk.injEq, ← UInt32.toNat_inj, ← UInt32.toNat_inj]
  omega

/-- What a list has at one position. -/
def atPosition (position : α → Position) (p : Position) (xs : List α) : List α :=
  xs.filter fun x => position x = p

section atPosition

variable {position : α → Position} {p : Position} {xs ys zs : List α} {x : α}

theorem mem_atPosition : x ∈ atPosition position p xs ↔ x ∈ xs ∧ position x = p := by
  simp [atPosition]

theorem atPosition_append (xs ys : List α) :
    atPosition position p (xs ++ ys) = atPosition position p xs ++ atPosition position p ys :=
  List.filter_append ..

theorem atPosition_cons_self (x : α) (xs : List α) :
    atPosition position (position x) (x :: xs) = x :: atPosition position (position x) xs :=
  List.filter_cons_of_pos (by simp)

/-- Two lists have the same things if they have the same at each position. -/
theorem mem_of_atPosition_eq (h : ∀ p, atPosition position p xs = atPosition position p ys) (hx : x ∈ xs) :
    x ∈ ys := by
  have hmem : x ∈ atPosition position (position x) xs := mem_atPosition.mpr ⟨hx, rfl⟩
  rw [h] at hmem
  exact (mem_atPosition.mp hmem).1

/-- A list in the order of the positions is made of what it has at each of them. -/
theorem eq_of_inOrder (hxs : xs.Pairwise fun a b => (position a).le (position b))
    (hys : ys.Pairwise fun a b => (position a).le (position b))
    (h : ∀ p, atPosition position p xs = atPosition position p ys) : xs = ys := by
  induction xs generalizing ys with
  | nil =>
    refine (List.eq_nil_iff_forall_not_mem.mpr fun y hy => ?_).symm
    exact List.not_mem_nil (mem_of_atPosition_eq (fun p => (h p).symm) hy)
  | cons x xs ih =>
    cases ys with
    | nil => exact absurd (mem_of_atPosition_eq h (List.mem_cons_self ..)) List.not_mem_nil
    | cons y ys =>
      rw [List.pairwise_cons] at hxs hys
      have hfirst : ∀ {a b : α} {as : List α}, (∀ c ∈ as, (position a).le (position c)) → b ∈ a :: as →
          (position a).le (position b) := by
        intro a b as has hb
        rcases List.mem_cons.mp hb with rfl | hb
        · exact (Position.le_total _ _).elim id id
        · exact has b hb
      -- neither of the two heads is behind the other one
      have hxy := hfirst hxs.1 (mem_of_atPosition_eq (fun p => (h p).symm) (List.mem_cons_self ..))
      have hyx := hfirst hys.1 (mem_of_atPosition_eq h (List.mem_cons_self ..))
      have hposition : position x = position y := Position.le_antisymm hxy hyx
      have hheads := h (position x)
      rw [atPosition_cons_self, hposition, atPosition_cons_self] at hheads
      obtain rfl : x = y := (List.cons.inj hheads).1
      refine congrArg (x :: ·) (ih hxs.2 hys.2 fun p => ?_)
      have hp := (atPosition_append [x] xs).symm.trans ((h p).trans (atPosition_append [x] ys))
      exact List.append_cancel_left hp

/-- Where no position comes up twice, the sequence makes no difference to what is at one of them. -/
theorem atPosition_eq_of_perm (h : xs.Perm ys) (hnd : (xs.map position).Nodup) (p : Position) :
    atPosition position p xs = atPosition position p ys := by
  have happart : ∀ {as : List α}, (as.map position).Nodup →
      (atPosition position p as).Pairwise fun a b => position a ≠ position b := fun has =>
    (List.pairwise_map.mp has).filter _
  refine List.Perm.eq_of_pairwise (fun a b ha hb hab _ => ?_) (happart hnd)
    (happart ((h.map position).nodup_iff.mp hnd)) (h.filter _)
  exact absurd ((mem_atPosition.mp ha).2.trans (mem_atPosition.mp hb).2.symm) hab

theorem Position.le_trans_on (position : α → Position) (a b c : α) (hab : (position a).le (position b) = true)
    (hbc : (position b).le (position c) = true) : (position a).le (position c) = true :=
  Position.le_trans hab hbc

theorem Position.le_total_on (position : α → Position) (a b : α) :
    ((position a).le (position b) || (position b).le (position a)) = true :=
  Bool.or_eq_true_iff.mpr (Position.le_total _ _)

/-- Sorting keeps the order of what is at the same position. -/
theorem atPosition_mergeSort (position : α → Position) (p : Position) (xs : List α) :
    atPosition position p (xs.mergeSort fun a b => (position a).le (position b)) = atPosition position p xs := by
  have htie : (atPosition position p xs).Pairwise fun a b => (position a).le (position b) = true := by
    refine List.pairwise_of_forall_mem_list fun a ha b hb => ?_
    rw [(mem_atPosition.mp ha).2, (mem_atPosition.mp hb).2]
    exact (Position.le_total p p).elim id id
  have hsub : (atPosition position p xs).Sublist (xs.mergeSort fun a b => (position a).le (position b)) :=
    List.sublist_mergeSort (Position.le_trans_on position) (Position.le_total_on position) htie List.filter_sublist
  have hfilter := hsub.filter fun x => position x = p
  rw [atPosition, List.filter_filter] at hfilter
  simp only [Bool.and_self] at hfilter
  exact (hfilter.eq_of_length ((List.mergeSort_perm xs _).filter _).length_eq.symm).symm

end atPosition

/-- `ys` has what `xs` has in the order of the positions, which go by line and then by column. What is at
the same position comes as in `xs`. -/
structure Arranges (xs ys : List (Position × Item)) : Prop where
  perm : ys.Perm xs
  inOrder : ys.Pairwise fun a b => a.1.line < b.1.line ∨ a.1.line = b.1.line ∧ a.1.column ≤ b.1.column
  ties : ∀ p, atPosition Prod.fst p ys = atPosition Prod.fst p xs

theorem Arranges.le {xs ys : List (Position × Item)} (h : Arranges xs ys) : ys.Pairwise fun a b => a.1.le b.1 :=
  h.inOrder.imp fun hab => (Position.le_iff _ _).mpr hab

theorem arranges_mergeSort (xs : List (Position × Item)) : Arranges xs (xs.mergeSort fun a b => a.1.le b.1) where
  perm := List.mergeSort_perm ..
  inOrder := by
    have hsorted := List.pairwise_mergeSort (Position.le_trans_on Prod.fst) (Position.le_total_on Prod.fst) xs
    exact hsorted.imp fun hab => (Position.le_iff _ _).mp hab
  ties p := atPosition_mergeSort Prod.fst p xs

/-! ### Modules -/

namespace Contents

variable {c c' : Contents}

/-- Two modules have the same entries and the same docs at each position, and both are frozen or none is. -/
structure Alike (c c' : Contents) : Prop where
  entries : ∀ p, atPosition Entry.position p c.entries = atPosition Entry.position p c'.entries
  docs : ∀ p, atPosition Doc.position p c.docs = atPosition Doc.position p c'.docs
  frozen : c.isFrozen = c'.isFrozen

theorem Alike.refl (c : Contents) : c.Alike c := ⟨fun _ => rfl, fun _ => rfl, rfl⟩

theorem atPosition_positioned (c : Contents) (p : Position) :
    atPosition Prod.fst p c.positioned =
      (atPosition Entry.position p c.entries).map (fun e => (e.position, .content e.content)) ++
        (atPosition Doc.position p c.docs).map fun d => (d.position, .doc d.text) := by
  simp only [positioned, atPosition, List.filter_append, List.filter_map]
  rfl

/-- The items of a module depend on what it has at each position. -/
theorem Alike.items (h : c.Alike c') : c.items = c'.items := by
  have harranged := arranges_mergeSort c.positioned
  have harranged' := arranges_mergeSort c'.positioned
  refine congrArg (List.map Prod.snd) (eq_of_inOrder harranged.le harranged'.le fun p => ?_)
  rw [harranged.ties, harranged'.ties, atPosition_positioned, atPosition_positioned, h.entries, h.docs]

theorem Alike.change (h : c.Alike c') (call : Store.Call) : (call.change c).Alike (call.change c') := by
  cases call with
  | declare m => exact h
  | addEntry m e => exact ⟨fun p => by simp only [Store.Call.change, atPosition_append, h.entries], h.docs, h.frozen⟩
  | addDoc m d => exact ⟨h.entries, fun p => by simp only [Store.Call.change, atPosition_append, h.docs], h.frozen⟩
  | freeze m => exact ⟨h.entries, h.docs, rfl⟩

theorem Alike.act {o o' : Option Contents} (h : Option.Rel Alike o o') (call : Store.Call) :
    Option.Rel Alike (call.act o) (call.act o') := by
  cases h with
  | none =>
    rw [Store.Call.act]
    split
    · exact .some (.refl _)
    · exact .none
  | @some c c' h =>
    rw [Store.Call.act, Store.Call.act, h.frozen]
    split
    · exact .some h
    · exact .some (h.change call)

end Contents

namespace Store

variable {s s' : Store} {m : Name} {calls calls' h : List Call}

/-- A module is alike in two stores, or in neither of them. -/
def AlikeAt (m : Name) (s s' : Store) : Prop :=
  Option.Rel Contents.Alike (s.modules.find? m) (s'.modules.find? m)

theorem AlikeAt.of_find?_eq (h : s.modules.find? m = s'.modules.find? m) : AlikeAt m s s' := by
  rw [AlikeAt, h]
  cases s'.modules.find? m with
  | none => exact .none
  | some c => exact .some (.refl c)

theorem AlikeAt.after (h : AlikeAt m s s') (call : Call) : AlikeAt m (s.after call) (s'.after call) := by
  rw [AlikeAt, find?_after, find?_after]
  split
  · exact Contents.Alike.act h call
  · exact h

theorem AlikeAt.foldl_after (h : AlikeAt m s s') (later : List Call) :
    AlikeAt m (later.foldl Store.after s) (later.foldl Store.after s') := by
  induction later generalizing s s' with
  | nil => exact h
  | cons call later ih => exact ih (h.after call)

theorem AlikeAt.items (h : AlikeAt m s s') : s.items m = s'.items m := by
  rw [AlikeAt] at h
  rw [Store.items, Store.items, contents, contents]
  generalize s.modules.find? m = o at h
  generalize s'.modules.find? m = o' at h
  cases h with
  | none => rfl
  | some h => exact congrArg Except.ok h.items

/-! ### Calls in another sequence -/

theorem entriesFor_append (m : Name) (h h' : List Call) : entriesFor m (h ++ h') = entriesFor m h ++ entriesFor m h' :=
  List.filterMap_append ..

theorem docsFor_append (m : Name) (h h' : List Call) : docsFor m (h ++ h') = docsFor m h ++ docsFor m h' :=
  List.filterMap_append ..

theorem mem_mentioned_of_perm (hperm : calls.Perm calls') : m ∈ mentioned calls ↔ m ∈ mentioned calls' :=
  ((hperm.filter Call.isRecording).map Call.module).mem_iff

theorem frozen_append_iff (hm : .freeze m ∉ calls) : Frozen (h ++ calls) m ↔ Frozen h m := by
  induction calls using List.reverseRecOn with
  | nil => rw [List.append_nil]
  | append_singleton calls call ih =>
    rw [List.mem_append, not_or, List.mem_singleton] at hm
    rw [← List.append_assoc, frozen_concat, ih hm.1]
    exact or_iff_left fun hcall => hm.2 hcall.1.symm

theorem find?_ofCalls_append_of_frozen (hf : Frozen h m) (calls : List Call) :
    (ofCalls (h ++ calls)).modules.find? m = (ofCalls h).modules.find? m := by
  obtain ⟨before, later, heq, hmentioned, hfirst⟩ := hf.first
  have hkept : (ofCalls h).modules.find? m = some ⟨entriesFor m before, docsFor m before, true⟩ :=
    heq ▸ find?_ofCalls_of_first hmentioned hfirst
  rw [ofCalls_append, find?_foldl_after_of_frozen hkept rfl, hkept]

/-- Calls may come in another sequence if they add the same at each position to the module. This matters
only for a module that can still be added to. -/
theorem alikeAt_ofCalls (hperm : calls.Perm calls') (hm : .freeze m ∉ calls)
    (hsame : ¬ Frozen (h ++ calls) m → m ∈ mentioned (h ++ calls) → ∀ p,
      atPosition Entry.position p (entriesFor m calls) = atPosition Entry.position p (entriesFor m calls') ∧
      atPosition Doc.position p (docsFor m calls) = atPosition Doc.position p (docsFor m calls')) :
    AlikeAt m (ofCalls (h ++ calls)) (ofCalls (h ++ calls')) := by
  have hm' : .freeze m ∉ calls' := fun hmem => hm (hperm.mem_iff.mpr hmem)
  have hf := frozen_append_iff (h := h) hm
  have hf' := frozen_append_iff (h := h) hm'
  by_cases hfrozen : Frozen h m
  · refine .of_find?_eq ?_
    rw [find?_ofCalls_append_of_frozen hfrozen, find?_ofCalls_append_of_frozen hfrozen]
  · replace hsame := hsame (hf.not.mpr hfrozen)
    rw [AlikeAt, find?_ofCalls_of_not_frozen (hf.not.mpr hfrozen), find?_ofCalls_of_not_frozen (hf'.not.mpr hfrozen)]
    simp only [← mem_mentioned_of_perm (hperm.append_left h)]
    split
    · rename_i hmentioned
      refine .some ⟨fun p => ?_, fun p => ?_, rfl⟩
      · simp only [entriesFor_append, atPosition_append, (hsame hmentioned p).1]
      · simp only [docsFor_append, atPosition_append, (hsame hmentioned p).2]
    · exact .none

theorem alikeAt_of_interleaving (hperm : calls.Perm calls') (hm : .freeze m ∉ calls)
    (hentries : entriesFor m calls = entriesFor m calls') (hdocs : docsFor m calls = docsFor m calls') :
    AlikeAt m (ofCalls (h ++ calls)) (ofCalls (h ++ calls')) :=
  alikeAt_ofCalls hperm hm fun _ _ p => ⟨by rw [hentries], by rw [hdocs]⟩

theorem map_fst_positioned (c : Contents) :
    c.positioned.map Prod.fst = c.entries.map Entry.position ++ c.docs.map Doc.position := by
  simp only [Contents.positioned, List.map_append, List.map_map]
  rfl

/-- Where no position comes up twice in a module, any sequence will do. -/
theorem alikeAt_of_perm (hperm : calls.Perm calls') (hm : .freeze m ∉ calls)
    (hpositions : ∀ c, (ofCalls (h ++ calls)).contents m = .ok c → (c.positioned.map Prod.fst).Nodup) :
    AlikeAt m (ofCalls (h ++ calls)) (ofCalls (h ++ calls')) := by
  refine alikeAt_ofCalls hperm hm fun hf hmentioned p => ?_
  have hnd := hpositions _ ((recordedBy_ofCalls (h ++ calls)).unfrozen m hmentioned hf)
  rw [map_fst_positioned, entriesFor_append, docsFor_append, List.map_append, List.map_append] at hnd
  obtain ⟨hentries, hdocs, -⟩ := List.nodup_append.mp hnd
  exact ⟨atPosition_eq_of_perm (hperm.filterMap _) (List.nodup_append.mp hentries).2.1 p,
    atPosition_eq_of_perm (hperm.filterMap _) (List.nodup_append.mp hdocs).2.1 p⟩

/-- The items of a module are its entries and its docs, each of them once, in the one order that goes by
position and leaves what is at the same position as it was recorded, the entries before the docs. So it
makes no difference how adding entries and adding docs alternate; and if no position comes up twice in the
module, the sequence of the calls makes none at all, whatever was done before and is done later. -/
theorem items_are_in_stable_order :
    (∀ entries docs isFrozen, ∃ arranged : List (Position × Item),
      (∀ ys, Arranges (entries.map (fun e => (e.position, .content e.content)) ++
        docs.map fun d => (d.position, .doc d.text)) ys ↔ ys = arranged) ∧
      Contents.items ⟨entries, docs, isFrozen⟩ = arranged.map Prod.snd) ∧
    (∀ h m, m ∈ mentioned h → ¬ Frozen h m →
      (ofCalls h).items m = .ok (Contents.items ⟨entriesFor m h, docsFor m h, false⟩)) ∧
    (∀ h calls calls' later m, calls.Perm calls' → .freeze m ∉ calls →
      entriesFor m calls = entriesFor m calls' → docsFor m calls = docsFor m calls' →
      (ofCalls (h ++ calls ++ later)).items m = (ofCalls (h ++ calls' ++ later)).items m) ∧
    ∀ h calls calls' later m, calls.Perm calls' → .freeze m ∉ calls →
      (∀ c, (ofCalls (h ++ calls)).contents m = .ok c → (c.positioned.map Prod.fst).Nodup) →
      (ofCalls (h ++ calls ++ later)).items m = (ofCalls (h ++ calls' ++ later)).items m := by
  refine ⟨fun entries docs isFrozen => ?_, fun h m hm hf => ?_, ?_, ?_⟩
  · have harranged := arranges_mergeSort (Contents.positioned ⟨entries, docs, isFrozen⟩)
    refine ⟨_, fun ys => ⟨fun hys => ?_, fun hys => hys ▸ harranged⟩, rfl⟩
    exact eq_of_inOrder hys.le harranged.le fun p => (hys.ties p).trans (harranged.ties p).symm
  · rw [Store.items, (recordedBy_ofCalls h).unfrozen m hm hf]
    rfl
  · intro h calls calls' later m hperm hm hentries hdocs
    rw [ofCalls_append _ later, ofCalls_append _ later]
    exact ((alikeAt_of_interleaving hperm hm hentries hdocs).foldl_after later).items
  · intro h calls calls' later m hperm hm hpositions
    rw [ofCalls_append _ later, ofCalls_append _ later]
    exact ((alikeAt_of_perm hperm hm hpositions).foldl_after later).items

/-- Two entries and a doc, of which one entry comes first by its position. -/
def docFirst : List Call := [
  .addDoc ⟨"A"⟩ ⟨"d", ⟨3, 0⟩⟩, .addEntry ⟨"A"⟩ ⟨⟨3, 0⟩, .text "late"⟩, .addEntry ⟨"A"⟩ ⟨⟨1, 7⟩, .text "early"⟩]

/-- The doc comes between the entries. -/
def docBetween : List Call := [
  .addEntry ⟨"A"⟩ ⟨⟨3, 0⟩, .text "late"⟩, .addDoc ⟨"A"⟩ ⟨"d", ⟨3, 0⟩⟩, .addEntry ⟨"A"⟩ ⟨⟨1, 7⟩, .text "early"⟩]

/-- An entry and two docs, no two of them at the same position. -/
def scattered : List Call := [
  .addDoc ⟨"A"⟩ ⟨"d", ⟨2, 4⟩⟩, .addEntry ⟨"A"⟩ ⟨⟨2, 3⟩, .text "x"⟩, .addDoc ⟨"A"⟩ ⟨"c", ⟨1, 9⟩⟩]

/-- The items of `docBetween` with their positions, in order. -/
def arrangedBetween : List (Position × Item) := [
  (⟨1, 7⟩, .content (.text "early")), (⟨3, 0⟩, .content (.text "late")), (⟨3, 0⟩, .doc "d")]

theorem arranges_arrangedBetween :
    Arranges (Contents.positioned ⟨entriesFor ⟨"A"⟩ docBetween, docsFor ⟨"A"⟩ docBetween, false⟩)
      arrangedBetween where
  perm := by decide
  inOrder := by decide
  ties p := by
    have hrecorded : Contents.positioned ⟨entriesFor ⟨"A"⟩ docBetween, docsFor ⟨"A"⟩ docBetween, false⟩ = [
        (⟨3, 0⟩, .content (.text "late")), (⟨1, 7⟩, .content (.text "early")), (⟨3, 0⟩, .doc "d")] := rfl
    rw [hrecorded]
    by_cases hp : (⟨1, 7⟩ : Position) = p
    · subst hp; decide
    · simp [atPosition, arrangedBetween, List.filter_cons, hp]

theorem items_are_in_stable_order_sequences :
    docFirst.Perm docBetween ∧ .freeze ⟨"A"⟩ ∉ docFirst ∧
      (ofCalls ([.declare ⟨"A"⟩] ++ docFirst ++ [.freeze ⟨"A"⟩])).items ⟨"A"⟩ =
        (ofCalls ([.declare ⟨"A"⟩] ++ docBetween ++ [.freeze ⟨"A"⟩])).items ⟨"A"⟩ ∧
      (ofCalls docBetween).items ⟨"A"⟩ = .ok [.content (.text "early"), .content (.text "late"), .doc "d"] ∧
      (ofCalls scattered).items ⟨"A"⟩ = (ofCalls scattered.reverse).items ⟨"A"⟩ := by
  obtain ⟨harranged, hitems, hinterleaved, hany⟩ := items_are_in_stable_order
  have hperm : docFirst.Perm docBetween := by decide
  have hm : .freeze ⟨"A"⟩ ∉ docFirst := by decide
  refine ⟨hperm, hm, hinterleaved _ _ _ _ _ hperm hm (by decide) (by decide), ?_, ?_⟩
  · have hf : ¬ Frozen docBetween ⟨"A"⟩ := fun ⟨_, _, heq, _⟩ =>
      hm (hperm.mem_iff.mpr (heq ▸ List.mem_append_right _ (List.mem_cons_self ..)))
    obtain ⟨arranged, hunique, heq⟩ := harranged (entriesFor ⟨"A"⟩ docBetween) (docsFor ⟨"A"⟩ docBetween) false
    obtain rfl : arrangedBetween = arranged := (hunique _).mp arranges_arrangedBetween
    rw [hitems docBetween ⟨"A"⟩ (by decide) hf, heq]
    rfl
  · refine hany [] scattered scattered.reverse [] ⟨"A"⟩ (List.reverse_perm _).symm (by decide) fun c hc => ?_
    have hcontents : (ofCalls ([] ++ scattered)).contents ⟨"A"⟩ =
        .ok ⟨[⟨⟨2, 3⟩, .text "x"⟩], [⟨"d", ⟨2, 4⟩⟩, ⟨"c", ⟨1, 9⟩⟩], false⟩ := rfl
    rw [hcontents, Except.ok.injEq] at hc
    subst hc
    decide

end Store

end Compendium
