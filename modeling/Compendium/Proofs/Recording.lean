import Compendium.Proofs.Outcome
import Compendium.Proofs.Registry

/-!
# Recording modules

What a store holds can be read off the calls that were made on it (`recordedBy_ofCalls`): the modules
come in the order in which calls first mentioned them, and a module has what was added to it before it
was frozen for the first time. Whether a call fails depends on its own module only, on whether it was
mentioned and whether it was frozen.

A store that is changed in place keeps the order of the modules in a list of its own, and makes room
for a module before it looks whether anything can be added. No call can tell it from a store
(`perform_ofStore`), so there, too, a call that fails leaves everything as it was.
-/

namespace Compendium

inductive Store.Call where
  | declare (module : Name)
  | addEntry (module : Name) (e : Entry)
  | addDoc (module : Name) (d : Doc)
  | freeze (module : Name)
deriving DecidableEq, Repr

namespace Store

namespace Call

def module : Call → Name
  | declare module | addEntry module _ | addDoc module _ | freeze module => module

/-- Whether a call mentions its module even if the store does not have it yet. -/
def isRecording : Call → Bool
  | declare _ | addEntry .. | addDoc .. => true
  | freeze _ => false

/-- What a call that succeeds makes of the contents of its module. -/
def change : Call → Contents → Contents
  | declare _, c => c
  | addEntry _ e, c => { c with entries := c.entries ++ [e] }
  | addDoc _ d, c => { c with docs := c.docs ++ [d] }
  | freeze _, c => { c with isFrozen := true }

/-- What a call makes of its module, which may not be there. -/
def act (call : Call) : Option Contents → Option Contents
  | none => if call.isRecording then some (call.change .empty) else none
  | some c => some (if c.isFrozen then c else call.change c)

theorem eq_freeze {call : Call} (h : ¬ call.isRecording = true) : ∃ m, call = .freeze m := by
  cases call with
  | freeze m => exact ⟨m, rfl⟩
  | _ => exact absurd rfl h

end Call

def apply (s : Store) : Call → Except Error Store
  | .declare module => s.declare module
  | .addEntry module e => s.addEntry module e
  | .addDoc module d => s.addDoc module d
  | .freeze module => s.freeze module

def after (s : Store) (call : Call) : Store :=
  match s.apply call with
  | .ok s' => s'
  | .error _ => s

def ofCalls (h : List Call) : Store := h.foldl after empty

variable {s : Store} {call : Call} {m : Name} {c : Contents} {e : Error} {h : List Call}

/-! ### One call -/

theorem apply_of_isRecording (hr : call.isRecording = true) : s.apply call = s.update call.module call.change := by
  cases call with
  | freeze m => cases hr
  | _ => rfl

theorem apply_freeze_of_none (hm : s.modules.find? m = none) :
    s.apply (.freeze m) = .error (.moduleNotFound m) := by
  rw [apply, freeze, contents, hm]; rfl

theorem apply_freeze_of_some (hm : s.modules.find? m = some c) :
    s.apply (.freeze m) = .ok ⟨s.modules.set m { c with isFrozen := true }⟩ := by
  rw [apply, freeze, contents, hm]; rfl

theorem after_of_ok {s' : Store} (hs : s.apply call = .ok s') : s.after call = s' := by
  rw [after, hs]

theorem after_of_error (he : s.apply call = .error e) : s.after call = s := by
  rw [after, he]

/-- The three ways in which a call ends. -/
theorem apply_cases (s : Store) (call : Call) :
    (call.isRecording = true ∧ (∃ c, s.modules.find? call.module = some c ∧ c.isFrozen = true) ∧
      s.apply call = .error (.moduleFrozen call.module)) ∨
    (call.isRecording = false ∧ s.modules.find? call.module = none ∧
      s.apply call = .error (.moduleNotFound call.module)) ∨
    ∃ c, call.act (s.modules.find? call.module) = some c ∧
      (call.isRecording = true ∨ ∃ c', s.modules.find? call.module = some c') ∧
      s.apply call = .ok ⟨s.modules.set call.module c⟩ := by
  by_cases hr : call.isRecording = true
  · rw [apply_of_isRecording hr, update]
    cases hm : s.modules.find? call.module with
    | none =>
      refine Or.inr (Or.inr ⟨call.change .empty, if_pos hr, Or.inl hr, ?_⟩)
      rfl
    | some c =>
      cases hc : c.isFrozen with
      | true => exact Or.inl ⟨hr, ⟨c, rfl, hc⟩, by simp [hc]⟩
      | false =>
        refine Or.inr (Or.inr ⟨call.change c, ?_, Or.inl hr, by simp [hc]⟩)
        rw [Call.act, hc]; rfl
  · obtain ⟨m, rfl⟩ := Call.eq_freeze hr
    cases hm : s.modules.find? m with
    | none => exact Or.inr (Or.inl ⟨rfl, hm, apply_freeze_of_none hm⟩)
    | some c =>
      refine Or.inr (Or.inr ⟨{ c with isFrozen := true }, ?_, Or.inr ⟨c, hm⟩, apply_freeze_of_some hm⟩)
      rw [Call.module, hm, Call.act]
      split
      · rename_i hc; rw [← hc]
      · rfl

/-- A call works on its own module, and is not seen elsewhere. -/
theorem find?_after (s : Store) (call : Call) (m : Name) :
    (s.after call).modules.find? m =
      if call.module = m then call.act (s.modules.find? m) else s.modules.find? m := by
  rcases apply_cases s call with ⟨hr, ⟨c, hm, hc⟩, he⟩ | ⟨hr, hm, he⟩ | ⟨c, hact, -, hok⟩
  · rw [after_of_error he]
    split
    · rename_i h; subst h
      rw [hm, Call.act, if_pos hc]
    · rfl
  · rw [after_of_error he]
    split
    · rename_i h; subst h
      rw [hm, Call.act, hr]; rfl
    · rfl
  · rw [after_of_ok hok, Keyed.find?_set]
    split
    · rename_i h; subst h
      exact hact.symm
    · rfl

theorem mem_names_iff : m ∈ s.names ↔ ∃ c, s.modules.find? m = some c := by
  rw [names, ← Keyed.isSome_find?_iff, Option.isSome_iff_exists]

theorem names_set (s : Store) (m : Name) (c : Contents) :
    names ⟨s.modules.set m c⟩ = if m ∈ s.names then s.names else s.names ++ [m] :=
  Keyed.keys_set ..

theorem names_after (s : Store) (call : Call) :
    (s.after call).names =
      if call.isRecording = true ∧ call.module ∉ s.names then s.names ++ [call.module] else s.names := by
  rcases apply_cases s call with ⟨hr, ⟨c, hm, hc⟩, he⟩ | ⟨hr, hm, he⟩ | ⟨c, hact, hthere, hok⟩
  · rw [after_of_error he, if_neg fun h => h.2 (mem_names_iff.mpr ⟨c, hm⟩)]
  · rw [after_of_error he, if_neg fun h => Bool.false_ne_true (hr.symm.trans h.1)]
  · rw [after_of_ok hok, names_set]
    by_cases hin : call.module ∈ s.names
    · rw [if_pos hin, if_neg fun h => h.2 hin]
    · rw [if_neg hin, if_pos ⟨hthere.resolve_right fun h => hin (mem_names_iff.mpr h), hin⟩]

theorem find?_after_of_frozen (hm : s.modules.find? m = some c) (hc : c.isFrozen = true) (call : Call) :
    (s.after call).modules.find? m = some c := by
  rw [find?_after, hm, Call.act, if_pos hc, ite_self]

theorem find?_foldl_after_of_frozen (hm : s.modules.find? m = some c) (hc : c.isFrozen = true)
    (h : List Call) : (h.foldl after s).modules.find? m = some c := by
  induction h generalizing s with
  | nil => exact hm
  | cons call h ih => exact ih (find?_after_of_frozen hm hc call)

theorem names_prefix_after (s : Store) (call : Call) : s.names <+: (s.after call).names := by
  rw [names_after]
  split
  · exact List.prefix_append _ _
  · exact List.prefix_rfl

/-! ### What the calls say -/

/-- The modules that calls mention, as often as they do. -/
def mentioned (h : List Call) : List Name := (h.filter Call.isRecording).map Call.module

/-- Whether a module was frozen. That takes effect behind the first call that mentions the module. -/
def Frozen (h : List Call) (m : Name) : Prop :=
  ∃ before later, h = before ++ .freeze m :: later ∧ m ∈ mentioned before

def entriesFor (m : Name) (h : List Call) : List Entry :=
  h.filterMap fun
    | .addEntry m' e => if m' = m then some e else none
    | _ => none

def docsFor (m : Name) (h : List Call) : List Doc :=
  h.filterMap fun
    | .addDoc m' d => if m' = m then some d else none
    | _ => none

theorem ofCalls_concat (h : List Call) (call : Call) : ofCalls (h ++ [call]) = (ofCalls h).after call := by
  simp [ofCalls]

theorem ofCalls_append (h h' : List Call) : ofCalls (h ++ h') = h'.foldl after (ofCalls h) :=
  List.foldl_append

theorem mentioned_concat (hr : call.isRecording = true) (h : List Call) :
    mentioned (h ++ [call]) = mentioned h ++ [call.module] := by
  simp [mentioned, hr]

theorem mentioned_concat_freeze (h : List Call) (m : Name) : mentioned (h ++ [.freeze m]) = mentioned h := by
  simp [mentioned, Call.isRecording]

theorem mem_mentioned_concat (hm : call.module ≠ m) (h : List Call) :
    m ∈ mentioned (h ++ [call]) ↔ m ∈ mentioned h := by
  cases call with
  | freeze m' => rw [mentioned_concat_freeze]
  | _ => rw [mentioned_concat rfl, List.mem_append, List.mem_singleton, or_iff_left (Ne.symm hm)]

theorem frozen_concat :
    Frozen (h ++ [call]) m ↔ Frozen h m ∨ call = .freeze m ∧ m ∈ mentioned h := by
  constructor
  · rintro ⟨before, later, heq, hm⟩
    rcases List.eq_nil_or_concat' later with rfl | ⟨later, last, rfl⟩
    · obtain ⟨rfl, hlast⟩ := List.append_inj' heq rfl
      exact Or.inr ⟨List.singleton_injective hlast, hm⟩
    · rw [← List.cons_append, ← List.append_assoc] at heq
      exact Or.inl ⟨before, later, (List.append_inj' heq rfl).1, hm⟩
  · rintro (⟨before, later, rfl, hm⟩ | ⟨rfl, hm⟩)
    · exact ⟨before, later ++ [call], by simp, hm⟩
    · exact ⟨h, [], rfl, hm⟩

/-- A frozen module was frozen for a first time. -/
theorem Frozen.first (hf : Frozen h m) :
    ∃ before later, h = before ++ .freeze m :: later ∧ m ∈ mentioned before ∧ ¬ Frozen before m := by
  induction h using List.reverseRecOn with
  | nil =>
    obtain ⟨before, later, heq, -⟩ := hf
    simp at heq
  | append_singleton h call ih =>
    by_cases hbefore : Frozen h m
    · obtain ⟨before, later, rfl, hm, hfirst⟩ := ih hbefore
      exact ⟨before, later ++ [call], by simp, hm, hfirst⟩
    · rcases frozen_concat.mp hf with hf | ⟨rfl, hm⟩
      · exact absurd hf hbefore
      · exact ⟨h, [], rfl, hm, hbefore⟩

theorem entriesFor_concat (m : Name) (h : List Call) (call : Call) :
    entriesFor m (h ++ [call]) = entriesFor m h ++ entriesFor m [call] := by
  rw [entriesFor, List.filterMap_append]; rfl

theorem docsFor_concat (m : Name) (h : List Call) (call : Call) :
    docsFor m (h ++ [call]) = docsFor m h ++ docsFor m [call] := by
  rw [docsFor, List.filterMap_append]; rfl

/-- What a call changes in a module that is not frozen is what it says. -/
theorem change_eq (hr : call.isRecording = true) (c : Contents) :
    call.change c =
      { c with
        entries := c.entries ++ entriesFor call.module [call]
        docs := c.docs ++ docsFor call.module [call] } := by
  cases call with
  | freeze m => cases hr
  | _ => simp [Call.change, Call.module, entriesFor, docsFor]

theorem entriesFor_other (hm : call.module ≠ m) : entriesFor m [call] = [] := by
  cases call <;> simp_all [entriesFor, Call.module]

theorem docsFor_other (hm : call.module ≠ m) : docsFor m [call] = [] := by
  cases call <;> simp_all [docsFor, Call.module]

/-- Nothing was added to a module that no call mentions. -/
theorem recordedFor_eq_nil (hm : m ∉ mentioned h) : entriesFor m h = [] ∧ docsFor m h = [] := by
  have hcall : ∀ call ∈ h, call.isRecording = true → call.module ≠ m := fun call hmem hr hname =>
    hm (List.mem_map.mpr ⟨call, List.mem_filter.mpr ⟨hmem, hr⟩, hname⟩)
  constructor
  · refine List.filterMap_eq_nil_iff.mpr fun call hmem => ?_
    cases call with
    | addEntry m' e => exact if_neg (hcall _ hmem rfl)
    | _ => rfl
  · refine List.filterMap_eq_nil_iff.mpr fun call hmem => ?_
    cases call with
    | addDoc m' d => exact if_neg (hcall _ hmem rfl)
    | _ => rfl

/-! ### The store behind the calls -/

theorem names_ofCalls (h : List Call) : (ofCalls h).names = Name.distinct (mentioned h) := by
  induction h using List.reverseRecOn with
  | nil => rfl
  | append_singleton h call ih =>
    rw [ofCalls_concat, names_after, ih]
    simp only [Name.mem_distinct]
    cases call with
    | freeze m =>
      rw [mentioned_concat_freeze]
      exact if_neg fun hr => Bool.false_ne_true hr.1
    | _ =>
      rw [mentioned_concat rfl, Name.distinct_concat]
      simp [Call.isRecording]

/-- Until a module is frozen, it has all that was added to it. -/
theorem find?_ofCalls_of_not_frozen (hf : ¬ Frozen h m) :
    (ofCalls h).modules.find? m =
      if m ∈ mentioned h then some ⟨entriesFor m h, docsFor m h, false⟩ else none := by
  induction h using List.reverseRecOn with
  | nil => rfl
  | append_singleton h call ih =>
    rw [frozen_concat, not_or] at hf
    rw [ofCalls_concat, find?_after, ih hf.1]
    by_cases hm : call.module = m
    · subst hm
      rw [if_pos rfl]
      by_cases hr : call.isRecording = true
      · rw [mentioned_concat hr, if_pos (List.mem_append_right _ (List.mem_singleton_self _)),
          entriesFor_concat, docsFor_concat]
        split
        · simp [Call.act, change_eq hr]
        · rename_i hnew
          obtain ⟨hentries, hdocs⟩ := recordedFor_eq_nil hnew
          simp [Call.act, hr, change_eq hr, hentries, hdocs, Contents.empty]
      · obtain ⟨m, rfl⟩ := Call.eq_freeze hr
        have hnew : m ∉ mentioned h := fun hm => hf.2 ⟨rfl, hm⟩
        rw [mentioned_concat_freeze, Call.module, if_neg hnew, if_neg hnew]
        rfl
    · rw [if_neg hm, entriesFor_concat, docsFor_concat, entriesFor_other hm, docsFor_other hm,
        List.append_nil, List.append_nil]
      simp only [mem_mentioned_concat hm]

/-- Once frozen, a module stays what it was then. -/
theorem find?_ofCalls_of_first {before later : List Call} (hm : m ∈ mentioned before)
    (hfirst : ¬ Frozen before m) :
    (ofCalls (before ++ .freeze m :: later)).modules.find? m =
      some ⟨entriesFor m before, docsFor m before, true⟩ := by
  rw [ofCalls_append, List.foldl_cons]
  refine find?_foldl_after_of_frozen ?_ rfl later
  rw [find?_after, find?_ofCalls_of_not_frozen hfirst, if_pos hm]
  exact if_pos rfl

theorem find?_ofCalls_isFrozen (hm : (ofCalls h).modules.find? m = some c) : c.isFrozen = true ↔ Frozen h m := by
  by_cases hf : Frozen h m
  · obtain ⟨before, later, rfl, hmem, hfirst⟩ := hf.first
    rw [find?_ofCalls_of_first hmem hfirst, Option.some.injEq] at hm
    subst hm
    exact iff_of_true rfl hf
  · rw [find?_ofCalls_of_not_frozen hf] at hm
    split at hm
    · rw [Option.some.injEq] at hm
      subst hm
      exact iff_of_false Bool.false_ne_true hf
    · cases hm

theorem find?_ofCalls_eq_none_iff : (ofCalls h).modules.find? m = none ↔ m ∉ mentioned h := by
  rw [← Name.mem_distinct, ← names_ofCalls, mem_names_iff, Option.eq_none_iff_forall_ne_some, not_exists]

theorem contents_eq_ok_iff : s.contents m = .ok c ↔ s.modules.find? m = some c := by
  rw [contents]
  cases s.modules.find? m <;> simp

theorem contents_eq_error_iff : s.contents m = .error e ↔ e = .moduleNotFound m ∧ s.modules.find? m = none := by
  rw [contents]
  cases s.modules.find? m with
  | none => simp [eq_comm]
  | some c => simp

/-! ### A store that is changed in place -/

structure InPlace where
  contents : Keyed Name Contents
  order : List Name

namespace InPlace

def empty : InPlace := ⟨[], []⟩

def ofStore (s : Store) : InPlace := ⟨s.modules, s.names⟩

/-- Gives a module that was not mentioned before a place at the end. -/
def makeRoom (p : InPlace) (m : Name) : InPlace :=
  if (p.contents.find? m).isSome then p
  else { contents := p.contents.set m .empty, order := p.order ++ [m] }

def change (p : InPlace) (call : Call) (c : Contents) : InPlace :=
  { p with contents := p.contents.set call.module (call.change c) }

/-- Whether a call succeeds, and what it leaves behind. Room is made before anything can go wrong. -/
def perform (p : InPlace) (call : Call) : Except Error Unit × InPlace :=
  if call.isRecording then
    let p := p.makeRoom call.module
    let c := (p.contents.find? call.module).getD .empty
    if c.isFrozen then (.error (.moduleFrozen call.module), p) else (.ok (), p.change call c)
  else match p.contents.find? call.module with
    | some c => (.ok (), p.change call c)
    | none => (.error (.moduleNotFound call.module), p)

def ofCalls (h : List Call) : InPlace := h.foldl (fun p call => (p.perform call).2) empty

theorem change_ofStore_of_some (hm : s.modules.find? call.module = some c) (c' : Contents) :
    (ofStore s).change call c' = ofStore ⟨s.modules.set call.module (call.change c')⟩ := by
  rw [change, ofStore, ofStore, names_set, if_pos (mem_names_iff.mpr ⟨c, hm⟩)]

/-- The room that was made is filled at once. -/
theorem change_makeRoom_of_none (hm : s.modules.find? call.module = none) (c' : Contents) :
    ((ofStore s).makeRoom call.module).change call c' =
      ofStore ⟨s.modules.set call.module (call.change c')⟩ := by
  have hnew : call.module ∉ s.names := fun hin => by
    obtain ⟨c, hc⟩ := mem_names_iff.mp hin
    rw [hm] at hc
    cases hc
  rw [makeRoom, change, ofStore, ofStore, names_set, if_neg hnew]
  simp [hm, Keyed.set_set]

/-- A call does the same in place and on a store. -/
theorem perform_ofStore (s : Store) (call : Call) :
    (ofStore s).perform call = ((s.apply call).map fun _ => (), ofStore (s.after call)) := by
  by_cases hr : call.isRecording = true
  · rw [perform, if_pos hr, after, apply_of_isRecording hr, update]
    cases hm : s.modules.find? call.module with
    | none =>
      have hroom : ((ofStore s).makeRoom call.module).contents.find? call.module = some .empty := by
        rw [makeRoom, ofStore, hm]
        exact (Keyed.find?_set ..).trans (if_pos rfl)
      simp only [hroom, Option.getD_some, Option.getD_none, change_makeRoom_of_none hm]
      rfl
    | some c =>
      have hroom : (ofStore s).makeRoom call.module = ofStore s := by rw [makeRoom, ofStore, hm]; rfl
      have hfind : (ofStore s).contents.find? call.module = some c := hm
      simp only [hroom, hfind, Option.getD_some, change_ofStore_of_some hm]
      cases c.isFrozen <;> rfl
  · obtain ⟨m, rfl⟩ := Call.eq_freeze hr
    rw [perform, if_neg hr]
    cases hm : s.modules.find? m with
    | none =>
      have hfind : (ofStore s).contents.find? m = none := hm
      rw [after, apply_freeze_of_none hm, Call.module, hfind]
      rfl
    | some c =>
      have hfind : (ofStore s).contents.find? m = some c := hm
      rw [after, apply_freeze_of_some hm, Call.module, hfind]
      have hfreeze : (ofStore s).change (.freeze m) c =
          ofStore ⟨s.modules.set m (Call.change (.freeze m) c)⟩ := change_ofStore_of_some hm c
      dsimp only
      rw [hfreeze]
      rfl

theorem ofCalls_eq (h : List Call) : ofCalls h = ofStore (Store.ofCalls h) := by
  induction h using List.reverseRecOn with
  | nil => rfl
  | append_singleton h call ih =>
    rw [ofCalls, List.foldl_append, List.foldl_cons, List.foldl_nil, ← ofCalls, ih, perform_ofStore,
      Store.ofCalls_concat]

end InPlace

/-! ### A store and its calls -/

/-- A store has what calls recorded: the modules in the order in which they were first mentioned, and
for each of them what was added to it, up to the first time that it was frozen. -/
structure RecordedBy (s : Store) (h : List Call) : Prop where
  names : s.names = Name.distinct (mentioned h)
  nodup : s.names.Nodup
  contents_iff : ∀ m, m ∈ s.names ↔ ∃ c, s.contents m = .ok c
  unfrozen : ∀ m ∈ mentioned h, ¬ Frozen h m → s.contents m = .ok ⟨entriesFor m h, docsFor m h, false⟩
  frozen : ∀ m before later, h = before ++ .freeze m :: later → m ∈ mentioned before → ¬ Frozen before m →
    s.contents m = .ok ⟨entriesFor m before, docsFor m before, true⟩

/-- What goes wrong in a store, after some calls: recording in a frozen module, and freezing or
reading one that was never mentioned. -/
structure FailsBy (s : Store) (h : List Call) : Prop where
  recording : ∀ call e, call.isRecording = true →
    (s.apply call = .error e ↔ e = .moduleFrozen call.module ∧ Frozen h call.module)
  freeze : ∀ m e, s.apply (.freeze m) = .error e ↔ e = .moduleNotFound m ∧ m ∉ mentioned h
  contents : ∀ m e, s.contents m = .error e ↔ e = .moduleNotFound m ∧ m ∉ mentioned h
  items : ∀ m e, s.items m = .error e ↔ e = .moduleNotFound m ∧ m ∉ mentioned h

theorem recordedBy_ofCalls (h : List Call) : (ofCalls h).RecordedBy h where
  names := names_ofCalls h
  nodup := names_ofCalls h ▸ Name.nodup_distinct _
  contents_iff _ := mem_names_iff.trans (exists_congr fun _ => contents_eq_ok_iff.symm)
  unfrozen m hm hf := contents_eq_ok_iff.mpr (by rw [find?_ofCalls_of_not_frozen hf, if_pos hm])
  frozen m before later heq hm hfirst := by
    subst heq
    exact contents_eq_ok_iff.mpr (find?_ofCalls_of_first hm hfirst)

theorem update_eq_error_iff {f : Contents → Contents} :
    s.update m f = .error e ↔
      e = .moduleFrozen m ∧ ∃ c, s.modules.find? m = some c ∧ c.isFrozen = true := by
  rw [update]
  cases s.modules.find? m with
  | none => simp [Contents.empty]
  | some c =>
    cases hc : c.isFrozen with
    | false => simp [hc]
    | true => simp [hc, eq_comm (b := e)]

theorem failsBy_ofCalls (h : List Call) : (ofCalls h).FailsBy h where
  recording call e hr := by
    rw [apply_of_isRecording hr, update_eq_error_iff]
    refine and_congr_right fun _ => ⟨?_, fun hf => ?_⟩
    · rintro ⟨c, hm, hc⟩
      exact (find?_ofCalls_isFrozen hm).mp hc
    · obtain ⟨before, later, rfl, hm, hfirst⟩ := hf.first
      exact ⟨_, find?_ofCalls_of_first hm hfirst, rfl⟩
  freeze m e := by
    rw [← find?_ofCalls_eq_none_iff]
    cases hm : (ofCalls h).modules.find? m with
    | none => rw [apply_freeze_of_none hm]; simp [eq_comm]
    | some c => rw [apply_freeze_of_some hm]; simp
  contents m e := by rw [contents_eq_error_iff, find?_ofCalls_eq_none_iff]
  items m e := by
    rw [Store.items, bind_pure_eq_error_iff, contents_eq_error_iff, find?_ofCalls_eq_none_iff]

theorem contents_after_other (hm : m ≠ call.module) : (s.after call).contents m = s.contents m := by
  rw [contents, contents, find?_after, if_neg (Ne.symm hm)]

/-- After whatever calls, a store has what they recorded, the next call fails for the reasons there
are, and no call is seen in another module than its own. All this is so, too, when the calls change
the store in place; a call that fails then leaves everything as it was. -/
theorem calls_are_recorded (h : List Call) :
    (ofCalls h).RecordedBy h ∧ (ofCalls h).FailsBy h ∧
    (∀ call m, m ≠ call.module → ((ofCalls h).after call).contents m = (ofCalls h).contents m) ∧
    InPlace.ofCalls h = .ofStore (ofCalls h) ∧
    ∀ call,
      (InPlace.ofCalls h).perform call =
        (((ofCalls h).apply call).map fun _ => (), .ofStore ((ofCalls h).after call)) ∧
      ∀ e, ((InPlace.ofCalls h).perform call).1 = .error e →
        ((InPlace.ofCalls h).perform call).2 = InPlace.ofCalls h := by
  refine ⟨recordedBy_ofCalls h, failsBy_ofCalls h, fun call m hm => contents_after_other hm,
    InPlace.ofCalls_eq h, fun call => ?_⟩
  rw [InPlace.ofCalls_eq, InPlace.perform_ofStore]
  refine ⟨rfl, fun e he => ?_⟩
  cases hs : (ofCalls h).apply call with
  | ok s' =>
    rw [hs] at he
    cases he
  | error e' => rw [after_of_error hs]

/-- An entry that comes too late is not taken, and freezing for a second time changes nothing. -/
example :
    ofCalls [.freeze ⟨"A"⟩, .addEntry ⟨"A"⟩ ⟨⟨1, 0⟩, .text "x"⟩, .declare ⟨"B"⟩, .freeze ⟨"A"⟩,
        .addEntry ⟨"A"⟩ ⟨⟨2, 0⟩, .text "y"⟩, .freeze ⟨"A"⟩] =
      ⟨[(⟨"A"⟩, ⟨[⟨⟨1, 0⟩, .text "x"⟩], [], true⟩), (⟨"B"⟩, .empty)]⟩ := by
  rfl

end Store

end Compendium
