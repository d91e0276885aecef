import Compendium.Proofs.DraftOrder

/-!
# Loading a manifest

A scan of the modules of a manifest comes upon problems in a fixed order: a module whose name is
taken, and then its entries that name an unknown node. Loading fails with the first problem
(`Yields`), and if there is none, then the store has the modules of the manifest in their order, with
what the records say and with the nodes that the names mean after all imports and drafts.

The modules before the one at hand are never touched again: a new module stands at the end of the
store, and each step of its loading changes this last place only.
-/

namespace Compendium

/-! ### Problems -/

def EntryRecord.problems (known : Name → Bool) (e : EntryRecord) : List Error :=
  if e.type = .node ∧ known ⟨e.data⟩ = false then [.nodeNotFound ⟨e.data⟩] else []

def ModuleRecord.problems (known : Name → Bool) (earlier : List Name) (m : ModuleRecord) : List Error :=
  (if m.name ∈ earlier then [.repeatedModule m.name] else []) ++
    m.entries.flatMap (EntryRecord.problems known)

/-- The problems of several modules, in the order in which a scan comes upon them. -/
def ModuleRecord.allProblems (known : Name → Bool) : List Name → List ModuleRecord → List Error
  | _, [] => []
  | earlier, m :: ms => m.problems known earlier ++ allProblems known (earlier ++ [m.name]) ms

namespace Manifest

def declares (m : Manifest) (name : Name) : Bool :=
  m.imports.any (fun i => i.nodes.any fun n => n.name = name) || m.drafts.any fun d => d.name = name

def problems (m : Manifest) : List Error := ModuleRecord.allProblems m.declares [] m.modules

end Manifest

/-- `x` fails with the first one of `problems`. If there is none, it gives something with `P`. -/
def Yields {α : Type} (problems : List Error) (P : α → Prop) (x : Except Error α) : Prop :=
  match problems with
  | [] => ∃ a, x = .ok a ∧ P a
  | e :: _ => x = .error e

namespace Yields

variable {α β : Type} {ps qs : List Error} {P : α → Prop} {Q : β → Prop} {x : Except Error α}

theorem ok {a : α} (h : P a) : Yields [] P (.ok a) := ⟨a, rfl, h⟩

theorem mono {P' : α → Prop} (h : Yields ps P x) (hP : ∀ a, P a → P' a) : Yields ps P' x := by
  cases ps with
  | nil =>
    obtain ⟨a, hx, ha⟩ := h
    exact ⟨a, hx, hP a ha⟩
  | cons e ps => exact h

theorem bind {f : α → Except Error β} (h : Yields ps P x) (hf : ∀ a, P a → Yields qs Q (f a)) :
    Yields (ps ++ qs) Q (x >>= f) := by
  cases ps with
  | nil =>
    obtain ⟨a, rfl, ha⟩ := h
    exact hf a ha
  | cons e ps =>
    have hx : x = .error e := h
    rw [hx]; rfl

theorem eq_error_iff (h : Yields ps P x) (e : Error) : x = .error e ↔ ps.head? = some e := by
  cases ps with
  | nil =>
    obtain ⟨a, rfl, -⟩ := h
    simp
  | cons e' ps =>
    have hx : x = .error e' := h
    rw [hx, List.head?_cons, Except.error.injEq, Option.some.injEq]

/-- What succeeded had no problem. -/
theorem of_eq_ok {a : α} (h : Yields ps P x) (hx : x = .ok a) : ps = [] ∧ P a := by
  cases ps with
  | nil =>
    obtain ⟨a', ha', hP⟩ := h
    obtain rfl : a' = a := Except.ok.inj (ha'.symm.trans hx)
    exact ⟨rfl, hP⟩
  | cons e ps => cases hx.symm.trans (show x = .error e from h)

end Yields

/-! ### What is loaded -/

/-- `x` is what an entry says, with the node that its name means. -/
def EntryRecord.RecordedAs (r : Registry) (e : EntryRecord) (x : Entry) : Prop :=
  x.position = e.position ∧
    match e.type with
    | .library => x.content = .library ⟨e.data⟩
    | .module => x.content = .module ⟨e.data⟩
    | .node => ∃ n, r.lookup ⟨e.data⟩ = some n ∧ x.content = .node n
    | .text => x.content = .text e.data

/-- `c` is what the record of a module says, and nothing can be added to it. -/
structure ModuleRecord.LoadedAs (r : Registry) (m : ModuleRecord) (c : Contents) : Prop where
  entries : List.Forall₂ (EntryRecord.RecordedAs r) m.entries c.entries
  docs : c.docs = m.docs
  frozen : c.isFrozen = true

/-! ### Steps at the last place of the store -/

namespace Store

variable {t : Keyed Name Contents} {name : Name} {c : Contents}

theorem update_last (hname : name ∉ t.keys) (hc : c.isFrozen = false) (f : Contents → Contents) :
    update ⟨t ++ [(name, c)]⟩ name f = .ok ⟨t ++ [(name, f c)]⟩ := by
  unfold update
  simp only [Keyed.find?_concat hname, Option.getD_some, hc, Keyed.set_concat hname]
  rfl

theorem declare_new (hname : name ∉ t.keys) : declare ⟨t⟩ name = .ok ⟨t ++ [(name, .empty)]⟩ := by
  unfold declare update
  simp only [Keyed.find?_eq_none hname, Option.getD_none, Keyed.set_of_not_mem hname]
  rfl

theorem freeze_last (hname : name ∉ t.keys) :
    freeze ⟨t ++ [(name, c)]⟩ name = .ok ⟨t ++ [(name, { c with isFrozen := true })]⟩ := by
  unfold freeze contents
  simp only [Keyed.find?_concat hname, Keyed.set_concat hname]
  rfl

theorem foldlM_addDoc_last (hname : name ∉ t.keys) (hc : c.isFrozen = false) (docs : List Doc) :
    docs.foldlM (fun s d => s.addDoc name d) (⟨t ++ [(name, c)]⟩ : Store) =
      .ok ⟨t ++ [(name, { c with docs := c.docs ++ docs })]⟩ := by
  induction docs generalizing c with
  | nil => simp [pure, Except.pure]
  | cons d docs ih =>
    rw [List.foldlM_cons, addDoc, update_last hname hc]
    show docs.foldlM _ _ = _
    rw [ih (c := { c with docs := c.docs ++ [d] }) hc, List.append_assoc]
    rfl

end Store

namespace Session

variable {r : Registry} {t : Keyed Name Contents} {name : Name} {c : Contents}

theorem entry_yields (r : Registry) (e : EntryRecord) :
    Yields (e.problems r.contains) (e.RecordedAs r) (entry r e) := by
  obtain ⟨position, type, data⟩ := e
  cases type with
  | library => exact .ok ⟨rfl, rfl⟩
  | module => exact .ok ⟨rfl, rfl⟩
  | text => exact .ok ⟨rfl, rfl⟩
  | node =>
    cases hn : r.lookup ⟨data⟩ with
    | none =>
      have hc : r.contains ⟨data⟩ = false := by simp [Registry.contains, hn]
      simp [EntryRecord.problems, hc, Yields, entry, hn]
    | some n =>
      have hc : r.contains ⟨data⟩ = true := by simp [Registry.contains, hn]
      simp [EntryRecord.problems, hc, Yields, entry, hn, EntryRecord.RecordedAs]

theorem addEntries_yield (hname : name ∉ t.keys) (hc : c.isFrozen = false) (es : List EntryRecord) :
    Yields (es.flatMap (EntryRecord.problems r.contains))
      (fun s => ∃ xs, List.Forall₂ (EntryRecord.RecordedAs r) es xs ∧
        s = ⟨t ++ [(name, { c with entries := c.entries ++ xs })]⟩)
      (es.foldlM (fun s e => do s.addEntry name (← entry r e)) (⟨t ++ [(name, c)]⟩ : Store)) := by
  induction es generalizing c with
  | nil => exact .ok ⟨[], .nil, by simp⟩
  | cons e es ih =>
    rw [List.foldlM_cons, List.flatMap_cons, bind_assoc]
    refine (entry_yields r e).bind fun x hx => ?_
    rw [Store.addEntry, Store.update_last hname hc]
    refine (ih (c := { c with entries := c.entries ++ [x] }) hc).mono ?_
    rintro s ⟨xs, hxs, rfl⟩
    exact ⟨x :: xs, .cons hx hxs, by simp⟩

theorem addModule_eq (s : Store) (m : ModuleRecord) :
    addModule r s m =
      if (s.contents m.name).isOk then .error (.repeatedModule m.name)
      else
        s.declare m.name >>= fun s =>
          m.entries.foldlM (fun s e => do s.addEntry m.name (← entry r e)) s >>= fun s =>
            m.docs.foldlM (fun s d => s.addDoc m.name d) s >>= fun s => s.freeze m.name := by
  unfold addModule
  split <;> rfl

/-- A new module comes last, with what its record says. -/
theorem addModule_yields (m : ModuleRecord) :
    Yields (m.problems r.contains t.keys)
      (fun s => m.name ∉ t.keys ∧ ∃ c, m.LoadedAs r c ∧ s = ⟨t ++ [(m.name, c)]⟩)
      (addModule r ⟨t⟩ m) := by
  rw [addModule_eq]
  by_cases hname : m.name ∈ t.keys
  · obtain ⟨c, hc⟩ := Option.isSome_iff_exists.mp ((Keyed.isSome_find?_iff t m.name).2 hname)
    have hok : (Store.contents ⟨t⟩ m.name).isOk = true := by unfold Store.contents; rw [hc]; rfl
    rw [hok, if_pos rfl, ModuleRecord.problems, if_pos hname]
    rfl
  · have hok : (Store.contents ⟨t⟩ m.name).isOk = false := by
      unfold Store.contents; rw [Keyed.find?_eq_none hname]; rfl
    rw [hok, if_neg Bool.false_ne_true, Store.declare_new hname, ModuleRecord.problems, if_neg hname,
      List.nil_append]
    have hentries := addEntries_yield (r := r) (c := .empty) hname rfl m.entries
    show Yields _ _ (_ >>= _)
    rw [← List.append_nil (m.entries.flatMap _)]
    refine hentries.bind ?_
    rintro s ⟨xs, hxs, rfl⟩
    rw [Store.foldlM_addDoc_last hname rfl]
    show Yields [] _ (Store.freeze _ _)
    rw [Store.freeze_last hname]
    exact .ok ⟨hname, _, ⟨hxs, rfl, rfl⟩, rfl⟩

/-- Modules that are loaded one after the other stand in their order behind those before them. -/
theorem addModules_yield (ms : List ModuleRecord) (hnd : t.keys.Nodup) :
    Yields (ModuleRecord.allProblems r.contains t.keys ms)
      (fun s => s.names = t.keys ++ ms.map ModuleRecord.name ∧ s.names.Nodup ∧ t ⊆ s.modules ∧
        ∀ m ∈ ms, ∃ c, m.LoadedAs r c ∧ (m.name, c) ∈ s.modules)
      (ms.foldlM (addModule r) (⟨t⟩ : Store)) := by
  induction ms generalizing t with
  | nil => exact .ok ⟨by simp [Store.names], hnd, List.Subset.refl t, by simp⟩
  | cons m ms ih =>
    rw [List.foldlM_cons, ModuleRecord.allProblems]
    refine (addModule_yields m).bind ?_
    rintro s ⟨hname, c, hc, rfl⟩
    have hkeys : Keyed.keys (t ++ [(m.name, c)]) = t.keys ++ [m.name] := by simp [Keyed.keys]
    have hrest := ih (t := t ++ [(m.name, c)])
      (by rw [← Keyed.set_of_not_mem hname]; exact Keyed.nodup_keys_set hnd)
    rw [hkeys] at hrest
    refine hrest.mono ?_
    rintro s ⟨hnames, hs, hsub, hms⟩
    refine ⟨by simpa using hnames, hs, fun p hp => hsub (List.mem_append_left _ hp), ?_⟩
    intro m' hm'
    rcases List.mem_cons.mp hm' with rfl | hm'
    · exact ⟨c, hc, hsub (List.mem_append_right _ (List.mem_singleton_self _))⟩
    · exact hms m' hm'

end Session

namespace Manifest

variable {m : Manifest} {s : Session}

/-- The names of the modules are different, and each entry of a node names one. -/
structure Consistent (m : Manifest) : Prop where
  names : (m.modules.map ModuleRecord.name).Nodup
  entries : ∀ r ∈ m.modules, ∀ e ∈ r.entries, e.type = .node → m.declares ⟨e.data⟩ = true

/-- The session of a manifest: its settings, the nodes that its names mean, and its modules. -/
structure LoadedAs (m : Manifest) (s : Session) : Prop where
  config : s.config = m.config
  /-- A name means the last node that a draft of that name became, and if there is none, then the
  last imported node of that name in the earliest unit with one. -/
  lookup : ∀ name, s.registry.lookup name =
    (Node.lastNamed m.nodes name).or (ImportedUnit.lookup m.imports name)
  names : s.store.names = m.modules.map ModuleRecord.name
  contents : ∀ r ∈ m.modules, ∃ c, s.store.contents r.name = .ok c ∧ r.LoadedAs s.registry c

theorem declares_iff {name : Name} :
    m.declares name = true ↔ m.Imports name ∨ name ∈ m.drafts.map Draft.name := by
  simp [declares, Imports]

theorem contains_registry (name : Name) : m.registry.contains name = m.declares name := by
  rw [Bool.eq_iff_iff, registry, contains_registryBefore, declares_iff, DraftedBefore, List.take_length]

theorem lookup_registry (name : Name) : m.registry.lookup name =
    (Node.lastNamed m.nodes name).or (ImportedUnit.lookup m.imports name) := by
  rw [registry_eq_foldl, Registry.lookup_foldl_register, Session.lookup_importAll]

theorem ofManifest_yields (m : Manifest) : Yields m.problems m.LoadedAs (Session.ofManifest m) := by
  have hmodules := Session.addModules_yield (r := m.registry) (t := []) m.modules List.nodup_nil
  rw [funext contains_registry] at hmodules
  rw [ofManifest_eq, ← List.append_nil m.problems]
  refine hmodules.bind ?_
  rintro store ⟨hnames, hnd, -, hmods⟩
  refine .ok ⟨rfl, lookup_registry, hnames, fun r hr => ?_⟩
  obtain ⟨c, hc, hmem⟩ := hmods r hr
  refine ⟨c, ?_, hc⟩
  unfold Store.contents
  rw [Keyed.find?_of_mem hnd hmem]

/-! ### Consistency -/

theorem allProblems_eq_nil {known : Name → Bool} {earlier : List Name} {ms : List ModuleRecord}
    (hnd : earlier.Nodup) :
    ModuleRecord.allProblems known earlier ms = [] ↔
      (earlier ++ ms.map ModuleRecord.name).Nodup ∧
        ∀ r ∈ ms, ∀ e ∈ r.entries, e.type = .node → known ⟨e.data⟩ = true := by
  induction ms generalizing earlier with
  | nil => simpa [ModuleRecord.allProblems] using hnd
  | cons r ms ih =>
    have hentries : r.entries.flatMap (EntryRecord.problems known) = [] ↔
        ∀ e ∈ r.entries, e.type = .node → known ⟨e.data⟩ = true := by
      simp [List.flatMap_eq_nil_iff, EntryRecord.problems]
    rw [ModuleRecord.allProblems, ModuleRecord.problems, List.append_eq_nil_iff, List.append_eq_nil_iff,
      hentries]
    by_cases hr : r.name ∈ earlier
    · have hdup : ¬ (earlier ++ (r :: ms).map ModuleRecord.name).Nodup := fun h =>
        (List.nodup_append.mp h).2.2 _ hr _ (List.mem_cons_self ..) rfl
      rw [if_pos hr]
      constructor
      · rintro ⟨⟨h, -⟩, -⟩
        exact absurd h (List.cons_ne_nil _ _)
      · rintro ⟨h, -⟩
        exact absurd h hdup
    · have hnd' : (earlier ++ [r.name]).Nodup := by
        refine List.nodup_append.mpr ⟨hnd, List.nodup_singleton _, ?_⟩
        rintro x hx y hy rfl
        exact hr (List.mem_singleton.mp hy ▸ hx)
      rw [ih hnd', List.append_assoc, List.singleton_append, List.map_cons, List.forall_mem_cons]
      simp only [hr, if_false, true_and]
      grind

theorem problems_eq_nil : m.problems = [] ↔ m.Consistent := by
  rw [problems, allProblems_eq_nil List.nodup_nil]
  exact ⟨fun h => ⟨h.1, h.2⟩, fun h => ⟨h.names, h.entries⟩⟩

theorem mem_allProblems {known : Name → Bool} {earlier : List Name} {ms : List ModuleRecord} {e : Error}
    (h : e ∈ ModuleRecord.allProblems known earlier ms) :
    ∃ name, e = .repeatedModule name ∨ e = .nodeNotFound name := by
  induction ms generalizing earlier with
  | nil => exact absurd h List.not_mem_nil
  | cons r ms ih =>
    rcases List.mem_append.mp h with h | h
    · rcases List.mem_append.mp h with h | h
      · split at h
        · exact ⟨_, Or.inl (List.mem_singleton.mp h)⟩
        · exact absurd h List.not_mem_nil
      · obtain ⟨x, -, hx⟩ := List.mem_flatMap.mp h
        unfold EntryRecord.problems at hx
        split at hx
        · exact ⟨_, Or.inr (List.mem_singleton.mp hx)⟩
        · exact absurd hx List.not_mem_nil
    · exact ih h

/-- Loading a manifest fails with the first problem that a scan of its modules comes upon, which is a
repeated module or an unknown node; it succeeds exactly for the consistent manifests; and then the
session holds what the manifest says. -/
theorem ofManifest_faithful (m : Manifest) :
    (∀ e, Session.ofManifest m = .error e ↔ m.problems.head? = some e) ∧
    (∀ e, Session.ofManifest m = .error e →
      ∃ name, e = .repeatedModule name ∨ e = .nodeNotFound name) ∧
    (m.Consistent ↔ ∃ s, Session.ofManifest m = .ok s) ∧
    ∀ s, Session.ofManifest m = .ok s → m.LoadedAs s := by
  have hyields := ofManifest_yields m
  have herror := hyields.eq_error_iff
  have hok : ∀ s, Session.ofManifest m = .ok s → m.problems = [] ∧ m.LoadedAs s := by
    intro s hs
    cases hp : m.problems with
    | nil =>
      rw [hp] at hyields
      obtain ⟨s', hs', hloaded⟩ := hyields
      rw [hs', Except.ok.injEq] at hs
      exact ⟨rfl, hs ▸ hloaded⟩
    | cons e ps =>
      have he := (herror e).2 (by rw [hp]; rfl)
      rw [hs] at he; cases he
  refine ⟨herror, fun e he => ?_, ⟨fun hc => ?_, fun ⟨s, hs⟩ => ?_⟩, fun s hs => (hok s hs).2⟩
  · exact mem_allProblems (List.mem_of_head? ((herror e).1 he))
  · rw [problems_eq_nil.2 hc] at hyields
    obtain ⟨s, hs, -⟩ := hyields
    exact ⟨s, hs⟩
  · exact problems_eq_nil.1 (hok s hs).1

end Manifest

end Compendium
