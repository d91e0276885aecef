import Mathlib.Data.Finset.Card
import Compendium.Proofs.Constants
import Compendium.Proofs.Registry

/-!
# Vertices by number

A graph of constants holds the names that occur, each of them once and in the order in which they came up
(`vertices_ofConstants`), and the list of all mentions. So the mentions of a constant in one role can be read off
the constants that were added (`directDeps_ofConstants`).

Libraries of graphs keep vertices by number, with a table of the numbers of names beside them, and give the arcs
of a vertex with the newest one first. `NumberedGraph` is such a graph, which grows while arcs are added to it. It
represents the graph of the same constants all the time (`NumberedGraph.Represents`), and gives the same answers.
-/

namespace Compendium

/-- The names that a constant brings up: its own, and those that it mentions. -/
def Constant.occurrences (c : Constant) : List Name := c.name :: c.mentions.map Mention.target

namespace ConstantGraph

variable {g : ConstantGraph} {name : Name} {names : List Name}

theorem vertices_addVertex (h : g.vertices = Name.distinct names) :
    (g.addVertex name).vertices = Name.distinct (names ++ [name]) := by
  have hmem : name ∈ names ↔ g.vertices.contains name = true := by
    rw [h, List.contains_iff_mem, Name.mem_distinct]
  rw [Name.distinct_concat, addVertex]
  by_cases hname : g.vertices.contains name = true
  · rw [if_pos hname, if_pos (hmem.2 hname), h]
  · rw [if_neg hname, if_neg fun hn => hname (hmem.1 hn), h]

theorem vertices_foldl_addMention (h : g.vertices = Name.distinct names) (ms : List Mention) :
    (ms.foldl addMention g).vertices = Name.distinct (names ++ ms.map Mention.target) := by
  induction ms generalizing g names with
  | nil => simpa using h
  | cons m ms ih =>
    have hm : (g.addMention m).vertices = Name.distinct (names ++ [m.target]) := vertices_addVertex h
    rw [List.foldl_cons, ih hm]
    simp

theorem vertices_add (h : g.vertices = Name.distinct names) (c : Constant) :
    (g.add c).vertices = Name.distinct (names ++ c.occurrences) := by
  show (c.mentions.foldl addMention (g.addVertex c.name)).vertices = _
  rw [vertices_foldl_addMention (vertices_addVertex h), Constant.occurrences, List.append_assoc]
  rfl

theorem vertices_foldl_add (h : g.vertices = Name.distinct names) (cs : List Constant) :
    (cs.foldl add g).vertices = Name.distinct (names ++ cs.flatMap Constant.occurrences) := by
  induction cs generalizing g names with
  | nil => simpa using h
  | cons c cs ih =>
    rw [List.foldl_cons, ih (vertices_add h c)]
    simp

theorem vertices_ofConstants (cs : List Constant) :
    (ofConstants cs).vertices = Name.distinct (cs.flatMap Constant.occurrences) := by
  have hnone : empty.vertices = Name.distinct [] := rfl
  exact vertices_foldl_add hnone cs

theorem nodup_vertices (cs : List Constant) : (ofConstants cs).vertices.Nodup := by
  rw [vertices_ofConstants]
  exact Name.nodup_distinct _

end ConstantGraph

/-- Of the mentions of a constant, those in one role are what it mentions there. -/
theorem Constant.targets_filter_mentions (c : Constant) (role : Role) (name : Name) :
    (c.mentions.filter fun m => m.source = name && m.role = role).map Mention.target =
      if c.name = name then c.deps role else [] := by
  have hpart (r : Role) : ((c.deps r).map (Mention.mk c.name r)).filter (fun m => m.source = name && m.role = role) =
      if c.name = name ∧ r = role then (c.deps r).map (Mention.mk c.name r) else [] := by
    rw [List.filter_map]
    by_cases h : c.name = name ∧ r = role
    · rw [if_pos h, List.filter_eq_self.mpr fun _ _ => by simp [h]]
    · rw [if_neg h, List.filter_eq_nil_iff.mpr fun _ _ => by simpa using h]
      rfl
  rw [mentions, List.filter_append, hpart, hpart]
  by_cases hname : c.name = name
  · cases role <;> simp [hname, Function.comp_def]
  · simp [hname]

theorem ConstantGraph.directDeps_ofConstants (cs : List Constant) (role : Role) (name : Name) :
    (ofConstants cs).directDeps role name = (cs.filter fun c => c.name = name).flatMap (·.deps role) := by
  rw [directDeps, mentions_ofConstants]
  induction cs with
  | nil => rfl
  | cons c cs ih =>
    rw [List.flatMap_cons, List.filter_append, List.map_append, ih, Constant.targets_filter_mentions]
    by_cases hc : c.name = name
    · simp [hc]
    · simp [hc]

/-! ### Graphs by number -/

/-- A mention as it is kept between numbered vertices. -/
structure Arc where
  source : Nat
  role : Role
  target : Nat

structure NumberedGraph where
  /-- The name of each vertex, by its number. -/
  names : List Name
  /-- The number of each name. -/
  numbers : Keyed Name Nat
  /-- The arcs of all vertices, the newest one first. -/
  arcs : List Arc

namespace NumberedGraph

def empty : NumberedGraph := ⟨[], [], []⟩

/-- The number of a name. A name that is new gets the next one. -/
def number (g : NumberedGraph) (name : Name) : Nat × NumberedGraph :=
  match g.numbers.find? name with
  | some i => (i, g)
  | none =>
    let i := g.names.length
    (i, { g with names := g.names ++ [name], numbers := g.numbers.set name i })

def link (source : Nat) (role : Role) (g : NumberedGraph) (name : Name) : NumberedGraph :=
  let (target, g) := g.number name
  { g with arcs := ⟨source, role, target⟩ :: g.arcs }

def add (g : NumberedGraph) (c : Constant) : NumberedGraph :=
  let (source, g) := g.number c.name
  c.valueDeps.foldl (link source .value) (c.typeDeps.foldl (link source .type) g)

def ofConstants (cs : List Constant) : NumberedGraph := cs.foldl add empty

def contains (g : NumberedGraph) (name : Name) : Bool := (g.numbers.find? name).isSome

/-- The targets of a vertex in one role, back in the order in which they were added. -/
def directDeps (g : NumberedGraph) (role : Role) (name : Name) : List Name :=
  match g.numbers.find? name with
  | none => []
  | some i =>
    let arcs := (g.arcs.filter (·.source = i)).filter (·.role = role)
    (arcs.filterMap fun a => g.names[a.target]?).reverse

/-- The arc stands for the mention. -/
def StandsFor (g : NumberedGraph) (a : Arc) (m : Mention) : Prop :=
  g.names[a.source]? = some m.source ∧ a.role = m.role ∧ g.names[a.target]? = some m.target

/-- The numbered graph has the vertices of the other one, with a number for each name, and an arc for each
mention in the reverse order. -/
structure Represents (g : NumberedGraph) (h : ConstantGraph) : Prop where
  names_eq : g.names = h.vertices
  find?_iff : ∀ name i, g.numbers.find? name = some i ↔ g.names[i]? = some name
  arcs : List.Forall₂ g.StandsFor g.arcs.reverse h.mentions

variable {g g' : NumberedGraph} {h : ConstantGraph} {name source : Name} {role : Role} {i : Nat}

theorem getElem?_mono (hpre : g.names <+: g'.names) (hi : g.names[i]? = some name) :
    g'.names[i]? = some name := by
  obtain ⟨later, hlater⟩ := hpre
  obtain ⟨hlt, -⟩ := List.getElem?_eq_some_iff.mp hi
  rw [← hlater, List.getElem?_append_left hlt, hi]

theorem StandsFor.mono {a : Arc} {m : Mention} (hpre : g.names <+: g'.names) (ha : g.StandsFor a m) :
    g'.StandsFor a m :=
  ⟨getElem?_mono hpre ha.1, ha.2.1, getElem?_mono hpre ha.2.2⟩

theorem number_of_find? (hi : g.numbers.find? name = some i) : g.number name = (i, g) := by
  rw [number, hi]

theorem number_of_new (hnew : g.numbers.find? name = none) :
    g.number name = (g.names.length,
      { g with names := g.names ++ [name], numbers := g.numbers.set name g.names.length }) := by
  rw [number, hnew]

/-- A new name can get the next number. Until then neither the number nor the name was in use. -/
theorem find?_set_length (h : ∀ n i, g.numbers.find? n = some i ↔ g.names[i]? = some n) (hnew : name ∉ g.names)
    (n : Name) (i : Nat) :
    (g.numbers.set name g.names.length).find? n = some i ↔ (g.names ++ [name])[i]? = some n := by
  rw [Keyed.find?_set]
  rcases Nat.lt_trichotomy i g.names.length with hi | rfl | hi
  · rw [List.getElem?_append_left hi]
    split
    · rename_i heq
      subst heq
      refine iff_of_false (fun h => ?_) fun h => hnew (List.mem_of_getElem? h)
      have := Option.some.inj h
      omega
    · exact h n i
  · rw [List.getElem?_concat_length, Option.some.injEq]
    split
    · rename_i heq
      exact iff_of_true rfl heq
    · rename_i hne
      refine iff_of_false (fun hfind => ?_) hne
      have := (List.getElem?_eq_some_iff.mp ((h n _).1 hfind)).1
      omega
  · have hget : (g.names ++ [name])[i]? = none := by
      rw [List.getElem?_eq_none_iff, List.length_append, List.length_singleton]
      omega
    rw [hget]
    refine iff_of_false (fun hfind => ?_) (Option.some_ne_none n).symm
    split at hfind
    · have := Option.some.inj hfind
      omega
    · have := (List.getElem?_eq_some_iff.mp ((h n _).1 hfind)).1
      omega

namespace Represents

theorem empty : NumberedGraph.empty.Represents .empty := ⟨rfl, by simp [NumberedGraph.empty, Keyed.find?], .nil⟩

/-- No vertex has the number of another one. -/
theorem number_unique (hg : g.Represents h) {j : Nat} (hi : g.names[i]? = some name) (hj : g.names[j]? = some name) :
    i = j := by
  have hfind := (hg.find?_iff name j).2 hj
  rw [(hg.find?_iff name i).2 hi] at hfind
  exact Option.some.inj hfind

theorem find?_eq_none_iff (hg : g.Represents h) : g.numbers.find? name = none ↔ name ∉ h.vertices := by
  rw [← hg.names_eq, List.mem_iff_getElem?, Option.eq_none_iff_forall_ne_some, not_exists]
  exact forall_congr' fun i => not_congr (hg.find?_iff name i)

theorem number (hg : g.Represents h) (name : Name) :
    (g.number name).2.Represents (h.addVertex name) ∧ (g.number name).2.names[(g.number name).1]? = some name ∧
      g.names <+: (g.number name).2.names := by
  cases hfind : g.numbers.find? name with
  | some i =>
    have hi : g.names[i]? = some name := (hg.find?_iff name i).1 hfind
    have hold : h.addVertex name = h := by
      rw [ConstantGraph.addVertex, if_pos]
      rw [List.contains_iff_mem, ← hg.names_eq]
      exact List.mem_of_getElem? hi
    rw [number_of_find? hfind, hold]
    exact ⟨hg, hi, List.prefix_rfl⟩
  | none =>
    have hnew : name ∉ h.vertices := hg.find?_eq_none_iff.1 hfind
    have hpre : g.names <+: g.names ++ [name] := List.prefix_append ..
    rw [number_of_new hfind, ConstantGraph.addVertex, if_neg (by simpa using hnew)]
    have hnumber := find?_set_length hg.find?_iff (hg.names_eq ▸ hnew)
    exact ⟨⟨by rw [hg.names_eq], hnumber, hg.arcs.imp fun _ _ ha => StandsFor.mono hpre ha⟩, by simp, hpre⟩

theorem link (hg : g.Represents h) (hi : g.names[i]? = some source) (role : Role) (name : Name) :
    (link i role g name).Represents (h.addMention ⟨source, role, name⟩) ∧
      (link i role g name).names[i]? = some source := by
  obtain ⟨hnumber, htarget, hpre⟩ := hg.number name
  have hsource := getElem?_mono hpre hi
  refine ⟨⟨hnumber.names_eq, hnumber.find?_iff, ?_⟩, hsource⟩
  show List.Forall₂ _ ((⟨i, role, _⟩ :: _ : List Arc).reverse) (_ ++ [_])
  rw [List.reverse_cons]
  exact List.rel_append hnumber.arcs (.cons ⟨hsource, rfl, htarget⟩ .nil)

theorem links (hg : g.Represents h) (hi : g.names[i]? = some source) (role : Role) (names : List Name) :
    (names.foldl (NumberedGraph.link i role) g).Represents
        ((names.map (Mention.mk source role)).foldl ConstantGraph.addMention h) ∧
      (names.foldl (NumberedGraph.link i role) g).names[i]? = some source := by
  induction names generalizing g h with
  | nil => exact ⟨hg, hi⟩
  | cons name names ih =>
    obtain ⟨hlink, hsource⟩ := hg.link hi role name
    exact ih hlink hsource

theorem add (hg : g.Represents h) (c : Constant) : (g.add c).Represents (h.add c) := by
  obtain ⟨hnumber, hsource, -⟩ := hg.number c.name
  obtain ⟨htypes, hsource⟩ := hnumber.links hsource .type c.typeDeps
  rw [ConstantGraph.add, List.foldl_append]
  exact (htypes.links hsource .value c.valueDeps).1

theorem ofConstants (cs : List Constant) :
    (NumberedGraph.ofConstants cs).Represents (ConstantGraph.ofConstants cs) := by
  unfold NumberedGraph.ofConstants ConstantGraph.ofConstants
  have hempty := Represents.empty
  generalize NumberedGraph.empty = g at hempty
  generalize ConstantGraph.empty = h at hempty
  induction cs generalizing g h with
  | nil => exact hempty
  | cons c cs ih => exact ih _ _ (hempty.add c)

/-! ### The same answers -/

theorem contains_eq (hg : g.Represents h) (name : Name) : g.contains name = h.contains name := by
  rw [Bool.eq_iff_iff, NumberedGraph.contains, ConstantGraph.contains, List.contains_iff_mem, ← not_iff_not,
    ← hg.find?_eq_none_iff, Option.not_isSome_iff_eq_none]

/-- Only a vertex is the source of a mention. -/
theorem source_mem (hg : g.Represents h) {m : Mention} (hm : m ∈ h.mentions) : m.source ∈ h.vertices := by
  have harcs := hg.arcs
  rw [← hg.names_eq]
  generalize g.arcs.reverse = arcs at harcs
  generalize h.mentions = ms at harcs hm
  induction harcs with
  | nil => exact absurd hm List.not_mem_nil
  | cons ham _ ih =>
    rcases List.mem_cons.mp hm with rfl | hm
    · exact List.mem_of_getElem? ham.1
    · exact ih hm

theorem source_iff (hg : g.Represents h) (hi : g.names[i]? = some name) {a : Arc} {m : Mention}
    (ham : g.StandsFor a m) : a.source = i ↔ m.source = name := by
  constructor
  · rintro rfl
    exact Option.some.inj (ham.1.symm.trans hi)
  · rintro rfl
    exact hg.number_unique ham.1 hi

theorem directDeps_eq (hg : g.Represents h) (role : Role) (name : Name) :
    g.directDeps role name = h.directDeps role name := by
  rw [NumberedGraph.directDeps, ConstantGraph.directDeps]
  cases hfind : g.numbers.find? name with
  | none =>
    have hsource : ∀ m ∈ h.mentions, m.source ≠ name := by
      rintro m hm rfl
      exact hg.find?_eq_none_iff.1 hfind (hg.source_mem hm)
    rw [List.filter_eq_nil_iff.mpr fun m hm => by simp [hsource m hm]]
    rfl
  | some i =>
    have hi : g.names[i]? = some name := (hg.find?_iff name i).1 hfind
    have harcs := hg.arcs
    dsimp only
    rw [List.filter_filter, ← List.filterMap_reverse, ← List.filter_reverse]
    generalize g.arcs.reverse = arcs at harcs ⊢
    generalize h.mentions = ms at harcs ⊢
    induction harcs with
    | nil => rfl
    | @cons a m arcs ms ham _ ih =>
      have hsame : (a.role = role ∧ a.source = i) ↔ (m.source = name ∧ m.role = role) := by
        rw [ham.2.1, hg.source_iff hi ham, and_comm]
      by_cases hm : m.source = name ∧ m.role = role
      · rw [List.filter_cons_of_pos (by simpa using hsame.2 hm), List.filter_cons_of_pos (by simpa using hm),
          List.filterMap_cons_some (f := fun a : Arc => g.names[a.target]?) ham.2.2, List.map_cons, ih]
      · have ha : ¬ (a.role = role ∧ a.source = i) := fun ha => hm (hsame.1 ha)
        rw [List.filter_cons_of_neg (by simpa using ha), List.filter_cons_of_neg (by simpa using hm), ih]

end Represents

end NumberedGraph

namespace ConstantGraph

/-- After constants have been added one after the other, the graph holds the names that occurred, as one of them or
as something that they mention, each as one vertex. What a name mentions in one of the roles is what the constants
of this name mention there, one list behind the other and each list as it is, with nothing from the other role. A
graph with numbered vertices, built of the same constants in the same way, represents this graph and gives the same
answers. -/
theorem ofConstants_represents (cs : List Constant) :
    let g := ofConstants cs
    (∀ name, g.contains name = true ↔ ∃ c ∈ cs, c.name = name ∨ name ∈ c.deps .type ∨ name ∈ c.deps .value) ∧
    g.size = (cs.flatMap Constant.occurrences).toFinset.card ∧
    (∀ name, g.contains name = true → ∃! i : Nat, g.vertices[i]? = some name) ∧
    (∀ role name, g.directDeps role name = (cs.filter fun c => c.name = name).flatMap (·.deps role)) ∧
    let n := NumberedGraph.ofConstants cs
    n.Represents g ∧ n.names.length = g.size ∧ (∀ name, n.contains name = g.contains name) ∧
      ∀ role name, n.directDeps role name = g.directDeps role name := by
  intro g
  have hrepresents := NumberedGraph.Represents.ofConstants cs
  have hcontains (name : Name) : g.contains name = true ↔ name ∈ g.vertices := List.contains_iff_mem
  refine ⟨fun name => ?_, ?_, fun name hname => ?_, fun role name => directDeps_ofConstants cs role name,
    hrepresents, ?_, hrepresents.contains_eq, hrepresents.directDeps_eq⟩
  · rw [hcontains, mem_vertices_ofConstants]
    rfl
  · have hmem : g.vertices.toFinset = (cs.flatMap Constant.occurrences).toFinset := by
      ext name
      rw [List.mem_toFinset, List.mem_toFinset, vertices_ofConstants, Name.mem_distinct]
    rw [← hmem, List.toFinset_card_of_nodup (nodup_vertices cs)]
    rfl
  · obtain ⟨i, hi⟩ := List.mem_iff_getElem?.mp ((hcontains name).1 hname)
    refine ⟨i, hi, fun j hj => ?_⟩
    rw [← hrepresents.names_eq] at hi hj
    exact hrepresents.number_unique hj hi
  · rw [hrepresents.names_eq]
    rfl

end ConstantGraph

end Compendium
