import Mathlib.Logic.Relation
import Compendium.Constant

/-!
# What the searches find

The two searches through the graph of constants against its paths. `reachFrom` gives the least set
that has the names it starts from and is closed under mentions, so it holds what a path leads to.
`frontierFrom` gives the names for which `stop` holds at the end of a path on which it holds for no
name before. Every path to such a name has a first one of them (`Leads.exists_first`), which is why
nothing that lies behind the frontier is hidden from those who follow its names.
-/

namespace Compendium.ConstantGraph
open Relation

variable {g : ConstantGraph} {name a b x marker : Name} {stop isNode : Name → Bool}
  {seeds seen ahead ahead' : List Name}

/-- `a` mentions `b` in its type or in its value. -/
def Edge (g : ConstantGraph) (a b : Name) : Prop := b ∈ g.allDeps a

/-- A path of mentions leads from `a` to `b`. It may be empty. -/
def Leads (g : ConstantGraph) : Name → Name → Prop := ReflTransGen g.Edge

/-- `a` mentions `b`, and a search for the names of `stop` goes on behind `a`. -/
def OpenEdge (g : ConstantGraph) (stop : Name → Bool) (a b : Name) : Prop :=
  stop a = false ∧ g.Edge a b

/-- A path leads from `a` to `b` on which no name before `b` is one of `stop`. -/
def OpenLeads (g : ConstantGraph) (stop : Name → Bool) : Name → Name → Prop :=
  ReflTransGen (g.OpenEdge stop)

theorem edge_iff : g.Edge a b ↔ b ∈ g.directDeps .type a ∨ b ∈ g.directDeps .value a := by
  simp [Edge, allDeps]

theorem mem_directDeps {role : Role} : b ∈ g.directDeps role a ↔ ⟨a, role, b⟩ ∈ g.mentions := by
  simp only [directDeps, List.mem_map, List.mem_filter, Bool.and_eq_true, decide_eq_true_eq]
  constructor
  · rintro ⟨⟨s, r, t⟩, ⟨hm, rfl, rfl⟩, rfl⟩
    exact hm
  · intro h
    exact ⟨_, ⟨h, rfl, rfl⟩, rfl⟩

theorem edge_of_mem_directDeps {role : Role} (h : b ∈ g.directDeps role a) : g.Edge a b := by
  cases role with
  | type => exact edge_iff.2 (Or.inl h)
  | value => exact edge_iff.2 (Or.inr h)

theorem OpenLeads.leads (h : g.OpenLeads stop a b) : g.Leads a b :=
  ReflTransGen.mono (fun _ _ h => h.2) _ _ h

/-! ### The state of a search

A search has looked at the names in `seen`, and those in `ahead` are still to come. -/

/-- A search has looked at `a` or is going to. -/
def Known (seen ahead : List Name) (a : Name) : Prop := a ∈ seen ∨ a ∈ ahead

/-- What `follow` leads to from a name that a search has looked at is known to it. -/
def Swept (follow : Name → Name → Prop) (seen ahead : List Name) : Prop :=
  ∀ a ∈ seen, ∀ b, follow a b → Known seen ahead b

theorem Known.skip (hs : name ∈ seen) (h : Known seen (name :: ahead) a) : Known seen ahead a := by
  rcases h with h | h
  · exact Or.inl h
  rcases List.mem_cons.mp h with rfl | h
  · exact Or.inl hs
  · exact Or.inr h

theorem Known.visit (hsub : ahead ⊆ ahead') (h : Known seen (name :: ahead) a) :
    Known (name :: seen) ahead' a := by
  rcases h with h | h
  · exact Or.inl (List.mem_cons_of_mem _ h)
  rcases List.mem_cons.mp h with rfl | h
  · exact Or.inl (List.mem_cons_self ..)
  · exact Or.inr (hsub h)

namespace Swept
variable {follow : Name → Name → Prop}

theorem nil : Swept follow [] ahead :=
  fun _ ha => absurd ha List.not_mem_nil

theorem skip (hs : name ∈ seen) (h : Swept follow seen (name :: ahead)) : Swept follow seen ahead :=
  fun a ha b hab => (h a ha b hab).skip hs

theorem visit (hsub : ahead ⊆ ahead') (hname : ∀ b, follow name b → b ∈ ahead')
    (h : Swept follow seen (name :: ahead)) : Swept follow (name :: seen) ahead' := by
  intro a ha b hab
  rcases List.mem_cons.mp ha with rfl | ha
  · exact Or.inr (hname b hab)
  · exact (h a ha b hab).visit hsub

/-- A search that has come to its end has seen everything that its names lead to. -/
theorem mem_of_path (h : Swept follow seen []) (ha : a ∈ seen) (hab : ReflTransGen follow a b) :
    b ∈ seen := by
  induction hab with
  | refl => exact ha
  | tail _ hbc ih => exact (h _ ih _ hbc).resolve_right List.not_mem_nil

end Swept

/-! ### Everything that can be reached -/

/-- A search stays inside each set that has its names and is closed under mentions. -/
theorem reachFrom_least {Q : Name → Prop} (hQ : ∀ a b, Q a → g.Edge a b → Q b)
    (h : ∀ a, Known seen ahead a → Q a) : ∀ a ∈ g.reachFrom ahead seen, Q a := by
  fun_induction g.reachFrom ahead seen with
  | case1 seen => exact fun a ha => h a (Or.inl ha)
  | case2 seen name ahead hs ih =>
    refine ih fun a ha => h a ?_
    exact ha.imp_right (List.mem_cons_of_mem _)
  | case3 seen name ahead hs ih =>
    have hname : Q name := h name (Or.inr (List.mem_cons_self ..))
    refine ih fun a ha => ?_
    rcases ha with ha | ha
    · rcases List.mem_cons.mp ha with rfl | ha
      · exact hname
      · exact h a (Or.inl ha)
    · rcases List.mem_append.mp ha with ha | ha
      · exact hQ name a hname ha
      · exact h a (Or.inr (List.mem_cons_of_mem _ ha))

/-- A search finds what it knows and everything that this leads to. -/
theorem mem_reachFrom_of_leads (h : Swept g.Edge seen ahead) (ha : Known seen ahead a)
    (hax : g.Leads a x) : x ∈ g.reachFrom ahead seen := by
  fun_induction g.reachFrom ahead seen with
  | case1 seen => exact h.mem_of_path (ha.resolve_right List.not_mem_nil) hax
  | case2 seen name ahead hs ih =>
    have hs : name ∈ seen := by simpa using hs
    exact ih (h.skip hs) (ha.skip hs)
  | case3 seen name ahead hs ih =>
    have hsub : ahead ⊆ g.allDeps name ++ ahead := List.subset_append_right ..
    exact ih (h.visit hsub fun b hb => List.mem_append_left _ hb) (ha.visit hsub)

theorem mem_reachFrom_nil : x ∈ g.reachFrom seeds [] ↔ ∃ s ∈ seeds, g.Leads s x := by
  constructor
  · refine reachFrom_least (Q := fun x => ∃ s ∈ seeds, g.Leads s x) ?_ ?_ x
    · rintro a b ⟨s, hs, hsa⟩ hab
      exact ⟨s, hs, hsa.tail hab⟩
    · intro a ha
      exact ⟨a, ha.resolve_left List.not_mem_nil, .refl⟩
  · rintro ⟨s, hs, hsx⟩
    exact mem_reachFrom_of_leads .nil (Or.inr hs) hsx

theorem reaches_iff :
    g.reaches seeds marker = true ↔
      marker ∈ g.vertices ∧ ∃ s ∈ seeds, s ∈ g.vertices ∧ g.Leads s marker := by
  simp [reaches, contains, mem_reachFrom_nil, and_assoc]

/-! ### What is met first -/

theorem frontierFrom_sound (h : x ∈ g.frontierFrom stop ahead seen) :
    x ∉ seen ∧ stop x = true ∧ ∃ s ∈ ahead, g.OpenLeads stop s x := by
  fun_induction g.frontierFrom stop ahead seen with
  | case1 seen => exact absurd h List.not_mem_nil
  | case2 seen name ahead _ ih =>
    obtain ⟨hx, hstop, s, hs, hsx⟩ := ih h
    exact ⟨hx, hstop, s, List.mem_cons_of_mem _ hs, hsx⟩
  | case3 seen name ahead hs hstop ih =>
    rcases List.mem_cons.mp h with rfl | h
    · exact ⟨by simpa using hs, hstop, x, List.mem_cons_self .., .refl⟩
    · obtain ⟨hx, hstop, s, hs, hsx⟩ := ih h
      exact ⟨fun hx' => hx (List.mem_cons_of_mem _ hx'), hstop, s, List.mem_cons_of_mem _ hs, hsx⟩
  | case4 seen name ahead hs hopen ih =>
    obtain ⟨hx, hstop, s, hs, hsx⟩ := ih h
    refine ⟨fun hx' => hx (List.mem_cons_of_mem _ hx'), hstop, ?_⟩
    rcases List.mem_append.mp hs with hs | hs
    · exact ⟨s, List.mem_cons_of_mem _ hs, hsx⟩
    · exact ⟨name, List.mem_cons_self .., .head ⟨by simpa using hopen, hs⟩ hsx⟩

/-- A path from a known name to one of `stop`, on which there is no other, ends in the answer, unless
the search has been at its end before. -/
theorem mem_frontierFrom_of_openLeads (h : Swept (g.OpenEdge stop) seen ahead) (hx : stop x = true)
    (ha : Known seen ahead a) (hax : g.OpenLeads stop a x) :
    x ∈ seen ∨ x ∈ g.frontierFrom stop ahead seen := by
  fun_induction g.frontierFrom stop ahead seen with
  | case1 seen => exact Or.inl (h.mem_of_path (ha.resolve_right List.not_mem_nil) hax)
  | case2 seen name ahead hs ih =>
    have hs : name ∈ seen := by simpa using hs
    exact ih (h.skip hs) (ha.skip hs)
  | case3 seen name ahead hs hname ih =>
    have hsub : ahead ⊆ ahead := List.Subset.refl ahead
    have hclosed : ∀ b, g.OpenEdge stop name b → b ∈ ahead := by
      intro b hb
      rw [hb.1] at hname
      exact absurd hname Bool.false_ne_true
    rcases ih (h.visit hsub hclosed) (ha.visit hsub) with hmem | hmem
    · rcases List.mem_cons.mp hmem with rfl | hmem
      · exact Or.inr (List.mem_cons_self ..)
      · exact Or.inl hmem
    · exact Or.inr (List.mem_cons_of_mem _ hmem)
  | case4 seen name ahead hs hname ih =>
    have hsub : ahead ⊆ ahead ++ g.allDeps name := List.subset_append_left ..
    have hopen : ∀ b, g.OpenEdge stop name b → b ∈ ahead ++ g.allDeps name :=
      fun b hb => List.mem_append_right _ hb.2
    rcases ih (h.visit hsub hopen) (ha.visit hsub) with hmem | hmem
    · rcases List.mem_cons.mp hmem with rfl | hmem
      · exact absurd hx hname
      · exact Or.inl hmem
    · exact Or.inr hmem

theorem mem_frontierFrom_nil :
    x ∈ g.frontierFrom stop seeds [] ↔ stop x = true ∧ ∃ s ∈ seeds, g.OpenLeads stop s x := by
  constructor
  · intro h
    exact (frontierFrom_sound h).2
  · rintro ⟨hstop, s, hs, hsx⟩
    exact (mem_frontierFrom_of_openLeads .nil hstop (Or.inr hs) hsx).resolve_left List.not_mem_nil

def stopsAt (isNode : Name → Bool) (marker : Name) (name : Name) : Bool :=
  name = marker || isNode name

theorem mem_collectUses :
    x ∈ g.collectUses seeds isNode marker ↔
      (x = marker ∨ isNode x = true) ∧ ∃ s ∈ seeds, g.OpenLeads (stopsAt isNode marker) s x := by
  have : g.collectUses seeds isNode marker = g.frontierFrom (stopsAt isNode marker) seeds [] := rfl
  rw [this, mem_frontierFrom_nil]
  simp [stopsAt]

/-! ### The cut between the searches -/

/-- A path to a name of `stop` has a first name of `stop` on it. -/
theorem Leads.exists_first (stop : Name → Bool) (hstop : stop x = true) (h : g.Leads a x) :
    ∃ u, stop u = true ∧ g.OpenLeads stop a u ∧ g.Leads u x := by
  induction h using ReflTransGen.head_induction_on with
  | refl => exact ⟨x, hstop, .refl, .refl⟩
  | @head a b hab hbx ih =>
    by_cases ha : stop a = true
    · exact ⟨a, ha, .refl, .head hab hbx⟩
    · obtain ⟨u, hu, hbu, hux⟩ := ih
      exact ⟨u, hu, .head ⟨by simpa using ha, hab⟩ hbu, hux⟩

/-- Who follows the names of the frontier comes to the marker exactly if who follows everything
does. -/
theorem exists_leads_collectUses_iff :
    (∃ u ∈ g.collectUses seeds isNode marker, g.Leads u marker) ↔ ∃ s ∈ seeds, g.Leads s marker := by
  constructor
  · rintro ⟨u, hu, hux⟩
    obtain ⟨-, s, hs, hsu⟩ := mem_collectUses.1 hu
    exact ⟨s, hs, hsu.leads.trans hux⟩
  · rintro ⟨s, hs, hsx⟩
    obtain ⟨u, hu, hsu, hux⟩ :=
      hsx.exists_first (stopsAt isNode marker) (by simp [stopsAt])
    exact ⟨u, mem_collectUses.2 ⟨by simpa [stopsAt] using hu, s, hs, hsu⟩, hux⟩

end Compendium.ConstantGraph
