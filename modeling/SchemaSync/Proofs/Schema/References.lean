import SchemaSync.Proofs.OrderedMap
import SchemaSync.Schema.Basic

/-!
# Who refers to a table

`Snapshot.referencingTables` is built edge by edge. What it lists under a name is what the foreign keys
say: the tables that hold a key to a table of that name (`Snapshot.mem_referencingTables`).
-/

namespace SchemaSync

def listedUnder (graph : OrderedMap String (List String)) (name : String) : List String :=
  (graph.get? name).getD []

/-- Enter an edge into a graph, unless it is there. -/
def enterEdge (graph : OrderedMap String (List String)) (e : String × String) :
    OrderedMap String (List String) :=
  graph.insert e.1 (if (listedUnder graph e.1).contains e.2 then listedUnder graph e.1
    else listedUnder graph e.1 ++ [e.2])

theorem mem_listedUnder_enterEdge {graph : OrderedMap String (List String)} {e : String × String}
    {target owner : String} :
    owner ∈ listedUnder (enterEdge graph e) target ↔
      owner ∈ listedUnder graph target ∨ (target, owner) = e := by
  obtain ⟨source, name⟩ := e
  rw [listedUnder, enterEdge, OrderedMap.get?_insert]
  by_cases hsource : source = target
  · subst hsource
    rw [if_pos rfl, Option.getD_some]
    by_cases hknown : name ∈ listedUnder graph source
    · rw [if_pos (List.contains_iff_mem.mpr hknown)]
      constructor
      · exact Or.inl
      · intro h
        rcases h with h | h
        · exact h
        · cases h
          exact hknown
    · rw [if_neg (by simpa using hknown), List.mem_append, List.mem_singleton, Prod.mk.injEq]
      simp
  · rw [if_neg hsource, Prod.mk.injEq]
    simp [listedUnder, Ne.symm hsource]

theorem mem_listedUnder_foldl {edges : List (String × String)} {target owner : String} :
    ∀ {graph : OrderedMap String (List String)},
      owner ∈ listedUnder (edges.foldl enterEdge graph) target ↔
        owner ∈ listedUnder graph target ∨ (target, owner) ∈ edges := by
  induction edges with
  | nil => simp
  | cons e edges ih =>
      intro graph
      rw [List.foldl_cons, ih, mem_listedUnder_enterEdge, List.mem_cons, or_assoc]

namespace Snapshot

variable {s : Snapshot}

/-- Under a name stand the tables that hold a foreign key to it. -/
theorem mem_referencingTables {target owner : String} :
    owner ∈ (s.referencingTables.get? target).getD [] ↔
      ∃ t ∈ s.tables.values, t.name = owner ∧ ∃ f ∈ t.foreignKeys, f.targetName = target := by
  have hgraph : s.referencingTables = (s.tables.values.flatMap fun t =>
      t.foreignKeys.map fun f => (f.targetName, t.name)).foldl enterEdge .empty := rfl
  show owner ∈ listedUnder s.referencingTables target ↔ _
  rw [hgraph, mem_listedUnder_foldl]
  simp only [listedUnder, OrderedMap.get?_empty, Option.getD_none, List.not_mem_nil, false_or,
    List.mem_flatMap, List.mem_map, Prod.mk.injEq]
  constructor
  · intro h
    rcases h with ⟨t, ht, f, hf, htarget, hname⟩
    exact ⟨t, ht, hname, f, hf, htarget⟩
  · intro h
    rcases h with ⟨t, ht, hname, f, hf, htarget⟩
    exact ⟨t, ht, f, hf, htarget, hname⟩

/-- No table is listed under a name exactly if no foreign key leads to it. -/
theorem referencingTables_eq_nil_iff {target : String} :
    (s.referencingTables.get? target).getD [] = [] ↔
      ∀ t ∈ s.tables.values, ∀ f ∈ t.foreignKeys, f.targetName ≠ target := by
  rw [List.eq_nil_iff_forall_not_mem]
  constructor
  · intro h t ht f hf htarget
    exact h t.name (mem_referencingTables.mpr ⟨t, ht, rfl, f, hf, htarget⟩)
  · intro h owner howner
    obtain ⟨t, ht, -, f, hf, htarget⟩ := mem_referencingTables.mp howner
    exact h t ht f hf htarget

end Snapshot
end SchemaSync
