import Mathlib.Data.Finset.Card
import Mathlib.Data.Finset.Dedup
import Mathlib.Data.Finset.Filter
import SchemaGate.Digraph.Reachability

/-!
# Cycles of a finite graph

A graph has finitely many nodes, so walks in it come back. The nodes that lead to a
node off every cycle are fewer for its predecessors (`ancestors_ssubset`), so whoever
has a predecessor of its own sort again and again is reached from a cycle. The nodes that
a node leads to are fewer for its successors (`descendants_ssubset`), which bounds the
length of walks in a graph without cycles.
-/

namespace SchemaGate.Digraph

variable {κ : Type} [DecidableEq κ] {graph : Digraph κ}

theorem Edge.target_mem {source target : κ} (h : graph.Edge source target) :
    target ∈ graph.edges.keys := h.1

theorem OnCycle.node_mem {node : κ} (h : graph.OnCycle node) : node ∈ graph.edges.keys := by
  obtain ⟨_, he, _⟩ := h
  exact he.source_mem

/-- One more edge at the end. -/
theorem Reaches.snoc {source middle target : κ} (h : graph.Reaches source middle)
    (he : graph.Edge middle target) : graph.Reaches source target :=
  h.trans (.step he (.refl he.target_mem))

/-- An edge back to where a path started closes a cycle through its source. -/
theorem onCycle_source_of_reaches {source target : κ} (he : graph.Edge source target)
    (h : graph.Reaches target source) : graph.OnCycle source :=
  ⟨target, he, h⟩

/-- An edge back to where a path started closes a cycle through its target. -/
theorem onCycle_target_of_reaches {source target : κ} (he : graph.Edge source target)
    (h : graph.Reaches target source) : graph.OnCycle target := by
  cases h with
  | refl => exact ⟨source, he, .refl he.source_mem⟩
  | step hm hr => exact ⟨_, hm, hr.snoc he⟩

/-- A node on a cycle has a predecessor on a cycle. -/
theorem OnCycle.exists_predecessor {node : κ} (h : graph.OnCycle node) :
    ∃ before, graph.OnCycle before ∧ graph.Edge before node := by
  obtain ⟨successor, he, hr⟩ := h
  have walk : ∀ {start}, graph.Reaches start node → graph.Reaches node start →
      start = node ∨ ∃ before, graph.OnCycle before ∧ graph.Edge before node := by
    intro start hs
    induction hs with
    | refl => exact fun _ => .inl rfl
    | step hm hw ih =>
      intro hb
      rcases ih he hr (hb.snoc hm) with rfl | found
      · exact .inr ⟨_, onCycle_source_of_reaches hm hb, hm⟩
      · exact .inr found
  rcases walk hr (.step he (.refl he.target_mem)) with rfl | found
  · exact ⟨successor, ⟨successor, he, hr⟩, he⟩
  · exact found

section Counting

open Classical in
/-- The nodes from which a node is reached. -/
noncomputable def ancestors (graph : Digraph κ) (node : κ) : Finset κ :=
  graph.edges.keys.toFinset.filter fun other => graph.Reaches other node

open Classical in
/-- The nodes that are reached from a node. -/
noncomputable def descendants (graph : Digraph κ) (node : κ) : Finset κ :=
  graph.edges.keys.toFinset.filter fun other => graph.Reaches node other

theorem mem_ancestors {node other : κ} :
    other ∈ graph.ancestors node ↔ graph.Reaches other node := by
  simp only [ancestors, Finset.mem_filter, List.mem_toFinset]
  exact ⟨And.right, fun h => ⟨h.source_mem, h⟩⟩

theorem mem_descendants {node other : κ} :
    other ∈ graph.descendants node ↔ graph.Reaches node other := by
  simp only [descendants, Finset.mem_filter, List.mem_toFinset]
  exact ⟨And.right, fun h => ⟨h.target_mem, h⟩⟩

/-- Before a node off every cycle fewer nodes lead to its predecessor. -/
theorem ancestors_ssubset {source target : κ} (he : graph.Edge source target)
    (hc : ¬ graph.OnCycle target) : graph.ancestors source ⊂ graph.ancestors target := by
  rw [Finset.ssubset_iff_of_subset fun other ho =>
    mem_ancestors.mpr ((mem_ancestors.mp ho).snoc he)]
  refine ⟨target, mem_ancestors.mpr (.refl he.target_mem), fun h => hc ?_⟩
  exact onCycle_target_of_reaches he (mem_ancestors.mp h)

/-- Behind a node off every cycle its successor leads to fewer nodes. -/
theorem descendants_ssubset {source target : κ} (he : graph.Edge source target)
    (hc : ¬ graph.OnCycle source) : graph.descendants target ⊂ graph.descendants source := by
  rw [Finset.ssubset_iff_of_subset fun other ho =>
    mem_descendants.mpr (.step he (mem_descendants.mp ho))]
  refine ⟨source, mem_descendants.mpr (.refl he.source_mem), fun h => hc ?_⟩
  exact onCycle_source_of_reaches he (mem_descendants.mp h)

/-- A node leads to no more nodes than there are. -/
theorem card_descendants_le (graph : Digraph κ) (node : κ) :
    (graph.descendants node).card ≤ graph.edges.length := by
  classical
  have fewer : (graph.descendants node).card ≤ graph.edges.keys.toFinset.card :=
    Finset.card_filter_le _ _
  have bound := fewer.trans (List.toFinset_card_le graph.edges.keys)
  rwa [KeyedList.keys, List.length_map] at bound

end Counting

/-- Where each node of some sort has a predecessor of that sort, each one is reached from
a cycle. -/
theorem exists_onCycle_reaches {sort : κ → Prop} {node : κ}
    (hp : ∀ node, sort node → ∃ before, sort before ∧ graph.Edge before node)
    (h : sort node) : ∃ start, graph.OnCycle start ∧ graph.Reaches start node := by
  -- the induction is on how many nodes lead to the node
  induction hn : (graph.ancestors node).card using Nat.strongRecOn generalizing node with
  | _ count ih =>
    obtain ⟨before, hb, he⟩ := hp node h
    by_cases hc : graph.OnCycle node
    · exact ⟨node, hc, .refl he.target_mem⟩
    · have fewer := Finset.card_lt_card (ancestors_ssubset he hc)
      obtain ⟨start, hs, hr⟩ := ih _ (hn ▸ fewer) hb rfl
      exact ⟨start, hs, hr.snoc he⟩

end SchemaGate.Digraph
