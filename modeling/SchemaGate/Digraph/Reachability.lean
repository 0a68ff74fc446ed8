import SchemaGate.Digraph.Elimination

/-!
# Reachability in a graph

Edges count only between nodes of the graph. A node reaches itself and whatever its
successors reach; it is on a cycle if it is reached from one of its successors.
-/

namespace SchemaGate.Digraph

variable {κ : Type} [DecidableEq κ]

/-- An edge leads from one node to another node. -/
def Edge (graph : Digraph κ) (source target : κ) : Prop :=
  target ∈ graph.edges.keys ∧
    ∃ targets, graph.edges.find? source = some targets ∧ target ∈ targets

/-- Following edges leads from one node to another; no edge is a path too. -/
inductive Reaches (graph : Digraph κ) : κ → κ → Prop where
  /-- A node reaches itself. -/
  | refl {node : κ} : node ∈ graph.edges.keys → Reaches graph node node
  /-- A node reaches what its successors reach. -/
  | step {source middle target : κ} :
      graph.Edge source middle → Reaches graph middle target → Reaches graph source target

/-- A node that some path of at least one edge leads back to. -/
def OnCycle (graph : Digraph κ) (node : κ) : Prop :=
  ∃ successor, graph.Edge node successor ∧ graph.Reaches successor node

/-- No node is on a cycle. -/
def Acyclic (graph : Digraph κ) : Prop := ∀ node, ¬ graph.OnCycle node

variable {graph : Digraph κ}

theorem Edge.source_mem {source target : κ} (h : graph.Edge source target) :
    source ∈ graph.edges.keys := by
  obtain ⟨_, targets, hf, _⟩ := h
  exact KeyedList.mem_keys_iff.mpr ⟨targets, hf⟩

theorem Reaches.source_mem {source target : κ} (h : graph.Reaches source target) :
    source ∈ graph.edges.keys := by
  cases h with
  | refl hm => exact hm
  | step he _ => exact he.source_mem

theorem Reaches.target_mem {source target : κ} (h : graph.Reaches source target) :
    target ∈ graph.edges.keys := by
  induction h with
  | refl hm => exact hm
  | step _ _ ih => exact ih

theorem Reaches.trans {source middle target : κ} (first : graph.Reaches source middle)
    (second : graph.Reaches middle target) : graph.Reaches source target := by
  induction first with
  | refl => exact second
  | step he _ ih => exact .step he (ih second)

/-- Paths stay paths in a graph that has the nodes and edges. -/
theorem Reaches.mono {other : Digraph κ} {source target : κ}
    (keys : ∀ node ∈ graph.edges.keys, node ∈ other.edges.keys)
    (edges : ∀ source target, graph.Edge source target → other.Edge source target)
    (h : graph.Reaches source target) : other.Reaches source target := by
  induction h with
  | refl hm => exact .refl (keys _ hm)
  | step he _ ih => exact .step (edges _ _ he) ih

/-- Graphs of the same nodes and edges have the same paths. -/
theorem reaches_congr {other : Digraph κ} {source target : κ}
    (keys : graph.edges.keys = other.edges.keys)
    (edges : ∀ source target, graph.Edge source target ↔ other.Edge source target) :
    graph.Reaches source target ↔ other.Reaches source target :=
  ⟨.mono (fun _ hm => keys ▸ hm) fun _ _ => (edges _ _).mp,
    .mono (fun _ hm => keys ▸ hm) fun _ _ => (edges _ _).mpr⟩

/-- A node with an edge to itself is on a cycle. -/
example : Digraph.OnCycle { edges := [(1, [1, 2]), (2, [])] } 1 :=
  ⟨1, by simp [Edge, KeyedList.keys, KeyedList.find?], .refl (by simp [KeyedList.keys])⟩

end SchemaGate.Digraph
