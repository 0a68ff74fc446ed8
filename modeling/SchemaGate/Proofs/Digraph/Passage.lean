import Mathlib.Data.Nat.Find
import SchemaGate.Proofs.Digraph.Leftover

/-!
# Elimination edge by edge

A step of elimination takes a node and removes its edges one after the other. `Passes` follows this
down to the single edge: besides the stage it holds the targets of the edges still to be removed
before the next node is taken, and a record of everything that was ever put in the queue. At each
such moment a degree counts the edges from nodes not taken and those still to be removed
(`Balanced`), so the edge that is removed next is always counted. What was put in the queue was
taken or waits, and so entered once. Each step takes another node, and there are no more steps
that take one than nodes.
-/

namespace SchemaGate.Elimination

variable {κ : Type} [DecidableEq κ] {graph : Digraph κ} {stage : Elimination κ}
  {owed entered : List κ}

/-- Elimination passes through a stage while it owes the removal of the edges to some targets, and
has put the given nodes in the queue by then, in this order. -/
inductive Passes (graph : Digraph κ) : Elimination κ → List κ → List κ → Prop where
  /-- Before the first step the nodes without incoming edges are in the queue. -/
  | start : Passes graph (start graph) [] (start graph).queue
  /-- The first node of the queue is taken once nothing is owed; now its own edges are. -/
  | take {stage : Elimination κ} {entered rest : List κ} {node : κ} :
      Passes graph stage [] entered → stage.queue = node :: rest →
      Passes graph { stage with queue := rest, sorted := stage.sorted ++ [node] }
        ((graph.edges.find? node).getD []) entered
  /-- The next edge that is owed is removed, and what this adds to the queue is recorded. -/
  | release {stage : Elimination κ} {owed entered added : List κ} {target : κ} :
      Passes graph stage (target :: owed) entered →
      (stage.release target).queue = stage.queue ++ added →
      Passes graph (stage.release target) owed (entered ++ added)

/-- Releasing a target takes no node. -/
theorem sorted_release (stage : Elimination κ) (target : κ) :
    (stage.release target).sorted = stage.sorted :=
  sorted_foldl_release [target] stage

/-- Releasing a target adds it to the end of the queue or adds nothing. -/
theorem exists_queue_release (stage : Elimination κ) (target : κ) :
    ∃ added, (stage.release target).queue = stage.queue ++ added := by
  unfold release
  cases KeyedList.find? target stage.degrees with
  | none => exact ⟨[], (List.append_nil _).symm⟩
  | some degree =>
    dsimp only
    split
    · exact ⟨[target], rfl⟩
    · exact ⟨[], (List.append_nil _).symm⟩

namespace Passes

/-- What was put in the queue was taken or waits. -/
theorem entered_eq (h : Passes graph stage owed entered) :
    entered = stage.sorted ++ stage.queue := by
  induction h with
  | start => rfl
  | take _ hq ih => rw [ih, hq, List.append_assoc, List.singleton_append]
  | release _ hq ih => rw [ih, hq, sorted_release, List.append_assoc]

/-- Whatever is owed, elimination comes to remove it. -/
theorem exists_foldl_release {targets : List κ} (h : Passes graph stage targets entered) :
    ∃ more, Passes graph (targets.foldl Elimination.release stage) [] more := by
  induction targets generalizing stage entered with
  | nil => exact ⟨entered, h⟩
  | cons target rest ih =>
    obtain ⟨added, hq⟩ := exists_queue_release stage target
    exact ih (h.release hq)

/-- A step leads from one passage between nodes to the next. -/
theorem exists_step (h : Passes graph stage [] entered) :
    ∃ more, Passes graph (stage.step graph) [] more := by
  cases hq : stage.queue with
  | nil =>
    rw [step_of_queue_eq_nil hq]
    exact ⟨entered, h⟩
  | cons node rest =>
    rw [step, hq]
    exact (h.take hq).exists_foldl_release

/-- Elimination passes through the stage after each number of steps. -/
theorem exists_after (graph : Digraph κ) (steps : Nat) :
    ∃ entered, Passes graph (after graph steps) [] entered := by
  induction steps with
  | zero => exact ⟨_, .start⟩
  | succ steps ih =>
    obtain ⟨entered, h⟩ := ih
    exact h.exists_step

/-- At every moment the degrees are balanced against what is owed. -/
theorem balanced (h : Passes graph stage owed entered) :
    Balanced graph owed stage := by
  induction h with
  | start => exact .start graph
  | take _ hq ih => exact ih.take hq
  | release _ _ ih => exact ih.release

/-- The degree of a node is the number of edges to it from nodes that were not taken, and those
that are owed. -/
theorem find?_degrees (h : Passes graph stage owed entered) {node : κ}
    (hk : node ∈ graph.edges.keys) :
    KeyedList.find? node stage.degrees =
      some ((remaining graph.edges stage.sorted).count node + owed.count node) := by
  obtain ⟨targets, hf⟩ := KeyedList.mem_keys_iff.mp hk
  rw [h.balanced.degree, hf, Option.map_some]

/-- An edge that is owed is still counted when its turn comes. -/
theorem find?_degrees_ne_zero {target : κ} (h : Passes graph stage (target :: owed) entered) :
    KeyedList.find? target stage.degrees ≠ some 0 :=
  fun zero => h.balanced.not_mem_of_owed ((h.balanced.ready target).mpr zero)

end Passes

/-- Once nothing waits, further steps do nothing. -/
theorem after_of_queue_eq_nil {steps more : Nat} (hq : (after graph steps).queue = [])
    (hm : steps ≤ more) : after graph more = after graph steps := by
  induction more, hm using Nat.le_induction with
  | base => rfl
  | succ more _ ih => rw [after, ih, step_of_queue_eq_nil hq]

/-- The queue is empty for the first time after at most as many steps as there are nodes. -/
theorem exists_first_empty_queue (graph : Digraph κ) :
    ∃ steps ≤ graph.edges.length, (after graph steps).queue = [] ∧
      ∀ fewer < steps, (after graph fewer).queue ≠ [] := by
  have empties : ∃ steps, (after graph steps).queue = [] := ⟨_, queue_after_length graph⟩
  exact ⟨Nat.find empties, Nat.find_min' empties (queue_after_length graph), Nat.find_spec empties,
    fun _ earlier => Nat.find_min empties earlier⟩

/-- After each step of elimination the degree of a node is the number of edges to it, with
repetitions, from nodes that were not taken; within a step those that are still to be removed are
counted besides. So the edge that is removed next is always counted, and subtraction never falls
below zero. Only nodes are put in the queue, each once at most. The queue is empty after no more
steps than there are nodes, and stays so. -/
theorem degrees_count_edges_not_taken (graph : Digraph κ) :
    (∀ steps, ∀ node ∈ graph.edges.keys,
      KeyedList.find? node (after graph steps).degrees =
        some ((remaining graph.edges (after graph steps).sorted).count node)) ∧
    (∀ steps, ∃ entered, Passes graph (after graph steps) [] entered) ∧
    (∀ stage owed entered, Passes graph stage owed entered →
      (∀ node ∈ graph.edges.keys, KeyedList.find? node stage.degrees =
        some ((remaining graph.edges stage.sorted).count node + owed.count node)) ∧
      (∀ target later, owed = target :: later →
        KeyedList.find? target stage.degrees ≠ some 0) ∧
      entered = stage.sorted ++ stage.queue ∧ entered.Nodup ∧
      ∀ node ∈ entered, node ∈ graph.edges.keys) ∧
    ∃ steps ≤ graph.edges.length, (after graph steps).queue = [] ∧
      (∀ fewer < steps, (after graph fewer).queue ≠ []) ∧
      ∀ more, steps ≤ more → after graph more = after graph steps := by
  refine ⟨fun steps node hk => ?_, Passes.exists_after graph, ?_, ?_⟩
  · obtain ⟨entered, h⟩ := Passes.exists_after graph steps
    exact h.find?_degrees hk
  · intro stage owed entered h
    have balance := h.balanced
    refine ⟨fun node hk => h.find?_degrees hk, ?_, h.entered_eq, ?_, ?_⟩
    · rintro target later rfl
      exact h.find?_degrees_ne_zero
    · rw [h.entered_eq]
      exact balance.nodup
    · rw [h.entered_eq]
      exact fun node hm => (balance.ready_iff.mp hm).1
  · obtain ⟨steps, few, empty, first⟩ := exists_first_empty_queue graph
    exact ⟨steps, few, empty, first, fun _ hm => after_of_queue_eq_nil empty hm⟩

/-- The first node leads twice to the second and to what is no node; the third leads to itself. -/
def loops : Digraph Nat where
  edges := [(1, [2, 9, 2]), (2, [3]), (3, [3, 4]), (4, [])]

/-- Two steps take the first two nodes, and the third one is never free of incoming edges. -/
theorem degrees_count_edges_not_taken_loops :
    (after loops 2).sorted = [1, 2] ∧
    KeyedList.find? 3 (after loops 2).degrees = some ((remaining loops.edges [1, 2]).count 3) ∧
    remaining loops.edges [] = [2, 9, 2, 3, 3, 4] ∧ remaining loops.edges [1, 2] = [3, 4] ∧
    (∃ entered, Passes loops (after loops 2) [] entered ∧ entered = [1, 2] ∧ entered.Nodup ∧
      ∀ node ∈ entered, node ∈ loops.edges.keys) ∧
    ∃ steps ≤ 4, (after loops steps).queue = [] := by
  obtain ⟨degrees, passes, moments, steps, few, empty, -⟩ := degrees_count_edges_not_taken loops
  obtain ⟨entered, passed⟩ := passes 2
  obtain ⟨-, -, all, once, nodes⟩ := moments _ _ _ passed
  exact ⟨rfl, degrees 2 3 (by decide), rfl, rfl, ⟨entered, passed, all, once, nodes⟩, steps, few,
    empty⟩

end SchemaGate.Elimination
